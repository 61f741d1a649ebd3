import Treewalk.Proofs.Resolution.Receivers
import Treewalk.Proofs.Session.Construction
import Treewalk.Proofs.Session.Globals

/-! The word `parent`. Where it stands in the body of a method, be it in functions inside of that body, it
means the class that the declaration of the method found for the parent of its own class, and the method
that is found there is bound to the receiver of the method that runs. -/

namespace Treewalk

namespace Store

variable {s : Store} {f g p : FrameId} {d e : Nat}

/-- None of the frames up to the one at a distance binds the word. -/
def Without (s : Store) (word : String) (f : FrameId) (d : Nat) : Prop :=
  ∀ e ≤ d, ∀ g, s.ancestor? f e = some g → s.binding? g word = none

theorem Without.cons {word : String} (hp : s.enclosing? f = some p) (hf : s.binding? f word = none)
    (h : s.Without word p d) : s.Without word f (d + 1) := by
  intro e he g hg
  cases e with
  | zero =>
    rw [ancestor?] at hg
    split at hg
    · cases hg
      exact hf
    · cases hg
  | succ e =>
    rw [ancestor?_succ hp] at hg
    exact h e (Nat.le_of_succ_le_succ he) g hg

end Store

/-- The method was made by the declaration of a class that found `c` for its parent. -/
def Closure.MadeUnder (O : Moments) (c : Class) (f : Closure) : Prop :=
  ∃ m name methods, O.Declares m name methods (some c) ∧ f ∈ (m.bodyOf name methods (some c)).methods

namespace Program

variable {host : Host} {depth k : Nat} {ss : Program} {t : Task} {m m' : Machine}

/-- Every moment of a run lies within a top-level statement. -/
theorem Reaches.begins (h : Reaches host depth ss m k t m') :
    ∃ st m₁, Begins host depth ss m st m₁ ∧ Task.Reaches host depth (.statement st) m₁ k t m' := by
  induction h with
  | first hreaches => exact ⟨_, _, .first, hreaches⟩
  | rest hrun _ ih =>
    obtain ⟨st, m₁, hbegins, hreaches⟩ := ih
    exact ⟨st, m₁, .rest hrun hbegins, hreaches⟩

end Program

namespace History

section
variable (sink : Sink) (time : Nat → Float) (h : History)

/-- The frame was made by a block or a call. -/
def Entered (f : FrameId) : Prop :=
  ∃ k t m, h.Reaches sink time (k + 1) t m ∧ t.Enters ∧ m.store.frames.size = f

/-- The frame was made by a call of the method that was made of `g` when that was bound to `i`. -/
inductive Activates (g : Closure) (i : Instance) : FrameId → Prop
  | call {k k' paren args} {m m' : Machine} : h.Reaches sink time k (.bind g i) m →
    h.Reaches sink time (k' + 1) (.invoke (g.boundOn m) paren args) m' →
    Activates g i m'.store.frames.size

/-- The frame belongs to the body of the call that made the frame `F`: it is that frame, or it was made by
a block that was executed in such a frame, or by the call of a function that was declared in one. -/
inductive Belongs (F : FrameId) : FrameId → Prop
  | body : Belongs F F
  | block {k ss} {m : Machine} : h.Reaches sink time (k + 1) (.statement (.block ss)) m →
    Belongs F m.active → Belongs F m.store.frames.size
  | function {k k' decl paren args} {m m' : Machine} :
    h.Reaches sink time (k + 1) (.statement (.function decl)) m → Belongs F m.active →
    h.Reaches sink time (k' + 1) (.invoke (decl.madeOn m) paren args) m' →
    Belongs F m'.store.frames.size

/-- From the frame outward, `this` is bound nowhere. -/
def Receiverless (f : FrameId) : Prop :=
  ∀ k t m, h.Reaches sink time k t m → f < m.store.frames.size → ∀ d, m.store.Without "this" f d

end

variable {sink : Sink} {time : Nat → Float} {h : History} {k k' : Nat} {t t' : Task} {m m' : Machine}
  {f F : FrameId} {g : Closure} {i : Instance} {c : Class} {word : String}

/-- A task within one that is done in the global frame, or in one that was made by a block or a call, is
done in such a frame. -/
theorem Reaches.active_within (hreaches : h.Reaches sink time k t m)
    (hwithin : Task.Reaches (.reading time) k t m k' t' m')
    (hactive : m.active = (Machine.initial sink).globals ∨ h.Entered sink time m.active) :
    m'.active = (Machine.initial sink).globals ∨ h.Entered sink time m'.active := by
  induction hwithin with
  | self => exact hactive
  | step hstart _ ih =>
    refine ih (hreaches.trans (.step hstart .self)) ?_
    obtain ⟨-, -, ⟨-, hsame⟩ | ⟨henters, hnew⟩⟩ := hstart.finds
    · rwa [hsame]
    · exact .inr ⟨_, _, _, hreaches, henters, hnew.symm⟩

/-- Everything is done in the global frame or in one that was made by a block or a call. -/
theorem Reaches.active_entered (hreaches : h.Reaches sink time k t m) :
    m.active = (Machine.initial sink).globals ∨ h.Entered sink time m.active := by
  induction h with
  | nil => exact hreaches.elim
  | cons run earlier ih =>
    obtain ⟨depth, source⟩ := run
    obtain ⟨program, haccepted, hrun⟩ | hearlier := hreaches
    · obtain ⟨st, m₁, hbegins, hwithin⟩ := hrun.begins
      have hstarting : Starting sink time depth source earlier program :=
        (between sink time earlier).starting haccepted
      have htop := (hstarting.begins hbegins).2
      exact active_within (.inl ⟨program, haccepted, hbegins.reaches .self⟩) hwithin (.inl htop)
    · obtain hglobals | ⟨k', t', m', hreaches', henters, hsize⟩ := ih hearlier
      · exact .inl hglobals
      · exact .inr ⟨k', t', m', .inr hreaches', henters, hsize⟩

/-- The global frame binds neither `this` nor `parent`. -/
theorem Reaches.globals_without (hreaches : h.Reaches sink time k t m)
    (hword : word = "this" ∨ word = "parent") :
    m.store.binding? (Machine.initial sink).globals word = none ∧
      m.store.enclosing? (Machine.initial sink).globals = none := by
  obtain ⟨W, -, hextends, hm, -⟩ := hreaches.passes.fitting
  have hglobals : W.globals = (Machine.initial sink).globals := hextends.globals.symm
  refine ⟨?_, hglobals ▸ hm.store.outermost⟩
  obtain ⟨cs, hcs⟩ := exists_chronicle sink time h
  obtain ⟨j, -, hj⟩ := hcs.passes hreaches.passes
  rw [hj]
  refine Store.stage_induction (motive := fun s =>
    s.binding? (Machine.initial sink).globals word = none) ?_ ?_ j
  · show ((Store.empty.addFrame _ none).2.binding? Store.empty.frames.size word) = none
    rw [Store.binding?_addFrame_self]
    obtain rfl | rfl := hword <;> rfl
  · intro i c hc ih
    obtain hsame | ⟨v, rfl, -⟩ | ⟨names, b, p, rfl, hnew, -⟩ :=
      Store.binding?_apply ((start sink).stage cs i) c (Machine.initial sink).globals word
    · rwa [hsame]
    · obtain ⟨hthis, hparent, -⟩ := hcs.binds hc
      exact (hword.elim hthis hparent).elim
    · exact absurd hnew (Nat.ne_of_lt (globals_lt_stage sink cs i))

/-- A frame that was made by a block or a call binds neither `this` nor `parent`. -/
theorem Entered.without (hentered : h.Entered sink time f) (hreaches : h.Reaches sink time k t m)
    (hword : word = "this" ∨ word = "parent") : m.store.binding? f word = none := by
  obtain ⟨k₀, t₀, m₀, hmoment, henters, rfl⟩ := hentered
  obtain ⟨W, hW, -, hm, hfits⟩ := hmoment.passes.fitting
  obtain ⟨o, hmakes, hordinary⟩ : ∃ o, t₀.MakesWithin (k₀ + 1) m₀ o ∧
      ∀ name ∈ o.names, name ≠ "this" ∧ name ≠ "parent" := by
    cases t₀ with
    | statement s =>
      cases s with
      | block body =>
        have hbody : Stmt.AllSpelled Token.IsName body := hfits.spelled hW
        exact ⟨_, .deeper .block, fun name => hbody.ordinary⟩
      | _ => exact henters.elim
    | invoke f paren args =>
      obtain ⟨⟨p, hp, kind, ctx, os, hvisits, -⟩, -⟩ := hfits
      have hdecl : f.decl.Spelled Token.IsName := hvisits.spelled (hW.spelled p hp)
      exact ⟨_, .deeper .call, fun name => hdecl.ordinary⟩
    | _ => exact henters.elim
  obtain ⟨cs, hcs⟩ := exists_chronicle sink time h
  obtain ⟨j, -, hj⟩ := hcs.passes hreaches.passes
  have hconfined := hcs.confined ⟨k₀ + 1, t₀, m₀, hmoment, hmakes, rfl⟩ j word
  rw [← hj] at hconfined
  refine Option.not_isSome_iff_eq_none.mp fun hbound => ?_
  obtain ⟨hthis, hparent⟩ := hordinary word (hconfined hbound)
  exact (hword.elim hthis hparent).elim

/-- Whatever belongs to the body of a call was made by a block or a call. -/
theorem Belongs.entered (hbelongs : h.Belongs sink time F f) (hF : h.Entered sink time F) :
    h.Entered sink time f := by
  cases hbelongs with
  | body => exact hF
  | block hreaches => exact ⟨_, _, _, hreaches, trivial, rfl⟩
  | function _ _ hreaches => exact ⟨_, _, _, hreaches, trivial, rfl⟩

theorem Activates.entered (hcall : h.Activates sink time g i F) : h.Entered sink time F := by
  obtain ⟨-, hreaches⟩ := hcall
  exact ⟨_, _, _, hreaches, trivial, rfl⟩

/-- From a frame that belongs to the body of a call, links lead to the frame of the call, and no frame on
the way binds `this`. -/
theorem Belongs.leads (hbelongs : h.Belongs sink time F f) (hF : h.Entered sink time F)
    (hreaches : h.Reaches sink time k t m) (hf : f < m.store.frames.size) :
    ∃ d, m.store.ancestor? f d = some F ∧ m.store.Without "this" f d := by
  induction hbelongs with
  | body =>
    refine ⟨0, Store.ancestor?_zero hf, fun e he g hg => ?_⟩
    obtain rfl := Nat.le_zero.mp he
    rw [Store.ancestor?_zero hf] at hg
    cases hg
    exact hF.without hreaches (.inl rfl)
  | @block k₀ ss m₀ hblock hactive ih =>
    have hlink := hblock.links .block hreaches hf
    obtain ⟨d, hd, hwithout⟩ := ih (Nat.lt_trans (Store.lt_of_enclosing? hlink) hf)
    refine ⟨d + 1, by rw [Store.ancestor?_succ hlink, hd], hwithout.cons hlink ?_⟩
    exact (Belongs.block hblock hactive |>.entered hF).without hreaches (.inl rfl)
  | @function k₀ k₁ decl paren args m₀ m₁ hdecl hactive hcall ih =>
    have hlink := hcall.links .call hreaches hf
    obtain ⟨d, hd, hwithout⟩ := ih (Nat.lt_trans (Store.lt_of_enclosing? hlink) hf)
    refine ⟨d + 1, by rw [Store.ancestor?_succ hlink]; exact hd, hwithout.cons hlink ?_⟩
    exact (Belongs.function hdecl hactive hcall |>.entered hF).without hreaches (.inl rfl)

/-- Around the frame of a call of a method lies the frame of the receiver, and around that one the frame
in which the method was declared. -/
theorem Activates.receiver (hcall : h.Activates sink time g i F) (hreaches : h.Reaches sink time k t m)
    {d : Nat} (hd : m.store.ancestor? f d = some F) :
    ∃ r, m.store.ancestor? f (d + 1) = some r ∧ m.store.ancestor? f (d + 2) = some g.frame ∧
      m.store.binding? r "this" = some (.instanceRef i) ∧ h.Created sink time r (.receiver [g.decl]) := by
  obtain @⟨_, _, _, _, m₀, m₁, hbind, hinvoke⟩ := hcall
  have hF := Store.lt_size_of_ancestor? hd
  have hlink : m.store.enclosing? m₁.store.frames.size = some m₀.store.frames.size :=
    hinvoke.links .call hreaches hF
  have hlt := Nat.lt_trans (Store.lt_of_enclosing? hlink) hF
  have hlink' := hbind.links .bind hreaches hlt
  refine ⟨_, ?_, ?_, ?_, ⟨_, _, _, hbind, .bind (List.mem_singleton.mpr rfl), rfl⟩⟩
  · rw [Store.ancestor?_add hd, Store.ancestor?_succ hlink, Store.ancestor?_zero hlt]
  · rw [Store.ancestor?_add hd, Store.ancestor?_succ hlink, Store.ancestor?_succ hlink',
      Store.ancestor?_zero (Nat.lt_trans (Store.lt_of_enclosing? hlink') hlt)]
  · exact (hbind.receiver hreaches hlt "this").trans (if_pos rfl)

theorem receiverless_globals : h.Receiverless sink time (Machine.initial sink).globals := by
  intro k t m hreaches hlt d e _ g hg
  obtain ⟨hglobals, houtermost⟩ := hreaches.globals_without (.inl rfl)
  cases e with
  | zero =>
    rw [Store.ancestor?_zero hlt] at hg
    cases hg
    exact hglobals
  | succ e =>
    rw [Store.ancestor?_outermost houtermost] at hg
    cases hg

/-- A frame that a task makes lies in an older one. -/
theorem Reaches.lt_of_adds (hreaches : h.Reaches sink time k t m) {names : List String} {b : Bindings}
    {p : FrameId} (hadds : t.Adds k m m.store names b p) : p < m.store.frames.size := by
  obtain ⟨W, -, -, hm, ht⟩ := hreaches.passes.fitting
  exact (hadds.lawful hm ht).1

/-- If `this` is bound nowhere from a frame outward, neither is it from a block or a call in that frame. -/
theorem Receiverless.inner {p : FrameId} (hp : h.Receiverless sink time p)
    (hreaches : h.Reaches sink time (k + 1) t m) (henters : t.Enters) {names : List String}
    {b : Bindings} (hadds : t.Adds (k + 1) m m.store names b p) :
    h.Receiverless sink time m.store.frames.size := by
  intro k' t' m' hlater hlt d e he
  have hentered : h.Entered sink time m.store.frames.size := ⟨k, t, m, hreaches, henters, rfl⟩
  have hlink := hreaches.links hadds hlater hlt
  have houter := hp k' t' m' hlater (Nat.lt_trans (Store.lt_of_enclosing? hlink) hlt) d
  exact (houter.cons hlink (hentered.without hlater (.inl rfl))) e (Nat.le_succ_of_le he)

/-- A frame that was made by a block or a call belongs to the body of a call of a method, or else no frame
around it binds `this`. -/
theorem Entered.belongs (hentered : f = (Machine.initial sink).globals ∨ h.Entered sink time f) :
    (∃ F g i, h.Activates sink time g i F ∧ h.Belongs sink time F f) ∨ h.Receiverless sink time f := by
  induction f using Nat.strongRecOn with
  | _ f ih =>
    obtain rfl | ⟨k₀, t₀, m₀, hmoment, henters, rfl⟩ := hentered
    · exact .inr receiverless_globals
    · cases t₀ with
      | statement s =>
        cases s with
        | block body =>
          have hlt := hmoment.lt_of_adds .block
          obtain ⟨F, g, i, hcall, hbelongs⟩ | hnone := ih _ hlt hmoment.active_entered
          · exact .inl ⟨F, g, i, hcall, .block hmoment hbelongs⟩
          · exact .inr (hnone.inner hmoment henters .block)
        | _ => exact henters.elim
      | invoke f' paren args =>
        have hmade : f'.Made (h.moments sink time) := hmoment.traced.2.1
        cases hmade with
        | bound hbind => exact .inl ⟨_, _, _, .call hbind hmoment, .body⟩
        | function hdecl =>
          have hlt := hmoment.lt_of_adds .call
          obtain ⟨F, g, i, hcall, hbelongs⟩ | hnone := ih _ hlt hdecl.active_entered
          · exact .inl ⟨F, g, i, hcall, .function hdecl hbelongs hmoment⟩
          · exact .inr (hnone.inner hmoment henters .call)
      | _ => exact henters.elim

/-- Where `parent` stands in the body of a call of a method, its distance leads to the frame in which the
method was declared, and one frame nearer `this` is the receiver. -/
theorem Belongs.distance {keyword : Reference} {method : Token} (hbelongs : h.Belongs sink time F m.active)
    (hcall : h.Activates sink time g i F)
    (hreaches : h.Reaches sink time k (.expression (.parent keyword method)) m) :
    ∃ d, m.distances[keyword.id]? = some (d + 1) ∧
      m.store.getAt? m.active d "this" = some (.instanceRef i) ∧
      m.store.ancestor? m.active (d + 1) = some g.frame := by
  obtain ⟨W, hW, hextends, hm, hfitting⟩ := hreaches.passes.fitting
  obtain ⟨underway, p, hp, ctx, os, hvisits, hfits⟩ := hfitting
  obtain ⟨n, hdistance, hthis, -⟩ := hvisits.parent_adjoins (hW.resolved p hp) (hW.spelled p hp)
  obtain ⟨d, hd, hwithout⟩ := hbelongs.leads hcall.entered hreaches (hfits.lt_size hm.store.globals)
  obtain ⟨r, hrd, hgd, hbound, hcreated⟩ := hcall.receiver hreaches hd
  -- the scope of the receiver is the nearest one for `this`, as its frame is the nearest one
  have hnearest : n = d + 1 := by
    obtain ⟨hlt, -, hnearer⟩ := List.findIdx?_eq_some_iff_getElem.mp hthis
    refine Nat.le_antisymm (Nat.le_of_not_lt fun hfar => ?_) (Nat.lt_of_not_ge fun hnear => ?_)
    · obtain ⟨frame, o, hframe, ho, hmade, -⟩ :=
        hfits.frame_of_scope (List.getElem?_eq_getElem (Nat.lt_trans hfar hlt))
      cases hrd.symm.trans hframe
      obtain ⟨cs, hcs⟩ := exists_chronicle sink time h
      have hnames := hcs.names_eq (hextends.made r o hmade) hcreated
      refine hnearer (d + 1) hfar ((hvisits.receives (hW.spelled p hp)).getElem
        (List.getElem?_eq_getElem (Nat.lt_trans hfar hlt)) ho ?_)
      rw [hnames]
      exact List.mem_cons_self
    · have hat : m.At W (.expression underway (.parent keyword method)) :=
        ⟨p, hp, ctx, os, hvisits, hfits⟩
      obtain ⟨n', c, j, hdistance', -, hj⟩ := hat.parent hW hm
      obtain rfl : n = n' := by simpa [hm.distances, hdistance] using hdistance'
      obtain ⟨frame, hframe, hj⟩ := Option.bind_eq_some_iff.mp hj
      cases hj.symm.trans (hwithout n hnear frame hframe)
  subst hnearest
  refine ⟨d + 1, by rw [hm.distances, hdistance], ?_, hgd⟩
  rw [Store.getAt?, hrd]
  exact hbound

/-- The frame of a class's methods binds `parent` to the class that its declaration found. -/
theorem parent_of_madeUnder (hg : g.MadeUnder (h.moments sink time) c)
    (hreaches : h.Reaches sink time k t m) (hlt : g.frame < m.store.frames.size) :
    m.store.binding? g.frame "parent" = some (.classRef c) := by
  obtain ⟨m₀, name, methods, hdeclares, hmem⟩ := hg
  have hframe := (FunctionDecl.of_mem_methodsIn hmem).2.1
  rw [hframe] at hlt ⊢
  cases hdeclares with
  | heir hdeclared hvalue =>
    have hsize : (m₀.store.define m₀.active name.lexeme .null).frames.size = m₀.store.frames.size :=
      Store.size_define _ _ _ _
    have hbinding := hdeclared.single (.subclass hvalue) (.deeper (.subclass hvalue)) rfl hsize hreaches
      (hsize ▸ hlt) "parent"
    rw [hsize, if_pos rfl] at hbinding
    exact hbinding

/-- A method of a class without a parent lies in a frame that binds no `parent`. -/
theorem Activates.method_frame (hcall : h.Activates sink time g i F) :
    (∃ c, g.MadeUnder (h.moments sink time) c) ∨
      ∀ k t m, h.Reaches sink time k t m → m.store.binding? g.frame "parent" = none := by
  obtain ⟨hbind, -⟩ := hcall
  obtain ⟨m₀, name, methods, parent, hdeclares, hmem⟩ := hbind.traced.2.1
  cases hdeclares with
  | heir hdeclared hvalue => exact .inl ⟨_, m₀, name, methods, .heir hdeclared hvalue, hmem⟩
  | plain hdeclared =>
    refine .inr fun k t m hreaches => ?_
    rw [(FunctionDecl.of_mem_methodsIn hmem).2.1]
    show m.store.binding? m₀.active "parent" = none
    obtain hglobals | hentered := hdeclared.active_entered
    · rw [hglobals]
      exact (hreaches.globals_without (.inr rfl)).1
    · exact hentered.without hreaches (.inr rfl)

/-- Wherever `parent` stands, it is in the body of a method of a class that has a parent. -/
theorem Reaches.in_method {keyword : Reference} {method : Token}
    (hreaches : h.Reaches sink time k (.expression (.parent keyword method)) m) :
    ∃ F g i c, h.Activates sink time g i F ∧ h.Belongs sink time F m.active ∧
      g.MadeUnder (h.moments sink time) c := by
  obtain ⟨W, hW, -, hm, underway, hat⟩ := hreaches.passes.fitting
  obtain ⟨n, c, j, hdistance, hc, hj⟩ := hat.parent hW hm
  have hlt : m.active < m.store.frames.size := by
    obtain ⟨_, _, _, _, _, hfits⟩ := hat
    exact hfits.lt_size hm.store.globals
  obtain ⟨F, g, i, hcall, hbelongs⟩ | hnone := Entered.belongs hreaches.active_entered
  · obtain ⟨d, hd, -, hframe⟩ := hbelongs.distance hcall hreaches
    obtain rfl : n = d := by simpa [hdistance] using hd
    have hparent : m.store.binding? g.frame "parent" = some (.classRef c) := by
      rw [Store.getAt?, hframe] at hc
      exact hc
    obtain ⟨c', hg⟩ | hplain := hcall.method_frame
    · exact ⟨F, g, i, c', hcall, hbelongs, hg⟩
    · cases hparent.symm.trans (hplain k _ m hreaches)
  · obtain ⟨frame, hframe, hj⟩ := Option.bind_eq_some_iff.mp hj
    cases hj.symm.trans (hnone k _ m hreaches hlt n n (Nat.le_refl n) frame hframe)

/-- What `parent` comes to where a class stands at its distance and an instance one frame nearer. -/
theorem evaluate_parent {host : Host} {keyword : Reference} {method : Token} {d : Nat}
    (hd : m.distances[keyword.id]? = some (d + 1))
    (hc : m.store.getAt? m.active (d + 1) "parent" = some (.classRef c))
    (hi : m.store.getAt? m.active d "this" = some (.instanceRef i)) :
    evaluate host (k + 1) (.parent keyword method) m =
      match c.method? method.lexeme with
      | some f => .ok (.function (f.boundOn m)) { m with
          store := (m.store.addFrame ((∅ : Bindings).insert "this" (.instanceRef i)) (some f.frame)).2
          nextIdentity := m.nextIdentity + 1 }
      | none => .error (.fault method (.undefinedProperty method.lexeme)) m := by
  rw [evaluate]
  show Action.getParentMethod keyword method m = _
  have hrequire : Action.require keyword.name .unresolvedParent m.distances[keyword.id]? m =
      .ok (d + 1) m := by rw [hd]; rfl
  unfold Action.getParentMethod
  rw [bind_of_ok get_apply, bind_of_ok hrequire, hc]
  dsimp only
  rw [hi]
  dsimp only
  cases c.method? method.lexeme <;> rfl

/-- `parent` is dispatched by the class around it and not by the receiver. Wherever it is evaluated in a
session, it is in the body of a call of a method, or in a function that was declared there, and the method
was made by the declaration of a class that had found a class for its parent. For every such call, with
the class `c` that was found and the receiver `i`: of the classes from `c` on, the nearest one that
declares the method gives it, the last one of several in one class, and it is bound to `i`; and there is an
undefined property if and only if no class from `c` on declares the method. -/
theorem parent_is_lexical (sink : Sink) (time : Nat → Float) (h : History) (k : Nat)
    (keyword : Reference) (method : Token) (m : Machine)
    (hreaches : h.Reaches sink time (k + 1) (.expression (.parent keyword method)) m) :
    let outcome := evaluate (.reading time) (k + 1) (.parent keyword method) m
    (∃ F g i c, h.Activates sink time g i F ∧ h.Belongs sink time F m.active ∧
      g.MadeUnder (h.moments sink time) c) ∧
    ∀ F g i c, h.Activates sink time g i F → h.Belongs sink time F m.active →
      g.MadeUnder (h.moments sink time) c →
        (∀ f, c.Finds method.lexeme f → ∃ m', outcome = .ok (.function (f.boundOn m)) m' ∧
          m'.store.binding? (f.boundOn m).frame "this" = some (.instanceRef i)) ∧
        (outcome = .error (.fault method (.undefinedProperty method.lexeme)) m ↔
          c.Lacks method.lexeme) := by
  intro outcome
  refine ⟨hreaches.in_method, fun F g i c hcall hbelongs hg => ?_⟩
  obtain ⟨d, hd, hi, hframe⟩ := hbelongs.distance hcall hreaches
  have hc : m.store.getAt? m.active (d + 1) "parent" = some (.classRef c) := by
    rw [Store.getAt?, hframe]
    exact parent_of_madeUnder hg hreaches (Store.lt_size_of_ancestor? hframe)
  have houtcome : evaluate (.reading time) (k + 1) (.parent keyword method) m = _ :=
    evaluate_parent hd hc hi
  refine ⟨fun f hf => ?_, ?_⟩
  · rw [Class.method?_eq_some_iff.mpr hf] at houtcome
    refine ⟨_, houtcome, ?_⟩
    show (m.store.addFrame _ _).2.binding? m.store.frames.size "this" = _
    rw [Store.binding?_addFrame_self]
    simp
  · rw [← Class.method?_eq_none_iff]
    show evaluate (.reading time) (k + 1) (.parent keyword method) m = _ ↔ _
    rw [houtcome]
    cases c.method? method.lexeme <;> simp

section Heir

/-! A class with a parent, whose initializer asks the parent for a method. -/

private def heirSource : String := "class A \x7b\x7d class B < A \x7b Init() \x7b parent.m; \x7d \x7d B();"

private def heirKeyword : Reference := ⟨1, ⟨.keyword .parentWord, "parent", 1⟩⟩

private def heirInit : FunctionDecl :=
  ⟨⟨.identifier, "Init", 1⟩, [], [.expression (.parent heirKeyword ⟨.identifier, "m", 1⟩)]⟩

private def heirClasses : Stmt × Stmt :=
  (.classDecl ⟨.identifier, "A", 1⟩ none [],
    .classDecl ⟨.identifier, "B", 1⟩ (some ⟨0, ⟨.identifier, "A", 1⟩⟩) [heirInit])

private def heirProgram : Program :=
  [heirClasses.1, heirClasses.2,
    .expression (.call (.variable ⟨2, ⟨.identifier, "B", 1⟩⟩) ⟨.punct .rightParen, ")", 1⟩ [])]

private def heirStart : Machine :=
  { Machine.initial .unbounded with distances := (∅ : Distances).insert 1 2 }

private theorem heirProgram_findings : heirProgram.findings = [.distance 1 2] := by
  rfl

private theorem heirSource_accepted :
    (Session.initial .unbounded).accepted? heirSource = some heirProgram := by
  refine Session.accepted?_eq_some_iff.mpr ⟨by cbv, ?_⟩
  rw [heirProgram_findings]
  rfl

private theorem heirProgram_ready : (Session.initial .unbounded).ready heirProgram = heirStart := by
  rw [Session.ready, Session.adopt, heirProgram_findings]
  rfl

/-- Once both classes are declared, the name of the second one leads to its initializer. -/
private theorem heirClasses_declared :
    ((match (do
        let _ ← execute (.reading fun _ => 0) 9 heirClasses.1
        let _ ← execute (.reading fun _ => 0) 9 heirClasses.2
        evaluate (.reading fun _ => 0) 7 (.variable ⟨2, ⟨.identifier, "B", 1⟩⟩) : Action Value)
          heirStart with
      | .ok (.classRef c) _ => some c
      | _ => none).bind fun c => (c.method? initializerName).map Closure.decl) = some heirInit := by
  cbv

theorem parent_is_lexical_in_initializer : ∃ m, ∃ F g i c,
    let h : History := [(9, heirSource)]
    h.Reaches .unbounded (fun _ => 0) 3 (.expression (.parent heirKeyword ⟨.identifier, "m", 1⟩)) m ∧
      h.Activates .unbounded (fun _ => 0) g i F ∧ h.Belongs .unbounded (fun _ => 0) F m.active ∧
        g.MadeUnder (h.moments .unbounded (fun _ => 0)) c := by
  obtain ⟨c, hc, hmethod⟩ := Option.bind_eq_some_iff.mp heirClasses_declared
  obtain ⟨f, hf, hdecl⟩ := Option.map_eq_some_iff.mp hmethod
  split at hc
  case h_2 => cases hc
  case h_1 m hm =>
  cases hc
  obtain ⟨_, m₁, hfirst, hrest⟩ := bind_eq_ok.mp hm
  obtain ⟨_, m₂, hsecond, hthird⟩ := bind_eq_ok.mp hrest
  have harity : ([] : List Value).length = c.arity initializerName := by
    rw [Class.arity, hf, Option.elim_some, Closure.arity, hdecl]
    rfl
  have hbody (m : Machine) : Task.Reaches (.reading fun _ => 0) 5 (.statements f.decl.body) m 3
      (.expression (.parent heirKeyword ⟨.identifier, "m", 1⟩)) m := by
    rw [hdecl]
    exact .step .first (.step .value .self)
  obtain ⟨m, hrun⟩ : ∃ m, Program.Reaches (.reading fun _ => 0) 9 heirProgram heirStart 3
      (.expression (.parent heirKeyword ⟨.identifier, "m", 1⟩)) m := by
    refine ⟨_, .rest hfirst (.rest hsecond (.first (.step .value (.step (.call hthird rfl)
      (.step (.initializer harity rfl hf rfl) (.step (.body rfl) (hbody _)))))))⟩
  have hreaches : Reaches .unbounded (fun _ => 0) [(9, heirSource)] 3
      (.expression (.parent heirKeyword ⟨.identifier, "m", 1⟩)) m :=
    .inl ⟨heirProgram, heirSource_accepted, heirProgram_ready.symm ▸ hrun⟩
  obtain ⟨F, g, i, c, hin⟩ := (parent_is_lexical _ _ _ 2 _ _ m hreaches).1
  exact ⟨m, F, g, i, c, hreaches, hin⟩

end Heir

end History

end Treewalk
