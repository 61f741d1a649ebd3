import Treewalk.Evaluation
import Treewalk.Proofs.Evaluation.Soundness
import Treewalk.Proofs.Run

/-! Safe actions. An action is safe on a sound machine if the machine is sound afterwards, with the
same active frame and no name lost, and if it halts for no reason that programs cannot come to. -/

namespace Treewalk

/-- The values of a machine are sound, and it has the distances and the global frame of its
world. -/
structure Machine.Sound (W : World) (m : Machine) : Prop where
  store : m.store.Sound W
  distances : m.distances = W.distances
  globals : m.globals = W.globals

/-- What may have become of a machine. -/
structure Machine.Becomes (W : World) (m m' : Machine) : Prop where
  sound : m'.Sound W
  grows : m.store.Grows m'.store
  active : m'.active = m.active

theorem Machine.Sound.becomes {W : World} {m : Machine} (h : m.Sound W) : m.Becomes W m :=
  ⟨h, .refl _, rfl⟩

theorem Machine.Becomes.trans {W : World} {m m' m'' : Machine} (h : m.Becomes W m')
    (h' : m'.Becomes W m'') : m.Becomes W m'' :=
  ⟨h'.sound, h.grows.trans h'.grows, h'.active.trans h.active⟩

/-- Faults that no accepted program comes to. -/
def RuntimeFault.IsInternal : RuntimeFault → Prop
  | unresolvedParent | parentWithoutInstance | unboundInitializer | unaryOperator
  | binaryOperator => True
  | _ => False

/-- A halt that an accepted program may come to: no internal fault, and no class missing at the
word `parent`. -/
def Halt.Legit : Halt → Prop
  | .fault token found =>
    ¬found.IsInternal ∧ (found = .parentNotClass → token.terminal ≠ .keyword .parentWord)
  | _ => True

theorem Halt.legit_fault {token : Token} {found : RuntimeFault} (h : ¬found.IsInternal)
    (hne : found ≠ .parentNotClass) : (Halt.fault token found).Legit :=
  ⟨h, fun heq => absurd heq hne⟩

/-- The host answers with numbers, if at all. -/
def Host.AnswersNumbers (host : Host) : Prop :=
  ∀ turn f args v, host.answer turn f args = .ok v → ∃ x, v = .number x

theorem Host.answersNumbers_reading (time : Nat → Float) : (Host.reading time).AnswersNumbers := by
  intro turn f args v h
  simp only [reading] at h
  split at h
  · exact ⟨time turn, by simpa [eq_comm] using h⟩
  · cases h

namespace Action

variable {W : World} {α β : Type} {m : Machine}

/-- The action is safe on `m`, and its value and the store behind it satisfy `P`. -/
def Safe (W : World) (x : Action α) (m : Machine) (P : α → Store → Prop) : Prop :=
  match x m with
  | .ok a m' => m.Becomes W m' ∧ P a m'.store
  | .error halt m' => m.Becomes W m' ∧ halt.Legit

theorem Safe.of_ok {x : Action α} {P : α → Store → Prop} (h : x.Safe W m P) {a : α} {m' : Machine}
    (hx : x m = .ok a m') : m.Becomes W m' ∧ P a m'.store := by
  unfold Safe at h
  rwa [hx] at h

theorem Safe.of_error {x : Action α} {P : α → Store → Prop} (h : x.Safe W m P) {halt : Halt}
    {m' : Machine} (hx : x m = .error halt m') : m.Becomes W m' ∧ halt.Legit := by
  unfold Safe at h
  rwa [hx] at h

theorem Safe.mono {x : Action α} {P Q : α → Store → Prop} (h : x.Safe W m P)
    (hPQ : ∀ a m', m.Becomes W m' → P a m'.store → Q a m'.store) : x.Safe W m Q := by
  unfold Safe at h ⊢
  split at h
  · exact ⟨h.1, hPQ _ _ h.1 h.2⟩
  · exact h

theorem Safe.pure {a : α} {P : α → Store → Prop} (hm : m.Sound W) (h : P a m.store) :
    Safe W (pure a : Action α) m P :=
  ⟨hm.becomes, h⟩

/-- A sequence of safe actions is safe. -/
theorem Safe.bind {x : Action α} {f : α → Action β} {P : α → Store → Prop} {Q : β → Store → Prop}
    (hx : x.Safe W m P)
    (hf : ∀ a m', x m = .ok a m' → m.Becomes W m' → P a m'.store → (f a).Safe W m' Q) :
    (x >>= f).Safe W m Q := by
  unfold Safe
  cases hrun : x m with
  | ok a m' =>
    obtain ⟨hbecomes, ha⟩ := hx.of_ok hrun
    have hrest := hf a m' hrun hbecomes ha
    rw [bind_of_ok hrun]
    unfold Safe at hrest
    split at hrest
    · exact ⟨hbecomes.trans hrest.1, hrest.2⟩
    · exact ⟨hbecomes.trans hrest.1, hrest.2⟩
  | error halt m' =>
    rw [bind_of_error hrun]
    exact hx.of_error hrun

/-- To look at the machine changes nothing. -/
theorem Safe.get_bind {f : Machine → Action β} {Q : β → Store → Prop} (h : (f m).Safe W m Q) :
    ((get : Action Machine) >>= f).Safe W m Q :=
  h

theorem safe_throw {halt : Halt} {P : α → Store → Prop} (hm : m.Sound W) (h : halt.Legit) :
    Safe W (throw halt : Action α) m P :=
  ⟨hm.becomes, h⟩

theorem safe_fail {token : Token} {found : RuntimeFault} {P : α → Store → Prop} (hm : m.Sound W)
    (h : (Halt.fault token found).Legit) : Safe W (fail token found : Action α) m P :=
  safe_throw hm h

theorem safe_require {token : Token} {fault : RuntimeFault} {found : Option α}
    {P : α → Store → Prop} (hm : m.Sound W) (hsome : ∀ a, found = some a → P a m.store)
    (hnone : found = none → (Halt.fault token fault).Legit) :
    (require token fault found).Safe W m P := by
  cases found with
  | some a => exact .pure hm (hsome a rfl)
  | none => exact safe_fail hm (hnone rfl)

theorem safe_lift {token : Token} {result : Except RuntimeFault α} {P : α → Store → Prop}
    (hm : m.Sound W) (hok : ∀ a, result = .ok a → P a m.store)
    (herror : ∀ fault, result = .error fault → (Halt.fault token fault).Legit) :
    (lift token result).Safe W m P := by
  cases result with
  | ok a => exact .pure hm (hok a rfl)
  | error fault => exact safe_fail hm (herror fault rfl)

/-- A change of the machine is safe that keeps it sound and loses no name. -/
theorem safe_modify {g : Machine → Machine} {P : Unit → Store → Prop} (h : m.Becomes W (g m))
    (hP : P () (g m).store) : Safe W (modify g : Action Unit) m P :=
  ⟨h, hP⟩

theorem safe_modifyGet {g : Machine → α × Machine} {P : α → Store → Prop}
    (h : m.Becomes W (g m).2) (hP : P (g m).1 (g m).2.store) :
    Safe W (modifyGet g : Action α) m P :=
  ⟨h, hP⟩

/-- What runs in a frame is safe if it is safe with the frame being active. -/
theorem Safe.inFrame {x : Action α} {frame : FrameId} {P : α → Store → Prop}
    (h : x.Safe W { m with active := frame } P) : (inFrame frame x).Safe W m P := by
  have hafter {m' : Machine} (hbecomes : Machine.Becomes W { m with active := frame } m') :
      m.Becomes W { m' with active := m.active } :=
    ⟨⟨hbecomes.sound.store, hbecomes.sound.distances, hbecomes.sound.globals⟩, hbecomes.grows, rfl⟩
  unfold Safe Action.inFrame
  cases hx : x { m with active := frame } with
  | ok a m' =>
    obtain ⟨hbecomes, ha⟩ := h.of_ok hx
    exact ⟨hafter hbecomes, ha⟩
  | error halt m' =>
    obtain ⟨hbecomes, hlegit⟩ := h.of_error hx
    exact ⟨hafter hbecomes, hlegit⟩

/-- A change of the store alone is safe if the store stays sound and loses no name. -/
theorem becomes_store (hm : m.Sound W) {s : Store} (hs : s.Sound W) (hgrows : m.store.Grows s) :
    m.Becomes W { m with store := s } :=
  ⟨⟨hs, hm.distances, hm.globals⟩, hgrows, rfl⟩

theorem safe_lookUp (hm : m.Sound W) (ref : Reference) :
    (lookUp ref).Safe W m fun v s => s = m.store ∧ v.Sound W s ∧ m.value? ref = some v := by
  refine Safe.get_bind ?_
  refine safe_require hm (fun v hv => ⟨rfl, ?_, hv⟩) (fun _ =>
    Halt.legit_fault (by simp [RuntimeFault.IsInternal]) (by simp))
  unfold Machine.value? at hv
  split at hv
  · obtain ⟨frame, -, hv⟩ := Option.bind_eq_some_iff.mp hv
    exact hm.store.values frame _ v hv
  · obtain ⟨frame, -, hv⟩ := Option.bind_eq_some_iff.mp hv
    exact hm.store.values frame _ v hv

theorem safe_define (hm : m.Sound W) {name : Token} {v : Value} (hname : name.IsName)
    (hactive : m.active < m.store.frames.size)
    (hv : v.Sound W (m.store.define m.active name.lexeme v)) :
    (define name v).Safe W m fun _ s =>
      (s.binding? m.active name.lexeme).isSome ∧ s.frames.size = m.store.frames.size := by
  refine safe_modify (becomes_store hm ?_ (m.store.grows_define _ _ _)) ?_
  · exact hm.store.define hv hname.ne_this hname.ne_parent
  · simp [Store.binding?_define_same hactive]

theorem safe_write (hm : m.Sound W) {frame? : Option FrameId} {name : Token} {v : Value}
    (hname : name.IsName) (hv : v.Sound W m.store) :
    (write frame? name v).Safe W m fun _ _ => True := by
  refine Safe.bind (safe_require (P := fun _ _ => True) hm (fun _ _ => trivial) fun _ =>
    Halt.legit_fault (by simp [RuntimeFault.IsInternal]) (by simp)) ?_
  intro frame m' _ hbecomes _
  have hgrows := m'.store.grows_define frame name.lexeme v
  refine safe_modify (becomes_store hbecomes.sound ?_ hgrows) trivial
  exact hbecomes.sound.store.define ((hv.mono hbecomes.grows).mono hgrows) hname.ne_this
    hname.ne_parent

theorem safe_assign (hm : m.Sound W) {ref : Reference} {v : Value} (hname : ref.name.IsName)
    (hv : v.Sound W m.store) : (assign ref v).Safe W m fun _ _ => True := by
  refine Safe.get_bind ?_
  exact safe_write hm hname hv

theorem safe_newFrame (hm : m.Sound W) {b : Bindings} (hb : b.Sound W m.store) (f : FrameId) :
    (newFrame b f).Safe W m fun frame s =>
      frame = m.store.frames.size ∧ s = (m.store.addFrame b (some f)).2 :=
  ⟨becomes_store hm (hm.store.addFrame hb _) (m.store.grows_addFrame _ _), rfl, rfl⟩

theorem safe_newIdentity (hm : m.Sound W) : newIdentity.Safe W m fun _ s => s = m.store :=
  ⟨⟨⟨hm.store, hm.distances, hm.globals⟩, .refl _, rfl⟩, rfl⟩

theorem safe_print (hm : m.Sound W) (line : String) : (print line).Safe W m fun _ _ => True := by
  refine Safe.bind (P := fun _ _ => True) ⟨⟨⟨hm.store, hm.distances, hm.globals⟩, .refl _, rfl⟩, trivial⟩ ?_
  intro taken m' _ hbecomes _
  split
  · exact safe_throw hbecomes.sound trivial
  · exact .pure hbecomes.sound trivial

theorem safe_newClosure (hm : m.Sound W) (decl : FunctionDecl) (frame : FrameId)
    (isInitializer : Bool) :
    (newClosure decl frame isInitializer).Safe W m fun f s =>
      s = m.store ∧ f.decl = decl ∧ f.frame = frame ∧ f.isInitializer = isInitializer := by
  refine Safe.bind (safe_newIdentity hm) ?_
  intro identity m' _ hbecomes hs
  exact .pure hbecomes.sound ⟨hs, rfl, rfl, rfl⟩

/-- A method that is bound lies in a frame for its receiver. -/
theorem safe_bindMethod (hm : m.Sound W) {f : Closure} {i : Instance}
    (hf : f.SoundMethod W m.store) (hi : i.ofClass.Sound W m.store)
    (hmade : ∀ methods, f.decl ∈ methods → W.made m.store.frames.size (.receiver methods)) :
    (bindMethod f i).Safe W m fun g s => g.Sound W s ∧ g.decl = f.decl := by
  have hb : Bindings.Sound W m.store ((∅ : Bindings).insert "this" (.instanceRef i)) := by
    refine ⟨fun name v hv => ?_, fun v hv => ?_, fun v hv => ?_⟩
    · obtain ⟨-, rfl⟩ := Bindings.eq_of_single hv
      exact hi
    · exact ⟨i, by simpa [eq_comm] using hv⟩
    · simp at hv
  have hsize : f.frame < m.store.frames.size := by
    obtain ⟨_, _, _, _, _, _, _, _, _, _, _, _, _, hfits⟩ := hf
    exact hfits.lt_size hm.store.globals
  refine Safe.bind (safe_newFrame hm hb f.frame) ?_
  rintro frame m' - hbecomes ⟨rfl, hs⟩
  refine Safe.bind (safe_newIdentity hbecomes.sound) ?_
  rintro identity m'' - hbecomes' hs'
  refine .pure hbecomes'.sound ⟨?_, rfl⟩
  obtain ⟨p, hp, kind, ctx, methods, os, scope, scopes, hvisits, hkind, hdecl, hscopes, hscope,
    hfits⟩ := hf.mono (m.store.grows_addFrame ((∅ : Bindings).insert "this" (.instanceRef i))
      (some f.frame))
  refine ⟨p, hp, kind, ctx, _, hvisits, fun _ => hkind, ?_⟩
  rw [hscopes, hs', hs]
  refine .frame (hmade methods hdecl) (fun name hname _ => ?_)
    (Store.enclosing?_addFrame_self hsize) hfits
  rw [hscope name hname, Store.binding?_addFrame_self]
  simp

theorem safe_newInstance (hm : m.Sound W) {c : Class} (hc : c.Sound W m.store) :
    (newInstance c).Safe W m fun i s => i.ofClass = c ∧ i.ofClass.Sound W s :=
  ⟨becomes_store hm hm.store.addObject m.store.grows_addObject, rfl,
    hc.mono m.store.grows_addObject⟩

theorem safe_callHost (hm : m.Sound W) {host : Host} (hhost : host.AnswersNumbers) (f : Native)
    (paren : Token) (args : List Value) :
    (callHost host f paren args).Safe W m fun v s => v.Sound W s := by
  refine Safe.bind (P := fun _ _ => True)
    (safe_modifyGet ⟨⟨hm.store, hm.distances, hm.globals⟩, .refl _, rfl⟩ trivial) ?_
  intro turn m' _ hbecomes _
  cases hanswer : host.answer turn f args with
  | ok v =>
    obtain ⟨x, rfl⟩ := hhost turn f args v hanswer
    exact .pure hbecomes.sound trivial
  | error message =>
    exact safe_fail hbecomes.sound (Halt.legit_fault (by simp [RuntimeFault.IsInternal]) (by simp))

theorem safe_getProperty (hm : m.Sound W) {i : Instance} {name : Token}
    (hi : i.ofClass.Sound W m.store)
    (hmade : ∀ f, m.store.field? i.identity name.lexeme = none →
      i.ofClass.method? name.lexeme = some f →
      ∀ methods, f.decl ∈ methods → W.made m.store.frames.size (.receiver methods)) :
    (getProperty i name).Safe W m fun v s => v.Sound W s := by
  refine Safe.get_bind ?_
  cases hfield : m.store.field? i.identity name.lexeme with
  | some v => exact .pure hm (hm.store.fields _ _ v hfield)
  | none =>
    cases hmethod : i.ofClass.method? name.lexeme with
    | none => exact safe_fail hm (Halt.legit_fault (by simp [RuntimeFault.IsInternal]) (by simp))
    | some f =>
      refine Safe.bind (P := fun g s => g = f ∧ s = m.store) (.pure hm ⟨rfl, rfl⟩) ?_
      rintro _ _ ⟨⟩ - -
      refine Safe.bind (safe_bindMethod hm (hi.method hmethod) hi (hmade f hfield hmethod)) ?_
      intro g m' _ hbecomes hg
      exact .pure hbecomes.sound hg.1

theorem safe_setProperty (hm : m.Sound W) (i : Instance) (name : Token) {v : Value}
    (hv : v.Sound W m.store) : (setProperty i name v).Safe W m fun _ _ => True :=
  safe_modify (becomes_store hm (hm.store.setField hv) (m.store.grows_setField _ _ _)) trivial

/-- Where `parent` stands at a distance and `this` one frame nearer, a method of the parent can be
bound. -/
theorem safe_getParentMethod (hm : m.Sound W) {ref : Reference} {method : Token} {d : Nat}
    {c : Class} {i : Instance} (hd : m.distances[ref.id]? = some (d + 1))
    (hc : m.store.getAt? m.active (d + 1) "parent" = some (.classRef c))
    (hi : m.store.getAt? m.active d "this" = some (.instanceRef i))
    (hmade : ∀ f, c.method? method.lexeme = some f →
      ∀ methods, f.decl ∈ methods → W.made m.store.frames.size (.receiver methods)) :
    (getParentMethod ref method).Safe W m fun v s => v.Sound W s := by
  have hcSound : c.Sound W m.store := by
    obtain ⟨frame, -, hc⟩ := Option.bind_eq_some_iff.mp hc
    exact hm.store.values frame _ _ hc
  have hiSound : i.ofClass.Sound W m.store := by
    obtain ⟨frame, -, hi⟩ := Option.bind_eq_some_iff.mp hi
    exact hm.store.values frame _ _ hi
  refine Safe.get_bind ?_
  refine Safe.bind (P := fun _ _ => True) (by rw [hd]; exact .pure hm trivial) ?_
  intro d' m' hrun _ _
  rw [hd] at hrun
  cases hrun
  rw [hc]
  dsimp only
  rw [hi]
  dsimp only
  cases hmethod : c.method? method.lexeme with
  | none => exact safe_fail hm (Halt.legit_fault (by simp [RuntimeFault.IsInternal]) (by simp))
  | some f =>
    refine Safe.bind (P := fun g s => g = f ∧ s = m.store) (.pure hm ⟨rfl, rfl⟩) ?_
    rintro _ _ ⟨⟩ - -
    refine Safe.bind (safe_bindMethod hm (hcSound.method hmethod) hiSound (hmade f hmethod)) ?_
    intro g m' _ hbecomes hg
    exact .pure hbecomes.sound hg.1

theorem safe_newMethods (hm : m.Sound W) (frame : FrameId) (decls : List FunctionDecl) :
    (newMethods frame decls).Safe W m fun fs s =>
      s = m.store ∧ ∀ f ∈ fs, f.decl ∈ decls ∧ f.frame = frame := by
  induction decls generalizing m with
  | nil => exact .pure hm ⟨rfl, by simp⟩
  | cons decl rest ih =>
    refine Safe.bind (safe_newClosure hm decl frame _) ?_
    rintro f m' - hbecomes ⟨hs, hdecl, hframe, -⟩
    refine Safe.bind (ih hbecomes.sound) ?_
    rintro fs m'' - hbecomes' ⟨hs', hfs⟩
    refine .pure hbecomes'.sound ⟨hs'.trans hs, fun g hg => ?_⟩
    obtain rfl | hg := List.mem_cons.mp hg
    · exact ⟨hdecl ▸ List.mem_cons_self, hframe⟩
    · exact ⟨List.mem_cons_of_mem _ (hfs g hg).1, (hfs g hg).2⟩

/-- The frame for the methods of a class. -/
theorem safe_methodFrame (hm : m.Sound W) {parent : Option Class} {frame : FrameId}
    (hparent : ∀ c ∈ parent, c.Sound W m.store) :
    (methodFrame parent frame).Safe W m fun f s =>
      (parent = none ∧ f = frame ∧ s = m.store) ∨
        ∃ c, parent = some c ∧ f = m.store.frames.size ∧
          s = (m.store.addFrame ((∅ : Bindings).insert "parent" (.classRef c)) (some frame)).2 := by
  cases parent with
  | none => exact .pure hm (.inl ⟨rfl, rfl, rfl⟩)
  | some c =>
    have hb : Bindings.Sound W m.store ((∅ : Bindings).insert "parent" (.classRef c)) := by
      refine ⟨fun name v hv => ?_, fun v hv => ?_, fun v hv => ?_⟩
      · obtain ⟨-, rfl⟩ := Bindings.eq_of_single hv
        exact hparent c rfl
      · simp at hv
      · exact ⟨c, by simpa [eq_comm] using hv⟩
    refine (safe_newFrame hm hb frame).mono ?_
    rintro f m' - ⟨rfl, hs⟩
    exact .inr ⟨c, rfl, rfl, hs⟩

theorem safe_parentClass (hm : m.Sound W) {parent : Option Reference}
    (hparent : ∀ ref ∈ parent, ref.name.terminal ≠ .keyword .parentWord) :
    (parentClass parent).Safe W m fun found s =>
      s = m.store ∧ (parent = none → found = none) ∧ ∀ ref ∈ parent, ∃ c,
        found = some c ∧ c.Sound W s ∧ m.value? ref = some (.classRef c) := by
  cases parent with
  | none => exact .pure hm ⟨rfl, fun _ => rfl, by simp⟩
  | some ref =>
    refine Safe.bind (safe_lookUp hm ref) ?_
    rintro v m' - hbecomes ⟨hs, hv, hvalue⟩
    cases v with
    | classRef c =>
      refine .pure hbecomes.sound ⟨hs, nofun, ?_⟩
      rintro _ ⟨⟩
      exact ⟨c, rfl, hv, hvalue⟩
    | _ => exact safe_fail hbecomes.sound ⟨by simp [RuntimeFault.IsInternal], fun _ => hparent ref rfl⟩

end Action

/-- The scopes around a class and the one for its parent. -/
def Context.withParent (ctx : Context) : Option Reference → List Scope
  | none => ctx.scopes
  | some _ => (ctx.bind "parent").scopes

/-- What the scope for the parent of a class was opened for, and the ones around it. -/
def Opening.withParent (os : List Opening) (methods : List FunctionDecl) :
    Option Reference → List Opening
  | none => os
  | some ref => .parent ref methods :: os

/-- The methods of a class that is being declared are sound, if the frame for them fits the scopes
around them. -/
theorem Visits.soundMethod {W : World} {s : Store} {p : Program} {name : Token}
    {parent : Option Reference} {methods : List FunctionDecl} {ctx : Context} {os : List Opening}
    (hp : p ∈ W.programs) (hvisits : Visits p (.statement (.classDecl name parent methods)) ctx os)
    {f : Closure} (hdecl : f.decl ∈ methods)
    (hfits : Fits W s none f.frame ((ctx.define name.lexeme).withParent parent)
      (Opening.withParent os methods parent)) :
    f.SoundMethod W s := by
  have hkind : FunctionContext.ofMethod f.decl.name ≠ .function := by
    unfold FunctionContext.ofMethod
    split <;> simp
  cases parent with
  | none =>
    exact ⟨p, hp, _, _, methods, os, _, _, .method hvisits hdecl, hkind, hdecl, rfl,
      fun _ => eq_of_contains_single, hfits⟩
  | some ref =>
    exact ⟨p, hp, _, _, methods, _, _, _, .inheritingMethod hvisits hdecl, hkind, hdecl, rfl,
      fun _ => eq_of_contains_single, hfits⟩

/-- The frame for the methods of a class fits the scopes around them. -/
theorem Fits.methodFrame {W : World} {s s' : Store} {parent : Option Reference}
    {methods : List FunctionDecl} {ctx : Context} {os : List Opening} {active frame : FrameId}
    {found : Option Class} (hfits : Fits W s none active ctx.scopes os)
    (hactive : active < s.frames.size) (hnone : parent = none → found = none)
    (hsome : ∀ ref ∈ parent, ∃ c, found = some c)
    (hmade : ∀ ref ∈ parent, W.made s.frames.size (.parent ref methods))
    (hframe : (found = none ∧ frame = active ∧ s' = s) ∨
      ∃ c, found = some c ∧ frame = s.frames.size ∧
        s' = (s.addFrame ((∅ : Bindings).insert "parent" (.classRef c)) (some active)).2) :
    Fits W s' none frame (ctx.withParent parent) (Opening.withParent os methods parent) := by
  cases parent with
  | none =>
    obtain ⟨-, rfl, rfl⟩ | ⟨c, hc, -⟩ := hframe
    · exact hfits
    · rw [hnone rfl] at hc
      cases hc
  | some ref =>
    obtain ⟨c, rfl⟩ := hsome ref rfl
    obtain ⟨hc, -⟩ | ⟨c', -, rfl, rfl⟩ := hframe
    · cases hc
    · refine .frame (hmade ref rfl) (fun other hother _ => ?_)
        (Store.enclosing?_addFrame_self hactive) (hfits.mono (s.grows_addFrame _ _))
      rw [Store.binding?_addFrame_self]
      simp [eq_of_contains_single hother]

/-- A class that is declared lies in frames that fit the scopes around its declaration. -/
theorem Action.safe_declareClass {W : World} {m : Machine} (hm : m.Sound W) {p : Program}
    {name : Token} {parent : Option Reference} {methods : List FunctionDecl} {ctx : Context}
    {os : List Opening} (hp : p ∈ W.programs)
    (hvisits : Visits p (.statement (.classDecl name parent methods)) ctx os)
    (hfits : Fits W m.store none m.active ctx.scopes os) (hname : name.IsName)
    (hparent : ∀ ref ∈ parent, ref.name.terminal ≠ .keyword .parentWord)
    (hmade : ∀ ref ∈ parent, ∀ c, m.value? ref = some (.classRef c) →
      W.made m.store.frames.size (.parent ref methods)) :
    (declareClass name parent methods).Safe W m fun _ s =>
      (s.binding? m.active name.lexeme).isSome := by
  have hactive := hfits.lt_size hm.store.globals
  unfold declareClass
  refine Safe.bind (safe_parentClass hm hparent) ?_
  rintro found m₁ - hbecomes₁ ⟨hs₁, hnone, hfound⟩
  have hsound : ∀ c ∈ found, c.Sound W m₁.store := by
    intro c hc
    cases parent with
    | none => simp [hnone rfl] at hc
    | some ref =>
      obtain ⟨c', rfl, hc', -⟩ := hfound ref rfl
      cases hc
      exact hc'
  have hactive₁ : m₁.active < m₁.store.frames.size := by rwa [hbecomes₁.active, hs₁]
  -- the name is bound before there are any methods
  refine Safe.bind (safe_define (v := .null) hbecomes₁.sound hname hactive₁ trivial) ?_
  rintro - m₂ - hbecomes₂ ⟨hbound, hsize⟩
  have hactive₂ : m₂.active = m.active := hbecomes₂.active.trans hbecomes₁.active
  have hbound₂ : (m₂.store.binding? m.active name.lexeme).isSome := by rwa [hbecomes₁.active] at hbound
  have hfits₂ : Fits W m₂.store none m₂.active (ctx.define name.lexeme).scopes os := by
    rw [hactive₂]
    exact (hfits.mono (hbecomes₁.grows.trans hbecomes₂.grows)).define (.inl rfl) hbound₂
  refine Safe.get_bind ?_
  refine Safe.bind (safe_methodFrame hbecomes₂.sound fun c hc =>
    (hsound c hc).mono hbecomes₂.grows) ?_
  rintro frame m₃ - hbecomes₃ hframe
  have hfits₃ := hfits₂.methodFrame (hfits₂.lt_size hbecomes₂.sound.store.globals) hnone
    (fun ref href => (hfound ref href).imp fun _ hc => hc.1) (fun ref href => by
      obtain ⟨c, -, -, hvalue⟩ := hfound ref href
      rw [hsize, hs₁]
      exact hmade ref href c hvalue) hframe
  refine Safe.bind (safe_newMethods hbecomes₃.sound frame methods) ?_
  rintro own m₄ - hbecomes₄ ⟨hs₄, hown⟩
  refine Safe.bind (safe_newIdentity hbecomes₄.sound) ?_
  rintro identity m₅ - hbecomes₅ hs₅
  refine Safe.get_bind ?_
  have hgrows := (hbecomes₂.grows.trans hbecomes₃.grows).trans (hbecomes₄.grows.trans hbecomes₅.grows)
  have hclass : (Value.classRef (.extend found ⟨identity, name.lexeme, own⟩)).Sound W m₅.store := by
    refine Class.Sound.extend (fun f hf => ?_) fun c hc => (hsound c hc).mono hgrows
    obtain ⟨hdecl, rfl⟩ := hown f hf
    rw [hs₅, hs₄]
    exact hvisits.soundMethod hp hdecl hfits₃
  refine (safe_write hbecomes₅.sound hname hclass).mono ?_
  intro _ m₆ hbecomes₆ _
  exact (hbecomes₃.grows.trans (hbecomes₄.grows.trans (hbecomes₅.grows.trans hbecomes₆.grows))).bound
    _ _ hbound₂

end Treewalk
