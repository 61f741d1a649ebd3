import Mathlib.Data.Set.Insert
import Treewalk.Proofs.Evaluation.Lawful

/-! The names in the global frame. A task that declares nothing in the global frame binds no new name
there, whatever it begins; a statement that is run in the global frame adds the names that it declares,
once it is completed. -/

namespace Treewalk

open Treewalk.Action

/-- The names that a frame binds. -/
def Store.names (s : Store) (f : FrameId) : Set String := {name | (s.binding? f name).isSome}

namespace Store

variable {s : Store} {f : FrameId} {name : String} {v : Value}

theorem names_define (hf : f < s.frames.size) : (s.define f name v).names f = s.names f ∪ {name} := by
  ext other
  by_cases heq : name = other
  · subst heq
    simp [names, binding?_define, hf]
  · simp [names, binding?_define, heq, Ne.symm heq]

theorem names_define_of_mem (hname : name ∈ s.names f) : (s.define f name v).names f = s.names f := by
  obtain ⟨w, hw⟩ := Option.isSome_iff_exists.mp hname
  rw [names_define (lt_size_of_binding? hw), Set.union_eq_left, Set.singleton_subset_iff]
  exact hname

theorem names_addFrame {b : Bindings} {around : Option FrameId} (hf : f < s.frames.size) :
    (s.addFrame b around).2.names f = s.names f := by
  ext name
  simp only [names, Set.mem_ofPred_eq, binding?_addFrame_of_lt hf]

end Store

namespace Task

/-- A task is done inside another one if the other one begins it, directly or through others. -/
def Inside (host : Host) : Nat → Task → Machine → Nat → Task → Machine → Prop
  | 0, _, _, _, _, _ => False
  | n + 1, t, m, k, t', m' => ∃ t₁ m₁, Starts host n t m t₁ m₁ ∧ Reaches host n t₁ m₁ k t' m'

/-- A task that declares nothing in the frame that is active when it is begun. -/
def Quiet : Task → Prop
  | statement s => s.declared? = none ∧ s.Spelled Token.IsName
  | statements _ => False
  | loop _ body => body.declared? = none ∧ body.Spelled Token.IsName
  | _ => True

/-- A task that declares nothing in the global frame: another frame is active, or the task is quiet. -/
def Local (W : World) (m : Machine) (t : Task) : Prop := m.active ≠ W.globals ∨ t.Quiet

/-- A task may be done within a depth. -/
structure Ready (W : World) (host : Host) (n : Nat) (t : Task) (m : Machine) : Prop where
  sound : m.Sound W
  fitting : t.Fitting W m
  covered : t.Covered W host n m

variable {W : World} {host : Host} {n k : Nat} {t t' : Task} {m m' : Machine} {s : Stmt}

/-- What a quiet task begins is quiet, unless it is in a frame of its own. -/
theorem Starts.quiet (hstart : Starts host n t m t' m') (ht : t.Quiet) (henters : ¬t.Enters) :
    t'.Quiet := by
  cases hstart with
  | block | body => exact absurd trivial henters
  | @whenTrue _ _ other =>
    cases other with
    | none => exact ⟨ht.2.2.2, ht.2.2.1⟩
    | some other => exact ⟨ht.2.2.1.2, ht.2.2.1.1⟩
  | whenFalse => exact ⟨ht.2.2.2.2, ht.2.2.2.1⟩
  | loop => exact ⟨ht.2.2.2, ht.2.2.1⟩
  | first | rest => exact ht.elim
  | loopBody | again => exact ht
  | _ => trivial

/-- What a local task begins is local: a frame of its own is a new one. -/
theorem Starts.local (hstart : Starts host n t m t' m') (hglobals : W.globals < m.store.frames.size)
    (ht : t.Local W m) : t'.Local W m' := by
  obtain ⟨-, -, ⟨henters, hsame⟩ | ⟨-, hnew⟩⟩ := hstart.finds
  · obtain hactive | ht := ht
    · exact .inl (hsame ▸ hactive)
    · exact .inr (hstart.quiet ht henters)
  · exact .inl (hnew ▸ Nat.ne_of_gt hglobals)

/-- A statement that declares nothing is local, wherever it is run. -/
theorem Ready.local_of_undeclared (h : (statement s).Ready W host n m) (hW : W.Accepted)
    (hdeclared : s.declared? = none) : (statement s).Local W m := by
  obtain ⟨p, hp, ctx, os, hvisits, -⟩ := h.fitting
  exact .inr ⟨hdeclared, hvisits.spelled (hW.spelled p hp)⟩

theorem not_mem_names_of_quiet {name : String} (ht : (statement s).Quiet) : name ∉ Stmt.names [s] := by
  simp [Stmt.names, ht.1]

section
variable (hW : W.Accepted) (hhost : host.AnswersNumbers)
include hW hhost

/-- What may be done begins only what may be done. -/
theorem Ready.starts (h : t.Ready W host (n + 1) m) (hstart : Starts host n t m t' m') :
    t'.Ready W host n m' := by
  obtain ⟨hm, ht⟩ := hstart.fitting hW h.sound h.fitting (h.covered _ _ _ .self)
    fun t₁ m₁ hstart hm₁ ht₁ => safe hW hhost _ t₁ m₁ hm₁ ht₁ (h.covered.starts hstart)
  exact ⟨hm, ht, h.covered.starts hstart⟩

theorem Ready.reaches (h : t.Ready W host n m) (hreaches : Reaches host n t m k t' m') :
    t'.Ready W host k m' := by
  induction hreaches with
  | self => exact h
  | step hstart _ ih => exact ih (h.starts hW hhost hstart)

theorem Local.reaches (hlocal : t.Local W m) (h : t.Ready W host n m)
    (hreaches : Reaches host n t m k t' m') : t'.Local W m' := by
  induction hreaches with
  | self => exact hlocal
  | step hstart _ ih =>
    exact ih (hstart.local h.sound.store.globals hlocal) (h.starts hW hhost hstart)

variable (hfree : ∀ o, ¬W.made W.globals o)
include hfree

/-- At every stage of a local task, the global frame binds the names that it bound at the start. -/
theorem Local.names_stage (hlocal : t.Local W m) (h : t.Ready W host n m) {cs : List Change}
    (hcs : m.store.Told ((t.action host n).storeAfter m) (Doings host n t m) (Views host n t m) cs)
    (i : Nat) : (m.store.stage cs i).names W.globals = m.store.names W.globals := by
  refine Store.stage_induction (motive := fun s => s.names W.globals = m.store.names W.globals) rfl ?_ i
  intro i c hc ih
  rw [← ih]
  obtain ⟨k, t', m', hreaches, hdoes, hgrows⟩ := hcs.allowed.at_stage hc
  have hready := h.reaches hW hhost hreaches
  ext name
  show ((Store.apply _ c).binding? W.globals name).isSome ↔ (Store.binding? _ W.globals name).isSome
  obtain hsame | ⟨v, rfl, -⟩ | ⟨names, b, p, rfl, hnew, -⟩ :=
    Store.binding?_apply (m.store.stage cs i) c W.globals name
  · rw [hsame]
  · -- a name that is written to in the global frame is bound there already
    refine ⟨fun _ => ?_, (Store.grows_apply _ _).bound _ _⟩
    obtain ⟨-, -, ⟨o, hmade, -⟩ | ⟨-, hbound | ⟨s, rfl, hname, hactive⟩⟩⟩ :=
      hdoes.places hW hready.sound hready.fitting
    · exact absurd hmade (hfree o)
    · exact hgrows.bound _ _ hbound
    · obtain hne | hquiet := hlocal.reaches hW hhost h hreaches
      · exact absurd hactive hne
      · exact absurd hname (not_mem_names_of_quiet hquiet)
  · have hlt := Nat.lt_of_lt_of_le h.sound.store.globals (m.store.size_le_stage cs i)
    exact absurd hnew (Nat.ne_of_lt hlt)

/-- When a local task ends, however it ends, the global frame binds the names that it bound before. -/
theorem Local.names_end (hlocal : t.Local W m) (h : t.Ready W host n m) :
    ((t.action host n).storeAfter m).names W.globals = m.store.names W.globals := by
  obtain ⟨cs, hcs⟩ := story host n t m
  rw [hcs.ends, ← Store.stage_length]
  exact hlocal.names_stage hW hhost hfree h hcs _

/-- The same holds at every moment within it. -/
theorem Local.names_reached (hlocal : t.Local W m) (h : t.Ready W host n m)
    (hreaches : Reaches host n t m k t' m') :
    m'.store.names W.globals = m.store.names W.globals := by
  obtain ⟨cs, hcs⟩ := story host n t m
  obtain ⟨i, -, hstage, -⟩ := hcs.seen_at ⟨k, t', m', hreaches, .here⟩
  rw [hstage]
  exact hlocal.names_stage hW hhost hfree h hcs i

/-- Whatever is done inside a statement that is run in the global frame, no name is added to the global
frame by it, nor was one added before it in the statement. -/
theorem names_inside (h : (statement s).Ready W host n m)
    (hinside : Inside host n (.statement s) m k t' m') :
    m'.store.names W.globals = m.store.names W.globals ∧
      ((t'.action host k).storeAfter m').names W.globals = m.store.names W.globals := by
  cases n with
  | zero => exact hinside.elim
  | succ n =>
    obtain ⟨t₁, m₁, hstart, hreaches⟩ := hinside
    have h₁ := h.starts hW hhost hstart
    have hfirst : t₁.Local W m₁ ∧ m₁.store.names W.globals = m.store.names W.globals := by
      cases hdeclared : s.declared? with
      | none =>
        have hlocal := h.local_of_undeclared hW hdeclared
        exact ⟨hstart.local h.sound.store.globals hlocal,
          hlocal.names_reached hW hhost hfree h (.step hstart .self)⟩
      | some name =>
        -- a declaration begins nothing but an expression, and that first of all
        cases hstart with
        | initial | heritage => exact ⟨.inr trivial, rfl⟩
        | _ => cases hdeclared
    have hkept := (hfirst.1.names_reached hW hhost hfree h₁ hreaches).trans hfirst.2
    have hlocal := hfirst.1.reaches hW hhost h₁ hreaches
    exact ⟨hkept, (hlocal.names_end hW hhost hfree (h₁.reaches hW hhost hreaches)).trans hkept⟩

end

end Task

namespace Action

variable {α β : Type} {x : Action α} {g : α → Action β} {m m' : Machine} {f : FrameId}
  {N : Set String} {name : Token} {v : Value}

/-- Once the action is completed, the frame binds the names `N` besides those from before; if the action
halts, it binds those from before. -/
def Brings (x : Action α) (m : Machine) (f : FrameId) (N : Set String) : Prop :=
  match x m with
  | .ok _ m' => m'.store.names f = m.store.names f ∪ N
  | .error _ m' => m'.store.names f = m.store.names f

/-- The action is completed, and the frame binds the names from before. -/
def Finishes (x : Action α) (m : Machine) (f : FrameId) : Prop :=
  ∃ a m', x m = .ok a m' ∧ m'.store.names f = m.store.names f

theorem Brings.of_kept (h : (x.storeAfter m).names f = m.store.names f) : x.Brings m f ∅ := by
  unfold Brings
  unfold storeAfter at h
  cases hrun : x m with
  | ok a m' =>
    rw [hrun] at h
    exact h.trans (Set.union_empty _).symm
  | error halt m' =>
    rw [hrun] at h
    exact h

/-- What comes first brings nothing. -/
theorem Brings.after (h : (x.storeAfter m).names f = m.store.names f)
    (hg : ∀ a m', x m = .ok a m' → (g a).Brings m' f N) : (x >>= g).Brings m f N := by
  unfold Brings
  cases hrun : x m with
  | error halt m' =>
    rw [bind_of_error hrun]
    rwa [storeAfter_of_error hrun] at h
  | ok a m' =>
    rw [bind_of_ok hrun]
    rw [storeAfter_of_ok hrun] at h
    have hrest := hg a m' hrun
    rwa [Brings, h] at hrest

/-- What comes last is completed and brings nothing. -/
theorem Brings.bind (h : x.Brings m f N) (hg : ∀ a m', x m = .ok a m' → (g a).Finishes m' f) :
    (x >>= g).Brings m f N := by
  unfold Brings at h ⊢
  cases hrun : x m with
  | error halt m' =>
    rw [hrun] at h
    rwa [bind_of_error hrun]
  | ok a m' =>
    rw [hrun] at h
    obtain ⟨b, m'', hg, hnames⟩ := hg a m' hrun
    rw [bind_of_ok hrun, hg]
    exact hnames.trans h

theorem Finishes.bind (h : x.Finishes m f)
    (hg : ∀ a m', x m = .ok a m' → m'.store.names f = m.store.names f → (g a).Finishes m' f) :
    (x >>= g).Finishes m f := by
  obtain ⟨a, m', hrun, hnames⟩ := h
  obtain ⟨b, m'', hrest, hnames'⟩ := hg a m' hrun hnames
  exact ⟨b, m'', by rw [bind_of_ok hrun, hrest], hnames'.trans hnames⟩

theorem Finishes.pure (a : α) : (pure a : Action α).Finishes m f := ⟨a, m, rfl, rfl⟩

theorem brings_define (hf : m.active < m.store.frames.size) :
    (define name v).Brings m m.active {name.lexeme} :=
  Store.names_define hf

theorem finishes_newMethods (frame : FrameId) (decls : List FunctionDecl) :
    (newMethods frame decls).Finishes m f := by
  induction decls generalizing m with
  | nil => exact .pure _
  | cons decl rest ih =>
    have hclosure : (newClosure decl frame (decl.name.lexeme == initializerName)).Finishes m f :=
      ⟨_, _, rfl, rfl⟩
    exact hclosure.bind fun _ _ _ _ => ih.bind fun _ _ _ _ => .pure _

theorem finishes_methodFrame (parent : Option Class) (frame : FrameId)
    (hf : f < m.store.frames.size) : (methodFrame parent frame).Finishes m f := by
  cases parent with
  | none => exact .pure _
  | some c => exact ⟨_, _, rfl, Store.names_addFrame hf⟩

/-- A name that the frame binds is written to. -/
theorem finishes_write (hname : name.lexeme ∈ m.store.names f) :
    (write (m.store.holder? f name.lexeme) name v).Finishes m f := by
  rw [Store.holder?_of_bound hname]
  exact ⟨_, _, rfl, Store.names_define_of_mem hname⟩

/-- The declaration of a class brings its name, unless there is no class that it could have for a
parent. -/
theorem brings_declareClass (parent : Option Reference) (methods : List FunctionDecl)
    (hf : m.active < m.store.frames.size) :
    (declareClass name parent methods).Brings m m.active {name.lexeme} := by
  refine Brings.after ?_ fun found m₁ hparent => ?_
  · rw [still_parentClass parent m]
  · obtain ⟨rfl, -⟩ := Task.parentClass_eq_ok.mp hparent
    refine (brings_define hf).bind fun _ m₂ hdefine => ?_
    cases hdefine
    have hname : name.lexeme ∈ (m₁.store.define m₁.active name.lexeme .null).names m₁.active := by
      rw [Store.names_define hf]
      exact .inr rfl
    have hframe : (methodFrame found m₁.active).Finishes
        { m₁ with store := m₁.store.define m₁.active name.lexeme .null } m₁.active :=
      finishes_methodFrame found m₁.active (by simpa using hf)
    refine Finishes.bind ⟨_, _, rfl, rfl⟩ fun _ _ hget _ => ?_
    cases hget
    refine hframe.bind fun frame m₃ _ h₃ => (finishes_newMethods frame methods).bind
      fun closures m₄ _ h₄ => Finishes.bind ⟨_, _, rfl, rfl⟩ fun identity m₅ _ h₅ =>
        Finishes.bind ⟨_, _, rfl, rfl⟩ fun _ _ hget _ => ?_
    cases hget
    exact finishes_write (by rwa [h₅, h₄, h₃])

end Action

namespace Task

variable {W : World} {host : Host} {n : Nat} {m : Machine} {s : Stmt}

theorem brings_function (decl : FunctionDecl) (hlt : m.active < m.store.frames.size) :
    (execute host (n + 1) (.function decl)).Brings m m.active {decl.name.lexeme} := by
  rw [execute]
  refine .after rfl fun _ _ hget => ?_
  cases hget
  refine .after (by rw [still_newClosure]) fun f m' hrun => ?_
  cases hrun
  exact Brings.bind (g := fun _ => pure Completion.normal) (brings_define hlt) fun _ _ _ => .pure _

section
variable (hW : W.Accepted) (hhost : host.AnswersNumbers) (hfree : ∀ o, ¬W.made W.globals o)
include hW hhost hfree

/-- The initial value of a variable brings no name, and leaves the global frame the active one. -/
theorem brings_var {x : Token} {initial : Option Expr}
    (h : (statement (.var x initial)).Ready W host (n + 1) m) (hactive : m.active = W.globals) :
    (execute host (n + 1) (.var x initial)).Brings m W.globals {x.lexeme} := by
  have hlt : m.active < m.store.frames.size := hactive ▸ h.sound.store.globals
  cases initial with
  | none =>
    rw [execute, ← hactive]
    exact (brings_define hlt).bind fun _ _ _ => .pure _
  | some e =>
    rw [execute]
    have hlocal : (expression e).Local W m := .inr trivial
    have he := h.starts hW hhost .initial
    have hends := hlocal.names_end hW hhost hfree he
    dsimp only [action] at hends
    refine .after hends fun v m' hrun => ?_
    have hactive' : m'.active = W.globals :=
      (((evaluatesSteadily host n).expression e).of_ok hrun).active.trans hactive
    have hgrows : m.store.Grows m'.store := by
      have hstory := Action.Story.grows (story host n (.expression e) m)
      rwa [show ((expression e).action host n).storeAfter m = m'.store from storeAfter_of_ok hrun]
        at hstory
    have hlt' : m'.active < m'.store.frames.size := by
      rw [hactive', ← hactive]
      exact Nat.lt_of_lt_of_le hlt hgrows.size
    rw [← hactive']
    exact (brings_define hlt').bind fun _ _ _ => .pure _

/-- A statement that is run in the global frame brings the names that it declares. -/
theorem brings_execute (h : (statement s).Ready W host n m) (hactive : m.active = W.globals) :
    (execute host n s).Brings m W.globals {name | name ∈ Stmt.names [s]} := by
  have hlt : m.active < m.store.frames.size := hactive ▸ h.sound.store.globals
  cases hdeclared : s.declared? with
  | none =>
    have hlocal := h.local_of_undeclared hW hdeclared
    have hnone : {name | name ∈ Stmt.names [s]} = (∅ : Set String) := by
      simp [Stmt.names, hdeclared]
    have hends := hlocal.names_end hW hhost hfree h
    dsimp only [action] at hends
    rw [hnone]
    exact .of_kept hends
  | some name =>
    have hsingle : {name | name ∈ Stmt.names [s]} = ({name.lexeme} : Set String) := by
      simp [Stmt.names, hdeclared]
    rw [hsingle]
    cases n with
    | zero =>
      rw [execute]
      exact rfl
    | succ n =>
      cases s with
      | var x initial =>
        cases hdeclared
        exact brings_var hW hhost hfree h hactive
      | function decl =>
        cases hdeclared
        exact hactive ▸ brings_function decl hlt
      | classDecl x parent methods =>
        cases hdeclared
        rw [execute, ← hactive]
        exact (brings_declareClass parent methods hlt).bind fun _ _ _ => .pure _
      | _ => cases hdeclared

end

end Task

end Treewalk
