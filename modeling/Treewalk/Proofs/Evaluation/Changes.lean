import Treewalk.Proofs.Evaluation.Frames
import Treewalk.Proofs.Evaluation.Moments
import Treewalk.Proofs.Run

/-! Changes of stores. Whatever is evaluated, the store goes through single changes, one after the
other: a name is bound, a frame is made, an object is made, a field is written to. A story of an action
lists its changes, says of each one that it is allowed, and has in it whatever must be seen on the
way. -/

namespace Treewalk

/-- A change of a store. A frame is made for a scope that has no other names than `names`. -/
inductive Change
  | bind (f : FrameId) (name : String) (v : Value)
  | make (names : List String) (bindings : Bindings) (around : FrameId)
  | object
  | field (object : Identity) (name : String) (v : Value)

namespace Store

/-- The store after one change. -/
def apply (s : Store) : Change → Store
  | .bind f name v => s.define f name v
  | .make _ bindings around => (s.addFrame bindings (some around)).2
  | .object => s.addObject.2
  | .field object name v => s.setField object name v

/-- The store after changes, one after the other. -/
def after (s : Store) (cs : List Change) : Store := cs.foldl apply s

/-- Each change is allowed for the store that it is made to. -/
def Undergoes (D : Store → Change → Prop) : Store → List Change → Prop
  | _, [] => True
  | s, c :: rest => D s c ∧ (s.apply c).Undergoes D rest

variable {s : Store} {c : Change} {cs later : List Change} {D D' : Store → Change → Prop}
  {f : FrameId}

@[simp] theorem after_nil : s.after [] = s := rfl

@[simp] theorem after_cons : s.after (c :: cs) = (s.apply c).after cs := rfl

@[simp] theorem after_append : s.after (cs ++ later) = (s.after cs).after later :=
  List.foldl_append

theorem grows_apply (s : Store) (c : Change) : s.Grows (s.apply c) := by
  cases c with
  | bind f name v => exact s.grows_define f name v
  | make names bindings around => exact s.grows_addFrame bindings (some around)
  | object => exact s.grows_addObject
  | field object name v => exact s.grows_setField object name v

/-- A frame that is there after a change was there before, or the change made it. -/
theorem old_or_made (h : f < (s.apply c).frames.size) :
    f < s.frames.size ∨ ∃ names b p, c = .make names b p ∧ f = s.frames.size := by
  cases c with
  | bind g name v => exact .inl (by rwa [apply, size_define] at h)
  | make names b p =>
    have hsize : (s.apply (.make names b p)).frames.size = s.frames.size + 1 := by
      simp [apply, addFrame]
    obtain hlt | heq := Nat.lt_succ_iff_lt_or_eq.mp (hsize ▸ h)
    · exact .inl hlt
    · exact .inr ⟨names, b, p, rfl, heq⟩
  | object => exact .inl h
  | field => exact .inl h

theorem lt_size_make (s : Store) (names : List String) (b : Bindings) (p : FrameId) :
    s.frames.size < (s.apply (.make names b p)).frames.size := by
  simp [apply, addFrame]

/-- What a frame binds after a change it bound before, unless the change bound the name there or made
the frame with it. -/
theorem binding?_apply (s : Store) (c : Change) (f : FrameId) (other : String) :
    (s.apply c).binding? f other = s.binding? f other ∨
      (∃ v, c = .bind f other v ∧ f < s.frames.size) ∨
      ∃ names b p, c = .make names b p ∧ f = s.frames.size ∧
        (s.apply c).binding? f other = b[other]? := by
  cases c with
  | bind g name v =>
    rw [apply, binding?_define]
    split
    · next h =>
      obtain ⟨rfl, rfl, hlt⟩ := h
      exact .inr (.inl ⟨v, rfl, hlt⟩)
    · exact .inl rfl
  | make names b p =>
    by_cases hf : f = s.frames.size
    · subst hf
      exact .inr (.inr ⟨names, b, p, rfl, rfl, binding?_addFrame_self⟩)
    · exact .inl (by simp [apply, addFrame, binding?, Array.getElem?_push, hf])
  | object => exact .inl rfl
  | field => exact .inl rfl

theorem grows_after (s : Store) (cs : List Change) : s.Grows (s.after cs) := by
  induction cs generalizing s with
  | nil => exact .refl s
  | cons c rest ih => exact (s.grows_apply c).trans (ih (s.apply c))

theorem undergoes_append :
    s.Undergoes D (cs ++ later) ↔ s.Undergoes D cs ∧ (s.after cs).Undergoes D later := by
  induction cs generalizing s with
  | nil => simp [Undergoes]
  | cons c rest ih => simp [Undergoes, ih, and_assoc]

theorem Undergoes.mono (h : s.Undergoes D cs) (hD : ∀ s c, D s c → D' s c) :
    s.Undergoes D' cs := by
  induction cs generalizing s with
  | nil => trivial
  | cons c rest ih => exact ⟨hD _ _ h.1, ih h.2⟩

end Store

/-- What is to be seen while a store changes: that it is in some state, or the next change in it. -/
abbrev Sights := Store → Option Change → Prop

/-- There is nothing to be seen. -/
def Unseen : Sights := fun _ _ => False

/-- Changes that lead from one store to another one: each is allowed by `D`, and whatever `P` has is
seen among them. -/
structure Store.Told (s s' : Store) (D : Store → Change → Prop) (P : Sights) (cs : List Change) :
    Prop where
  ends : s' = s.after cs
  allowed : s.Undergoes D cs
  seen : ∀ r c?, P r c? → ∃ earlier, earlier ++ c?.toList <+: cs ∧ r = s.after earlier

namespace Store.Told

variable {s s' s'' : Store} {D D' : Store → Change → Prop} {P P' : Sights} {cs later : List Change}

theorem allow (h : s.Told s' D P cs) (hD : ∀ s c, D s c → D' s c) : s.Told s' D' P cs :=
  ⟨h.ends, h.allowed.mono hD, h.seen⟩

theorem weaken (h : s.Told s' D P cs) (hP : ∀ r c?, P' r c? → P r c?) : s.Told s' D P' cs :=
  ⟨h.ends, h.allowed, fun r c? hr => h.seen r c? (hP r c? hr)⟩

/-- The store at the start is always seen. -/
theorem start (h : s.Told s' D P cs) (hP : ∀ r c?, P' r c? → P r c? ∨ r = s ∧ c? = none) :
    s.Told s' D P' cs := by
  refine ⟨h.ends, h.allowed, fun r c? hr => ?_⟩
  obtain hr | ⟨rfl, rfl⟩ := hP r c? hr
  · exact h.seen r c? hr
  · exact ⟨[], List.nil_prefix, rfl⟩

theorem append (h : s.Told s' D P cs) (h' : s'.Told s'' D P' later) :
    s.Told s'' D (fun r c? => P r c? ∨ P' r c?) (cs ++ later) := by
  obtain ⟨rfl, hallowed, hseen⟩ := h
  obtain ⟨rfl, hallowed', hseen'⟩ := h'
  refine ⟨Store.after_append.symm, Store.undergoes_append.mpr ⟨hallowed, hallowed'⟩, ?_⟩
  rintro r c? (hr | hr)
  · obtain ⟨earlier, hprefix, rfl⟩ := hseen r c? hr
    exact ⟨earlier, hprefix.trans (List.prefix_append cs later), rfl⟩
  · obtain ⟨earlier, hprefix, rfl⟩ := hseen' r c? hr
    refine ⟨cs ++ earlier, ?_, Store.after_append.symm⟩
    rwa [List.append_assoc, List.prefix_append_right_inj]

end Store.Told

namespace Store

variable {s s' : Store} {c : Change} {cs : List Change} {D : Store → Change → Prop} {P : Sights}
  {i j : Nat}

/-- The store after the first `i` changes. -/
def stage (s : Store) (cs : List Change) (i : Nat) : Store := s.after (cs.take i)

@[simp] theorem stage_zero : s.stage cs 0 = s := rfl

theorem stage_length : s.stage cs cs.length = s.after cs := by rw [stage, List.take_length]

theorem stage_succ (h : cs[i]? = some c) : s.stage cs (i + 1) = (s.stage cs i).apply c := by
  rw [stage, List.take_add_one, h, Option.toList_some, after_append]
  rfl

theorem grows_stage (s : Store) (cs : List Change) (h : i ≤ j) : (s.stage cs i).Grows (s.stage cs j) := by
  obtain ⟨k, rfl⟩ := Nat.exists_eq_add_of_le h
  rw [stage, stage, List.take_add, after_append]
  exact (s.after (cs.take i)).grows_after _

theorem size_le_stage (s : Store) (cs : List Change) (i : Nat) :
    s.frames.size ≤ (s.stage cs i).frames.size :=
  (s.grows_after _).size

theorem Undergoes.at_stage (h : s.Undergoes D cs) (hc : cs[i]? = some c) : D (s.stage cs i) c := by
  obtain ⟨hi, rfl⟩ := List.getElem?_eq_some_iff.mp hc
  rw [← List.take_append_drop i cs, undergoes_append, List.drop_eq_getElem_cons hi] at h
  exact h.2.1

/-- What holds at the start and is kept by each change holds at every stage. -/
theorem stage_induction {motive : Store → Prop} (hstart : motive s)
    (hstep : ∀ i c, cs[i]? = some c → motive (s.stage cs i) → motive ((s.stage cs i).apply c)) :
    ∀ i, motive (s.stage cs i) := by
  intro i
  induction i with
  | zero => exact hstart
  | succ i ih =>
    cases hc : cs[i]? with
    | some c =>
      rw [stage_succ hc]
      exact hstep i c hc ih
    | none =>
      have hle : cs.length ≤ i := List.getElem?_eq_none_iff.mp hc
      rw [stage, List.take_of_length_le (Nat.le_succ_of_le hle)]
      rwa [stage, List.take_of_length_le hle] at ih

theorem Told.seen_at (h : s.Told s' D P cs) {r : Store} {c? : Option Change} (hr : P r c?) :
    ∃ i ≤ cs.length, r = s.stage cs i ∧ ∀ c ∈ c?, cs[i]? = some c := by
  obtain ⟨earlier, ⟨later, hcs⟩, rfl⟩ := h.seen r c? hr
  refine ⟨earlier.length, ?_, ?_, ?_⟩
  · rw [← hcs, List.append_assoc, List.length_append]
    exact Nat.le_add_right _ _
  · rw [stage, ← hcs, List.append_assoc, List.take_left]
  · rintro c ⟨⟩
    rw [← hcs, List.append_assoc, List.getElem?_append_right (Nat.le_refl _), Nat.sub_self]
    rfl

end Store

namespace Action

variable {α β : Type} {x : Action α} {f : α → Action β} {m m' : Machine} {a : α} {halt : Halt}

/-- The store that an action leaves, however it ends. -/
def storeAfter (x : Action α) (m : Machine) : Store :=
  match x m with
  | .ok _ m' | .error _ m' => m'.store

theorem storeAfter_of_ok (h : x m = .ok a m') : x.storeAfter m = m'.store := by
  rw [storeAfter, h]

theorem storeAfter_of_error (h : x m = .error halt m') : x.storeAfter m = m'.store := by
  rw [storeAfter, h]

theorem storeAfter_bind_of_ok (h : x m = .ok a m') :
    (x >>= f).storeAfter m = (f a).storeAfter m' := by
  rw [storeAfter, bind_of_ok h, storeAfter]

theorem storeAfter_bind_of_error (h : x m = .error halt m') : (x >>= f).storeAfter m = m'.store :=
  storeAfter_of_error (bind_of_error h)

/-- There is a story of the action: changes that lead to the store that it leaves. -/
def Story (x : Action α) (m : Machine) (D : Store → Change → Prop) (P : Sights) : Prop :=
  ∃ cs, m.store.Told (x.storeAfter m) D P cs

namespace Story

variable {D D' : Store → Change → Prop} {P P' : Sights} {Q : α → Machine → Sights}

theorem grows (h : Story x m D P) : m.store.Grows (x.storeAfter m) := by
  obtain ⟨cs, hcs⟩ := h
  rw [hcs.ends]
  exact m.store.grows_after cs

theorem allow (h : Story x m D P) (hD : ∀ s c, D s c → D' s c) : Story x m D' P := by
  obtain ⟨cs, hcs⟩ := h
  exact ⟨cs, hcs.allow hD⟩

theorem weaken (h : Story x m D P) (hP : ∀ s c?, P' s c? → P s c?) : Story x m D P' := by
  obtain ⟨cs, hcs⟩ := h
  exact ⟨cs, hcs.weaken hP⟩

theorem start (h : Story x m D P) (hP : ∀ s c?, P' s c? → P s c? ∨ s = m.store ∧ c? = none) :
    Story x m D P' := by
  obtain ⟨cs, hcs⟩ := h
  exact ⟨cs, hcs.start hP⟩

/-- An action that leaves the store as it is. -/
theorem still (h : x.storeAfter m = m.store) (hP : ∀ s c?, ¬P s c?) : Story x m D P :=
  ⟨[], h, trivial, fun s c? hs => absurd hs (hP s c?)⟩

/-- An action that makes one change. -/
theorem change {c : Change} (h : x.storeAfter m = m.store.apply c) (hc : D m.store c) :
    Story x m D fun s c? => s = m.store ∧ c? = some c := by
  refine ⟨[c], h, ⟨hc, trivial⟩, ?_⟩
  rintro s _ ⟨rfl, rfl⟩
  exact ⟨[], List.prefix_rfl, rfl⟩

/-- A story goes on with what follows in the sequence. -/
theorem bind (h : Story x m D P)
    (hf : ∀ a m', x m = .ok a m' → m.store.Grows m'.store → Story (f a) m' D (Q a m')) :
    Story (x >>= f) m D fun s c? => P s c? ∨ ∃ a m', x m = .ok a m' ∧ Q a m' s c? := by
  have hgrows := h.grows
  obtain ⟨cs, hcs⟩ := h
  cases hrun : x m with
  | error halt m' =>
    rw [storeAfter_of_error hrun] at hcs
    rw [Story, storeAfter_bind_of_error hrun]
    refine ⟨cs, hcs.weaken ?_⟩
    rintro s c? (hs | ⟨a, m'', ⟨⟩, -⟩)
    exact hs
  | ok a m' =>
    rw [storeAfter_of_ok hrun] at hcs hgrows
    obtain ⟨later, hlater⟩ := hf a m' hrun hgrows
    rw [Story, storeAfter_bind_of_ok hrun]
    refine ⟨cs ++ later, (hcs.append hlater).weaken ?_⟩
    rintro s c? (hs | ⟨_, _, ⟨⟩, hs⟩)
    · exact .inl hs
    · exact .inr hs

/-- Which frame is the active one makes no difference to a store. -/
theorem inFrame {frame : FrameId} (h : Story x { m with active := frame } D P) :
    Story (Action.inFrame frame x) m D P := by
  have hstore : (Action.inFrame frame x).storeAfter m = x.storeAfter { m with active := frame } := by
    unfold storeAfter Action.inFrame
    cases x { m with active := frame } <;> rfl
  rw [Story, hstore]
  exact h

theorem get_bind {f : Machine → Action β} (h : Story (f m) m D P) :
    Story (get >>= f) m D P := h

end Story

/-- The action leaves every store as it is. -/
def Still (x : Action α) : Prop := ∀ m, x.storeAfter m = m.store

namespace Still

theorem story (h : x.Still) {D : Store → Change → Prop} : Story x m D Unseen :=
  .still (h m) fun _ _ => id

/-- What comes last leaves the store as it is. -/
theorem storeAfter_bind (hf : ∀ a, (f a).Still) (m : Machine) :
    (x >>= f).storeAfter m = x.storeAfter m := by
  cases hrun : x m with
  | ok a m' => rw [storeAfter_bind_of_ok hrun, storeAfter_of_ok hrun, hf a m']
  | error halt m' => rw [storeAfter_bind_of_error hrun, storeAfter_of_error hrun]

theorem bind (h : x.Still) (hf : ∀ a, (f a).Still) : (x >>= f).Still := fun m =>
  (storeAfter_bind hf m).trans (h m)

theorem pure (a : α) : Still (pure a : Action α) := fun _ => rfl

end Still

theorem still_throw (halt : Halt) : Still (throw halt : Action α) := fun _ => rfl

theorem still_get : Still (get : Action Machine) := fun _ => rfl

theorem still_fail (token : Token) (fault : RuntimeFault) : Still (fail token fault : Action α) :=
  still_throw _

theorem still_lift (token : Token) (result : Except RuntimeFault α) : (lift token result).Still := by
  cases result with
  | ok a => exact .pure a
  | error fault => exact still_fail token fault

theorem still_require (token : Token) (fault : RuntimeFault) (found : Option α) :
    (require token fault found).Still := by
  cases found with
  | some a => exact .pure a
  | none => exact still_fail token fault

theorem still_newIdentity : newIdentity.Still := fun _ => rfl

theorem still_lookUp (ref : Reference) : (lookUp ref).Still :=
  still_get.bind fun _ => still_require _ _ _

theorem still_print (line : String) : (print line).Still := by
  refine Still.bind (fun _ => rfl) fun taken => ?_
  split
  · exact still_throw _
  · exact .pure _

theorem still_flush : flush.Still := by
  refine still_get.bind fun m => ?_
  split
  · exact still_throw _
  · exact .pure _

theorem still_newClosure (decl : FunctionDecl) (frame : FrameId) (isInitializer : Bool) :
    (newClosure decl frame isInitializer).Still :=
  still_newIdentity.bind fun _ => .pure _

theorem still_newMethods (frame : FrameId) (decls : List FunctionDecl) :
    (newMethods frame decls).Still := by
  induction decls with
  | nil => exact .pure _
  | cons decl rest ih => exact (still_newClosure _ _ _).bind fun _ => ih.bind fun _ => .pure _

theorem still_callHost (host : Host) (native : Native) (paren : Token) (args : List Value) :
    (callHost host native paren args).Still :=
  Still.bind (fun _ => rfl) fun _ => still_lift _ _

theorem still_parentClass (parent : Option Reference) : (parentClass parent).Still := by
  cases parent with
  | none => exact .pure _
  | some ref =>
    refine (still_lookUp ref).bind fun v => ?_
    split
    · exact .pure _
    · exact still_fail _ _

theorem still_checkCount (paren : Token) (expected given : Nat) :
    (checkCount paren expected given).Still := by
  unfold checkCount
  split
  · exact .pure _
  · exact still_fail _ _

end Action

end Treewalk
