import Treewalk.Proofs.Evaluation.Story

/-! Halts. Nothing catches a halt: where one of the tasks within a task halts, the task halts for the
same reason, and leaves the machine as the halt found it, but for the active frame. -/

namespace Treewalk

namespace Action

variable {α β : Type} {x : Action α} {f : α → Action β} {m m' m₁ : Machine} {halt : Halt}

/-- The action halts on `m` and leaves `m₁`, in whatever frame. -/
def Halts (x : Action α) (m : Machine) (halt : Halt) (m₁ : Machine) : Prop :=
  ∃ frame, x m = .error halt { m₁ with active := frame }

theorem Halts.of_error (h : x m = .error halt m₁) : x.Halts m halt m₁ := ⟨m₁.active, h⟩

theorem Halts.bind (h : x.Halts m halt m₁) : (x >>= f).Halts m halt m₁ := by
  obtain ⟨frame, hrun⟩ := h
  exact ⟨frame, bind_of_error hrun⟩

theorem Halts.behind {a : α} (hrun : x m = .ok a m') (h : (f a).Halts m' halt m₁) :
    (x >>= f).Halts m halt m₁ := by
  obtain ⟨frame, hrest⟩ := h
  exact ⟨frame, (bind_of_ok hrun).trans hrest⟩

theorem Halts.inFrame {frame : FrameId} (h : x.Halts { m with active := frame } halt m₁) :
    (inFrame frame x).Halts m halt m₁ := by
  obtain ⟨left, hrun⟩ := h
  refine ⟨m.active, ?_⟩
  rw [Action.inFrame, hrun]

/-- The declaration of a class halts where its parent is no variable. -/
theorem Halts.declareClass {name : Token} {ref : Reference} {methods : List FunctionDecl}
    (h : (lookUp ref).Halts m halt m₁) : (declareClass name (some ref) methods).Halts m halt m₁ :=
  Halts.bind (x := parentClass (some ref)) (Halts.bind h)

end Action

namespace Task

open Treewalk.Action

variable {host : Host} {n k : Nat} {t t' : Task} {m m' m₁ : Machine} {halt : Halt}

/-- To bind a method never halts. -/
theorem not_halts_bind {f : Closure} {i : Instance} : ¬(bindMethod f i).Halts m halt m₁ := by
  rintro ⟨frame, hrun⟩
  cases hrun

/-- A task halts where one that it begins does. -/
theorem Starts.halts (hstart : Starts host n t m t' m') (hdeep : halt ≠ .exhausted)
    (h : (t'.action host n).Halts m' halt m₁) : (t.action host (n + 1)).Halts m halt m₁ := by
  cases hstart with
  | grouping | loop => exact h
  | operand | left | decider | assigned | callee | object | changed | firstArgument | value | printed
  | initial | condition | givenBack | first | loopCondition => exact h.bind
  | right hrun | write hrun | arguments hrun | change hrun | otherArguments hrun =>
    exact .behind hrun h.bind
  | decided hrun hdecides =>
    refine .behind hrun ?_
    rw [if_neg (by simp [hdecides])]
    exact h
  | call hrun hrun' => exact .behind hrun (.behind hrun' h)
  | rest hrun => exact .behind hrun h
  | property | parentMethod | bind => exact (not_halts_bind h).elim
  | invoke hcount =>
    exact .behind (by rw [checkCount, if_pos hcount]; rfl) h
  | initializer hcount hnew hmethod hbind =>
    refine .behind (by rw [checkCount, if_pos hcount]; rfl) (.behind hnew ?_)
    rw [hmethod]
    exact .behind hbind h.bind
  | body hnew => exact .behind hnew (Halts.bind (.inFrame h))
  | block hnew => exact .behind get_apply (.behind hnew (.inFrame h))
  | whenTrue hrun htruth =>
    refine .behind hrun ?_
    rw [if_pos htruth]
    exact h
  | whenFalse hrun htruth =>
    refine .behind hrun ?_
    rw [if_neg (by simp [htruth])]
    exact h
  | heritage =>
    cases n with
    | zero =>
      obtain ⟨frame, hrun⟩ := h
      cases hrun
      exact absurd rfl hdeep
    | succ n => exact Halts.bind (.declareClass h)
  | loopBody hrun htruth =>
    refine .behind hrun ?_
    rw [if_pos htruth]
    exact h.bind
  | again hrun htruth hrun' =>
    refine .behind hrun ?_
    rw [if_pos htruth]
    exact .behind hrun' h

/-- A halt at any moment within a task ends the task. -/
theorem Reaches.halts (hreaches : Reaches host n t m k t' m') (hdeep : halt ≠ .exhausted)
    (h : (t'.action host k).Halts m' halt m₁) : (t.action host n).Halts m halt m₁ := by
  induction hreaches with
  | self => exact h
  | step hstart _ ih => exact hstart.halts hdeep (ih h)

end Task

end Treewalk
