import Treewalk.Proofs.Evaluation.Closure
import Treewalk.Proofs.Evaluation.Moments

/-! What evaluation leaves alone. Whatever is evaluated and however it ends, the active frame is the
one from before, and the global frame and the distances are never changed, whether or not the
distances are right. -/

namespace Treewalk

/-- The frames and the distances by which names are found are the same. -/
structure Machine.Steady (m m' : Machine) : Prop where
  distances : m'.distances = m.distances
  globals : m'.globals = m.globals
  active : m'.active = m.active

theorem Machine.Steady.refl (m : Machine) : m.Steady m := ⟨rfl, rfl, rfl⟩

theorem Machine.Steady.trans {m m' m'' : Machine} (h : m.Steady m') (h' : m'.Steady m'') :
    m.Steady m'' :=
  ⟨h'.distances.trans h.distances, h'.globals.trans h.globals, h'.active.trans h.active⟩

namespace Action

variable {α β : Type} {x : Action α} {f : α → Action β} {m m' : Machine}

/-- However the action ends, names are found as before. -/
def Steady (x : Action α) : Prop :=
  ∀ m, match x m with
    | .ok _ m' | .error _ m' => m.Steady m'

theorem Steady.of_ok (h : x.Steady) {a : α} (hrun : x m = .ok a m') : m.Steady m' := by
  have hm := h m
  rwa [hrun] at hm

theorem Steady.of_error (h : x.Steady) {halt : Halt} (hrun : x m = .error halt m') :
    m.Steady m' := by
  have hm := h m
  rwa [hrun] at hm

theorem Steady.pure (a : α) : Steady (pure a : Action α) := fun m => .refl m

theorem steady_throw (halt : Halt) : Steady (throw halt : Action α) := fun m => .refl m

theorem steady_get : Steady (get : Action Machine) := fun m => .refl m

theorem Steady.bind (h : x.Steady) (hf : ∀ a, (f a).Steady) : (x >>= f).Steady := by
  intro m
  cases hrun : x m with
  | ok a m' =>
    rw [bind_of_ok hrun]
    cases hrest : f a m' with
    | ok b m'' => exact (h.of_ok hrun).trans ((hf a).of_ok hrest)
    | error halt m'' => exact (h.of_ok hrun).trans ((hf a).of_error hrest)
  | error halt m' =>
    rw [bind_of_error hrun]
    exact h.of_error hrun

/-- The frame that was active before is active again. -/
theorem Steady.inFrame (frame : FrameId) (h : x.Steady) : (inFrame frame x).Steady := by
  intro m
  unfold Action.inFrame
  dsimp only
  cases hrun : x { m with active := frame } with
  | ok a m' => exact ⟨(h.of_ok hrun).distances, (h.of_ok hrun).globals, rfl⟩
  | error halt m' => exact ⟨(h.of_error hrun).distances, (h.of_error hrun).globals, rfl⟩

theorem steady_newInstance (c : Class) : (newInstance c).Steady := fun _ => ⟨rfl, rfl, rfl⟩

theorem steady_print (line : String) : (print line).Steady := by
  refine Steady.bind (fun _ => ⟨rfl, rfl, rfl⟩) fun taken => ?_
  split
  · exact steady_throw _
  · exact .pure _

theorem steady_flush : flush.Steady := by
  refine steady_get.bind fun m => ?_
  split
  · exact steady_throw _
  · exact .pure _

theorem closed_steady : Closed Steady where
  pure := .pure
  throw := steady_throw
  bind := .bind
  get_bind _ hf := steady_get.bind hf
  inFrame := .inFrame
  newFrame _ _ := fun _ => ⟨rfl, rfl, rfl⟩
  newIdentity := fun _ => ⟨rfl, rfl, rfl⟩
  newInstance := steady_newInstance
  define _ _ := fun _ => ⟨rfl, rfl, rfl⟩
  defineIn _ _ _ := fun _ => ⟨rfl, rfl, rfl⟩
  setProperty _ _ _ := fun _ => ⟨rfl, rfl, rfl⟩
  nextTurn := fun _ => ⟨rfl, rfl, rfl⟩
  print := steady_print

theorem steady_newClosure (decl : FunctionDecl) (frame : FrameId) (isInitializer : Bool) :
    (newClosure decl frame isInitializer).Steady :=
  closed_steady.newClosure decl frame isInitializer

theorem steady_bindMethod (method : Closure) (receiver : Instance) :
    (bindMethod method receiver).Steady :=
  closed_steady.bindMethod method receiver

end Action

open Treewalk.Action

/-- Whatever is evaluated, names are found afterwards as before. -/
theorem evaluatesSteadily (host : Host) (n : Nat) : Evaluates Steady host n :=
  closed_steady.evaluates host n

/-- What a task begins finds names as the task does, unless the task is entered: then a new frame is the
active one. -/
theorem Task.Starts.finds {host : Host} {n : Nat} {t t' : Task} {m m' : Machine}
    (h : Task.Starts host n t m t' m') : m'.distances = m.distances ∧ m'.globals = m.globals ∧
      (¬t.Enters ∧ m'.active = m.active ∨ t.Enters ∧ m'.active = m.store.frames.size) := by
  have hsteady := evaluatesSteadily host n
  have hsame {m' : Machine} (h : m.Steady m') (ht : ¬t.Enters) :
      m'.distances = m.distances ∧ m'.globals = m.globals ∧
        (¬t.Enters ∧ m'.active = m.active ∨ t.Enters ∧ m'.active = m.store.frames.size) :=
    ⟨h.distances, h.globals, .inl ⟨ht, h.active⟩⟩
  cases h with
  | right hrun | decided hrun _ | write hrun | arguments hrun | property hrun _ _ | change hrun
  | otherArguments hrun | whenTrue hrun _ | whenFalse hrun _ | loopBody hrun _ =>
    exact hsame ((hsteady.expression _).of_ok hrun) id
  | call hrun hrun' =>
    exact hsame (((hsteady.expression _).of_ok hrun).trans ((hsteady.expressions _).of_ok hrun')) id
  | bind _ hnew _ => exact hsame ((steady_newInstance _).of_ok hnew) id
  | initializer _ hnew _ hbind =>
    exact hsame (((steady_newInstance _).of_ok hnew).trans ((steady_bindMethod _ _).of_ok hbind)) id
  | body hnew | block hnew =>
    cases hnew
    exact ⟨rfl, rfl, .inr ⟨trivial, rfl⟩⟩
  | rest hrun => exact hsame ((hsteady.statement _).of_ok hrun) id
  | again hrun _ hrun' =>
    exact hsame (((hsteady.expression _).of_ok hrun).trans ((hsteady.statement _).of_ok hrun')) id
  | _ => exact hsame (.refl m) id

/-- The distances are the same at every moment within a task. -/
theorem Task.Within.distances {host : Host} {n : Nat} {t t' : Task} {m m' : Machine}
    (h : Task.Within host n t m t' m') : m'.distances = m.distances := by
  induction h with
  | self => rfl
  | step hstart _ ih => exact ih.trans hstart.finds.1

theorem steady_executeProgram (host : Host) (depth : Nat) (p : Program) :
    (executeProgram host depth p).Steady :=
  closed_steady.executeProgram host depth p

/-- A run of a program ends in the frame in which it began, and with the same distances. -/
theorem steady_interpret (host : Host) (depth : Nat) (p : Program) :
    (interpret host depth p).Steady :=
  (steady_executeProgram host depth p).bind fun _ => steady_flush

end Treewalk
