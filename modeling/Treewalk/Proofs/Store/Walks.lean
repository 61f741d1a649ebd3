import Treewalk.Fault
import Treewalk.Proofs.Evaluation.Frames

/-! Walks along frames. Each operation on a name goes from frame to frame on its own and stops by a rule
of its own: at the first frame that binds the name, or after so many steps. A walk that finds no frame to
stop at fails at the token that names it. The store comes to the same in one way: it looks for the frame
first. -/

namespace Treewalk

/-- What a walk comes to, and the frames that it leaves. -/
abbrev Walk.Result := EStateM.Result Diagnostic Store

namespace Walk

/-- A name without a frame to read it from or to write it to. -/
def undefined (name : Token) : Diagnostic := .runtime name (.undefinedVariable name.lexeme)

/-- Reads a name in the frame, or else outward. -/
def get (f : FrameId) (name : Token) (s : Store) : Result Value :=
  match s.binding? f name.lexeme with
  | some v => .ok v s
  | none =>
    match _h : s.enclosing? f with
    | some p => get p name s
    | none => .error (undefined name) s
termination_by f
decreasing_by exact Store.lt_of_enclosing? _h

/-- Overwrites a name in the frame if it binds it, or else outward. -/
def assign (f : FrameId) (name : Token) (v : Value) (s : Store) : Result Unit :=
  match s.binding? f name.lexeme with
  | some _ => .ok () (s.define f name.lexeme v)
  | none =>
    match _h : s.enclosing? f with
    | some p => assign p name v s
    | none => .error (undefined name) s
termination_by f
decreasing_by exact Store.lt_of_enclosing? _h

/-- Reads a name in the frame so many steps out. -/
def getAt (s : Store) (name : String) : (distance : Nat) → FrameId → Option Value
  | 0, f => s.binding? f name
  | distance + 1, f => (s.enclosing? f).bind (getAt s name distance)

/-- Writes a name in the frame so many steps out. -/
def assignAt (name : Token) (v : Value) (s : Store) : (distance : Nat) → FrameId → Result Unit
  | 0, f => .ok () (s.define f name.lexeme v)
  | distance + 1, f =>
    match s.enclosing? f with
    | some p => assignAt name v s distance p
    | none => .error (undefined name) s

/-- The frames behind a walk, whether it failed or not. -/
def left {α : Type} : Result α → Store
  | .ok _ s => s
  | .error _ s => s

/-- A value that was found, or else a fault. The frames are as they were. -/
def found (name : Token) (s : Store) : Option Value → Result Value
  | some v => .ok v s
  | none => .error (undefined name) s

/-- The frames after a change, or else a fault, with the frames as they were. -/
def changed (name : Token) (s : Store) : Option Store → Result Unit
  | some s' => .ok () s'
  | none => .error (undefined name) s

section
variable {s : Store} {f p : FrameId} {name : Token} {v w : Value}

/-! ### One step of a walk -/

theorem get_eq (f : FrameId) (name : Token) (s : Store) :
    get f name s =
      match s.binding? f name.lexeme with
      | some v => .ok v s
      | none =>
        match s.enclosing? f with
        | some p => get p name s
        | none => .error (undefined name) s := by
  rw [get]
  split
  · rfl
  · split <;> next hp => rw [hp]

theorem assign_eq (f : FrameId) (name : Token) (v : Value) (s : Store) :
    assign f name v s =
      match s.binding? f name.lexeme with
      | some _ => .ok () (s.define f name.lexeme v)
      | none =>
        match s.enclosing? f with
        | some p => assign p name v s
        | none => .error (undefined name) s := by
  rw [assign]
  split
  · rfl
  · split <;> next hp => rw [hp]

theorem get_of_bound (h : s.binding? f name.lexeme = some w) : get f name s = .ok w s := by
  rw [get_eq, h]

theorem get_of_enclosing? (hnone : s.binding? f name.lexeme = none) (hp : s.enclosing? f = some p) :
    get f name s = get p name s := by
  rw [get_eq, hnone, hp]

theorem get_of_outermost (hnone : s.binding? f name.lexeme = none) (hp : s.enclosing? f = none) :
    get f name s = .error (undefined name) s := by
  rw [get_eq, hnone, hp]

theorem assign_of_bound (h : s.binding? f name.lexeme = some w) (v : Value) :
    assign f name v s = .ok () (s.define f name.lexeme v) := by
  rw [assign_eq, h]

theorem assign_of_enclosing? (hnone : s.binding? f name.lexeme = none)
    (hp : s.enclosing? f = some p) (v : Value) : assign f name v s = assign p name v s := by
  rw [assign_eq, hnone, hp]

theorem assign_of_outermost (hnone : s.binding? f name.lexeme = none)
    (hp : s.enclosing? f = none) (v : Value) : assign f name v s = .error (undefined name) s := by
  rw [assign_eq, hnone, hp]

/-! ### A walk as a whole -/

/-- A name that is searched for is read and overwritten in the frame that the store finds for it. -/
theorem search_eq (s : Store) (f : FrameId) (name : Token) (v : Value) :
    get f name s = found name s (s.get? f name.lexeme) ∧
      assign f name v s = changed name s (s.assign? f name.lexeme v) := by
  induction f using Nat.strongRecOn with
  | _ f ih =>
    rw [Store.get?, Store.assign?]
    cases hbound : s.binding? f name.lexeme with
    | some w =>
      rw [get_of_bound hbound, assign_of_bound hbound,
        Store.holder?_of_bound (by rw [hbound]; rfl), Option.bind_some, hbound]
      exact ⟨rfl, rfl⟩
    | none =>
      have hunbound : ¬(s.binding? f name.lexeme).isSome := by simp [hbound]
      cases hp : s.enclosing? f with
      | some p =>
        rw [get_of_enclosing? hbound hp, assign_of_enclosing? hbound hp,
          Store.holder?_of_enclosing? hunbound hp]
        exact ih p (Store.lt_of_enclosing? hp)
      | none =>
        rw [get_of_outermost hbound hp, assign_of_outermost hbound hp,
          Store.holder?_of_outermost hp, if_neg hunbound]
        exact ⟨rfl, rfl⟩

/-- A frame that is not there binds nothing. -/
theorem getAt_eq (s : Store) (name : String) (d : Nat) (f : FrameId) :
    getAt s name d f = s.getAt? f d name := by
  induction d generalizing f with
  | zero =>
    rw [getAt, Store.getAt?, Store.ancestor?]
    split
    · rfl
    · next hf =>
      rw [Store.binding?, Array.getElem?_eq_none (Nat.le_of_not_lt hf)]
      rfl
  | succ d ih =>
    rw [getAt, Store.getAt?, Store.ancestor?_step]
    cases s.enclosing? f with
    | none => rfl
    | some p => exact ih p

theorem assignAt_eq (hf : f < s.frames.size) (name : Token) (v : Value) (d : Nat) :
    assignAt name v s d f = changed name s (s.assignAt? f d name.lexeme v) := by
  induction d generalizing f with
  | zero =>
    rw [assignAt, Store.assignAt?, Store.ancestor?_zero hf]
    rfl
  | succ d ih =>
    rw [assignAt, Store.assignAt?, Store.ancestor?_step]
    cases hp : s.enclosing? f with
    | none => rfl
    | some p => exact ih (Nat.lt_trans (Store.lt_of_enclosing? hp) hf)

end

end Walk

end Treewalk
