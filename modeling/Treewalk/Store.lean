import Std.Data.TreeMap
import Treewalk.Value

/-! The store: frames that bind names to values and that know the frame around them, and the fields
of instances. Frames are shared: whoever reaches a frame sees what was last written to it. -/

namespace Treewalk

/-- The names bound in one frame or object, in the order of their characters. -/
abbrev Bindings := Std.TreeMap String Value

/-- A frame and the number of the frame around it. -/
structure Frame where
  bindings : Bindings
  enclosing : Option FrameId

/-- All frames and all instances made so far, by number. -/
structure Store where
  frames : Array Frame
  fields : Array Bindings

namespace Store

def empty : Store := ⟨#[], #[]⟩

/-- Makes a frame. -/
def addFrame (s : Store) (bindings : Bindings) (enclosing : Option FrameId) : FrameId × Store :=
  (s.frames.size, { s with frames := s.frames.push ⟨bindings, enclosing⟩ })

/-- Makes an object without fields. -/
def addObject (s : Store) : Identity × Store :=
  (s.fields.size, { s with fields := s.fields.push ∅ })

/-- The value of `name` in the frame itself. -/
def binding? (s : Store) (f : FrameId) (name : String) : Option Value :=
  s.frames[f]?.bind (·.bindings[name]?)

/-- The frame around a frame. It is always an older one. -/
def enclosing? (s : Store) (f : FrameId) : Option FrameId :=
  (s.frames[f]?.bind (·.enclosing)).filter (· < f)

theorem lt_of_enclosing? {s : Store} {f p : FrameId} (h : s.enclosing? f = some p) : p < f := by
  simpa using (Option.filter_eq_some_iff.mp h).2

/-- Binds `name` in the frame itself. -/
def define (s : Store) (f : FrameId) (name : String) (v : Value) : Store :=
  { s with
    frames := s.frames.modify f fun frame =>
      { frame with bindings := frame.bindings.insert name v } }

/-- The frame `distance` steps out. -/
def ancestor? (s : Store) (f : FrameId) : (distance : Nat) → Option FrameId
  | 0 => if f < s.frames.size then some f else none
  | distance + 1 =>
    match s.enclosing? f with
    | some p => s.ancestor? p distance
    | none => none

/-- The nearest frame, from `f` outward, that binds `name`. -/
def holder? (s : Store) (f : FrameId) (name : String) : Option FrameId :=
  if (s.binding? f name).isSome then some f
  else
    match _h : s.enclosing? f with
    | some p => s.holder? p name
    | none => none
termination_by f
decreasing_by exact lt_of_enclosing? _h

/-- The value of `name` in the nearest frame that binds it. -/
def get? (s : Store) (f : FrameId) (name : String) : Option Value :=
  (s.holder? f name).bind (s.binding? · name)

/-- Overwrites `name` in the nearest frame that binds it; nothing, if there is none. -/
def assign? (s : Store) (f : FrameId) (name : String) (v : Value) : Option Store :=
  (s.holder? f name).map (s.define · name v)

/-- The value of `name` in the frame `distance` steps out, and in no other. -/
def getAt? (s : Store) (f : FrameId) (distance : Nat) (name : String) : Option Value :=
  (s.ancestor? f distance).bind (s.binding? · name)

/-- Binds `name` in the frame `distance` steps out; nothing, if there is no such frame. -/
def assignAt? (s : Store) (f : FrameId) (distance : Nat) (name : String) (v : Value) :
    Option Store :=
  (s.ancestor? f distance).map (s.define · name v)

/-- The names bound in the frame itself, with their values, in the order of the names. -/
def bindings (s : Store) (f : FrameId) : List (String × Value) :=
  (s.frames[f]?.map (·.bindings.toList)).getD []

/-- The field of an object. -/
def field? (s : Store) (object : Identity) (name : String) : Option Value :=
  s.fields[object]?.bind (·[name]?)

/-- Writes a field of an object. -/
def setField (s : Store) (object : Identity) (name : String) (v : Value) : Store :=
  { s with fields := s.fields.modify object (·.insert name v) }

theorem binding?_define_same {s : Store} {f : FrameId} {name : String} {v : Value}
    (h : f < s.frames.size) : (s.define f name v).binding? f name = some v := by
  simp only [define, binding?]
  rw [Array.getElem?_modify]
  simp [h]

theorem binding?_define_ne {s : Store} {f g : FrameId} {name other : String} {v : Value}
    (h : f ≠ g ∨ name ≠ other) :
    (s.define f name v).binding? g other = s.binding? g other := by
  by_cases hf : f = g
  · subst hf
    have hn : name ≠ other := h.resolve_left (by simp)
    simp only [define, binding?, Array.getElem?_modify, if_pos]
    cases s.frames[f]? <;> simp [Std.TreeMap.getElem?_insert, hn]
  · simp [define, binding?, Array.getElem?_modify, hf]

theorem enclosing?_define (s : Store) (f g : FrameId) (name : String) (v : Value) :
    (s.define f name v).enclosing? g = s.enclosing? g := by
  simp only [define, enclosing?, Array.getElem?_modify]
  split
  · cases s.frames[g]? <;> simp_all
  · rfl

end Store

end Treewalk
