import Treewalk.Fault

/-! Sinks: where printed text goes. A sink may have room for a number of bytes only, and then takes
of the last text what fits. -/

namespace Treewalk

/-- What was written so far, how many bytes still fit, and whether the final flush fails. -/
structure Sink where
  written : ByteArray
  room : Option Nat
  flushFails : Bool

namespace Sink

/-- A sink that takes everything. -/
def unbounded : Sink := ⟨.empty, none, false⟩

/-- Takes bytes in order until the room is used up; the answer is whether all were taken. -/
def write (s : Sink) (data : ByteArray) : Sink × Bool :=
  match s.room with
  | none => ({ s with written := s.written ++ data }, true)
  | some room =>
    if data.size ≤ room then
      ({ s with written := s.written ++ data, room := some (room - data.size) }, true)
    else
      ({ s with written := s.written ++ data.extract 0 room, room := some 0 }, false)

theorem write_of_unbounded {s : Sink} (h : s.room = none) (data : ByteArray) :
    s.write data = ({ s with written := s.written ++ data }, true) := by
  simp [write, h]

/-- A text that fits is taken whole. -/
theorem write_of_fits {s : Sink} {room : Nat} (h : s.room = some room) {data : ByteArray}
    (fits : data.size ≤ room) :
    s.write data =
      ({ s with written := s.written ++ data, room := some (room - data.size) }, true) := by
  simp [write, h, fits]

/-- A text that does not fit is cut, and the sink is full from then on. -/
theorem write_of_overflow {s : Sink} {room : Nat} (h : s.room = some room) {data : ByteArray}
    (overflow : room < data.size) :
    s.write data =
      ({ s with written := s.written ++ data.extract 0 room, room := some 0 }, false) := by
  simp [write, h, Nat.not_le.mpr overflow]

end Sink

end Treewalk
