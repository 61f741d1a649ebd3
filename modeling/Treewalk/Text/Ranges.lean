/-! Properties of characters, listed as ranges of their numbers. -/

namespace Treewalk.Text

/-- Whether the character lies in one of the ranges, given by the first and last member of each. -/
def inRanges (ranges : List (Nat × Nat)) (c : Char) : Bool :=
  ranges.any fun (first, last) => decide (first ≤ c.toNat) && decide (c.toNat ≤ last)

theorem inRanges_iff {ranges : List (Nat × Nat)} {c : Char} :
    inRanges ranges c = true ↔ ∃ range ∈ ranges, range.1 ≤ c.toNat ∧ c.toNat ≤ range.2 := by
  simp [inRanges]

/-- Ranges in ascending order, each with a gap before the next. -/
def apart : List (Nat × Nat) → Bool
  | [] => true
  | (first, last) :: rest =>
    decide (first ≤ last) && rest.head?.all (fun next => decide (last + 1 < next.1)) && apart rest

end Treewalk.Text
