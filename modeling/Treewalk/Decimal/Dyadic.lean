/-! Doubles as exact numbers: a finite double is a whole number of units, the unit a power of
two. Nothing is rounded here; every later text of a number starts from this reading. -/

namespace Treewalk

/-- A finite double: `mantissa * 2 ^ exponent`, with a sign that zero carries too. -/
structure Dyadic where
  negative : Bool
  mantissa : Nat
  exponent : Int
  deriving DecidableEq, Repr

/-- What the bits of a double say. -/
inductive Reading
  | finite (number : Dyadic)
  | infinite (negative : Bool)
  | notANumber
  deriving DecidableEq, Repr

/-- The fields of a double, from the top: one sign bit, eleven exponent bits, 52 fraction bits. -/
def Reading.ofBits (bits : Nat) : Reading :=
  let negative := decide (Nat.pow 2 63 ≤ bits)
  let scale : Nat := bits / Nat.pow 2 52 % Nat.pow 2 11
  let fraction : Nat := bits % Nat.pow 2 52
  if scale = 2047 then
    if fraction = 0 then .infinite negative else .notANumber
  else if scale = 0 then .finite ⟨negative, fraction, -1074⟩
  else .finite ⟨negative, Nat.pow 2 52 + fraction, (scale : Int) - 1075⟩

/-- The exact reading of a double. -/
def Reading.ofFloat (x : Float) : Reading :=
  .ofBits x.toBits.toNat

namespace Dyadic

/-- The whole part of the magnitude. -/
def whole (d : Dyadic) : Nat :=
  d.mantissa * Nat.pow 2 d.exponent.toNat / Nat.pow 2 (-d.exponent).toNat

/-- The number has no fraction part. -/
def isWhole (d : Dyadic) : Bool :=
  d.mantissa % Nat.pow 2 (-d.exponent).toNat == 0

/-- With a nonnegative exponent the number is whole. -/
theorem isWhole_of_nonneg {d : Dyadic} (h : 0 ≤ d.exponent) : d.isWhole = true := by
  have : (-d.exponent).toNat = 0 := by omega
  simp [isWhole, this, Nat.mod_one]

end Dyadic

end Treewalk
