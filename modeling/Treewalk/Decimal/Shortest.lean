import Treewalk.Decimal.Dyadic

/-! The fewest decimal digits that read back as a given double. A double stands for every real
number nearer to it than to its neighbours; of all grids of multiples of a power of ten the
coarsest that meets this interval gives the digits. -/

namespace Treewalk

/-- A magnitude in decimal: `digits * 10 ^ exponent`. -/
structure Decimal where
  digits : Nat
  exponent : Int
  deriving DecidableEq, Repr

/-- Which of two equally near grid points is taken. -/
inductive Tie
  | up
  | even
  deriving DecidableEq, Repr

/-- The reals that read back as one double, in units of a quarter of its own unit: `value` is the
double itself, `low` and `high` the ends, which belong to the interval when `closed`. -/
structure Span where
  low : Nat
  value : Nat
  high : Nat
  exponent : Int
  closed : Bool
  deriving DecidableEq, Repr

/-- Half a unit to both sides; but below a power of two the neighbour is only half as far, unless
the exponent is already the least one. -/
def Dyadic.span (d : Dyadic) : Span :=
  let below := if d.mantissa = Nat.pow 2 52 ∧ -1074 < d.exponent then 1 else 2
  { low := 4 * d.mantissa - below
    value := 4 * d.mantissa
    high := 4 * d.mantissa + 2
    exponent := d.exponent - 2
    closed := d.mantissa % 2 == 0 }

namespace Span

/-- The factors that bring the span's units (first) and the multiples of `10 ^ k` (second) to a
common unit: `x` units lie at `x * first`, the multiple `y` at `y * second`. -/
def factors (s : Span) (k : Int) : Nat × Nat :=
  (Nat.pow 2 s.exponent.toNat * Nat.pow 10 (-k).toNat,
    Nat.pow 2 (-s.exponent).toNat * Nat.pow 10 k.toNat)

/-- The multiple `y` of `10 ^ k` lies in the span. -/
def contains (s : Span) (k : Int) (y : Nat) : Bool :=
  let (units, grid) := s.factors k
  if s.closed then
    decide (s.low * units ≤ y * grid ∧ y * grid ≤ s.high * units)
  else
    decide (s.low * units < y * grid ∧ y * grid < s.high * units)

/-- The last multiple of `10 ^ k` that is not above the value. -/
def floor (s : Span) (k : Int) : Nat :=
  let (units, grid) := s.factors k
  s.value * units / grid

/-- Of the multiples of `10 ^ k` in the span the one nearest to the value, if there is any. -/
def nearest? (tie : Tie) (s : Span) (k : Int) : Option Nat :=
  let (units, grid) := s.factors k
  let y := s.floor k
  let twice := 2 * (s.value * units - y * grid)
  let roundUp :=
    if twice = grid then
      match tie with
      | .up => true
      | .even => y % 2 == 1
    else decide (grid < twice)
  match s.contains k y, s.contains k (y + 1) with
  | true, true => some (if roundUp then y + 1 else y)
  | true, false => some y
  | false, true => some (y + 1)
  | false, false => none

/-- The first grid with a hit, from `10 ^ k` on to finer ones. Twenty-one grids are enough for
every double: seventeen digits always tell two doubles apart. -/
def search (tie : Tie) (s : Span) : Nat → Int → Decimal
  | 0, k => ⟨s.floor k, k⟩
  | steps + 1, k =>
    match s.nearest? tie k with
    | some y => ⟨y, k⟩
    | none => search tie s steps (k - 1)

/-- An exponent of ten whose power is above the whole span. -/
def topExponent (s : Span) : Int :=
  (Nat.log2 s.value + s.exponent + 2) * 30103 / 100000 + 1

end Span

/-- The shortest decimal that reads back as the magnitude of `d`; zero has the digit `0`. -/
def Dyadic.shortest (tie : Tie) (d : Dyadic) : Decimal :=
  if d.mantissa = 0 then ⟨0, 0⟩
  else d.span.search tie 21 d.span.topExponent

end Treewalk
