import Treewalk.Decimal.Shortest

/-! The layouts of a decimal: without an exponent, and with one digit before the point and an
exponent behind. -/

namespace Treewalk

namespace Decimal

/-- The digits, most significant first. -/
def digitChars (d : Decimal) : List Char :=
  Nat.toDigits 10 d.digits

/-- The place of the first digit: `3` for a number in the thousands, `-1` for one in the tenths. -/
def leadingExponent (d : Decimal) : Int :=
  d.digitChars.length - 1 + d.exponent

/-- The part before the point, padded with zeros; `0` when there is none. -/
def wholeChars (d : Decimal) : List Char :=
  if 0 ≤ d.exponent then d.digitChars ++ List.replicate d.exponent.toNat '0'
  else
    let places := (-d.exponent).toNat
    if d.digitChars.length ≤ places then ['0']
    else d.digitChars.take (d.digitChars.length - places)

/-- The part behind the point. -/
def fractionChars (d : Decimal) : List Char :=
  if 0 ≤ d.exponent then []
  else
    let places := (-d.exponent).toNat
    List.replicate (places - d.digitChars.length) '0' ++
      d.digitChars.drop (d.digitChars.length - places)

/-- Every digit in its place, and a point only if digits follow it. -/
def positional (d : Decimal) : List Char :=
  match d.fractionChars with
  | [] => d.wholeChars
  | fraction => d.wholeChars ++ '.' :: fraction

/-- Every digit in its place, with at least one digit behind the point. -/
def pointed (d : Decimal) : List Char :=
  match d.fractionChars with
  | [] => d.wholeChars ++ ['.', '0']
  | fraction => d.wholeChars ++ '.' :: fraction

/-- One digit, the others behind a point, and the exponent with its sign. -/
def scientific (d : Decimal) : List Char :=
  let significand :=
    match d.digitChars with
    | [] => []
    | [c] => [c]
    | c :: rest => c :: '.' :: rest
  let exponent := d.leadingExponent
  let sign := if exponent < 0 then '-' else '+'
  significand ++ 'e' :: sign :: Nat.toDigits 10 exponent.natAbs

end Decimal

/-- The sign of a number, written only if it is negative. -/
def signed (negative : Bool) (magnitude : List Char) : List Char :=
  if negative then '-' :: magnitude else magnitude

/-- A number by its fewest digits and without an exponent; the two kinds of non-finite number by
name. -/
def Reading.plain : Reading → List Char
  | .finite d => signed d.negative (d.shortest .up).positional
  | .infinite negative => signed negative ['i', 'n', 'f']
  | .notANumber => ['N', 'a', 'N']

/-- The whole number below `10 ^ 15` that a reading stands for, if it stands for one. -/
def Reading.smallWhole? : Reading → Option Dyadic
  | .finite d => if d.isWhole && decide (d.whole < Nat.pow 10 15) then some d else none
  | _ => none

end Treewalk
