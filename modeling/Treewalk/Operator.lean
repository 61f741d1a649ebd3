import Treewalk.Fault
import Treewalk.Value

/-! Operators on values. An operator is any token class; those that mean nothing are faults, found
only after the operands fit the others. -/

namespace Treewalk.Value

/-- The value of a unary operator. -/
def unary (operator : Terminal) (operand : Value) : Except RuntimeFault Value :=
  match operator, operand with
  | .punct .bang, v => .ok (.bool !v.isTruthy)
  | .punct .minus, .number x => .ok (.number (-x))
  | .punct .minus, _ => .error .operandNotNumber
  | _, _ => .error .unaryOperator

/-- The value of an operator that takes two numbers and nothing else. -/
def arithmetic (operator : Terminal) (x y : Float) : Except RuntimeFault Value :=
  match operator with
  | .punct .minus => .ok (.number (x - y))
  | .punct .star => .ok (.number (x * y))
  | .punct .slash => .ok (.number (x / y))
  | .punct .greater => .ok (.bool (decide (x > y)))
  | .punct .greaterEqual => .ok (.bool (decide (x ≥ y)))
  | .punct .less => .ok (.bool (decide (x < y)))
  | .punct .lessEqual => .ok (.bool (decide (x ≤ y)))
  | _ => .error .binaryOperator

/-- The value of a binary operator: equality takes any two values, a sum two numbers or two strings,
every other operator two numbers. -/
def binary (operator : Terminal) (left right : Value) : Except RuntimeFault Value :=
  match operator with
  | .punct .equalEqual => .ok (.bool (left.equals right))
  | .punct .bangEqual => .ok (.bool !left.equals right)
  | .punct .plus =>
    match left, right with
    | .number x, .number y => .ok (.number (x + y))
    | .string s, .string t => .ok (.string (s ++ t))
    | _, _ => .error .operandsNotAddable
  | _ =>
    match left, right with
    | .number x, .number y => arithmetic operator x y
    | _, _ => .error .operandsNotNumbers

/-- The left operand of a logical operator decides alone: a true one for `or`, a false one for every
other operator. -/
def decides (operator : Terminal) (left : Value) : Bool :=
  if operator = .keyword .orWord then left.isTruthy else !left.isTruthy

end Treewalk.Value
