import Treewalk.Grammar.Rule

/-! The grammar of expressions. Operators bind in levels, each level reading the next tighter one
for its operands; an assignment is read as an expression first and its target is judged
afterwards. The first argument of a rule bounds its depth. -/

namespace Treewalk

/-- Operators of one strength, and the node that they build. -/
structure Level where
  operators : List Terminal
  node : Expr → Token → Expr → Expr

/-- The levels of binary operators, loosest first. All of them group to the left. -/
def Level.all : List Level :=
  [⟨[.keyword .orWord], .logical⟩,
    ⟨[.keyword .andWord], .logical⟩,
    ⟨[.punct .bangEqual, .punct .equalEqual], .binary⟩,
    ⟨[.punct .greater, .punct .greaterEqual, .punct .less, .punct .lessEqual], .binary⟩,
    ⟨[.punct .minus, .punct .plus], .binary⟩,
    ⟨[.punct .star, .punct .slash], .binary⟩]

namespace Rule

/-- The assignment of `value` to what `target` names. Any other target is a fault at the equals
sign, and its tree stands in for the assignment. -/
def assignment (target : Expr) (equals : Token) (value : Expr) : Rule Expr :=
  match target with
  | .variable ref => do return .assign (← number ref.name) value
  | .get object name => return .set object name value
  | other => do
    record equals .assignmentTarget
    return other

mutual

/-- `assignment → ( call "." )? IDENT "=" assignment | logic_or` -/
def expression : Nat → Rule Expr
  | 0 => exhausted
  | n + 1 => do
    let target ← operation n Level.all
    match ← accept (.punct .equal) with
    | none => return target
    | some equals =>
      let value ← expression n
      assignment target equals value

/-- `level → tighter ( operator tighter )*`, down to the unary operators. -/
def operation : Nat → List Level → Rule Expr
  | 0, _ => exhausted
  | n + 1, [] => unary n
  | n + 1, level :: tighter => do
    let left ← operation n tighter
    operations n level tighter left

/-- The operators of a level that follow the operand `left`. -/
def operations : Nat → Level → List Level → Expr → Rule Expr
  | 0, _, _, _ => exhausted
  | n + 1, level, tighter, left => do
    match ← acceptAny level.operators with
    | none => return left
    | some operator =>
      let right ← operation n tighter
      operations n level tighter (level.node left operator right)

/-- `unary → ( "!" | "-" ) unary | call` -/
def unary : Nat → Rule Expr
  | 0 => exhausted
  | n + 1 => do
    match ← acceptAny [.punct .bang, .punct .minus] with
    | some operator =>
      let operand ← unary n
      return .unary operator operand
    | none =>
      let callee ← primary n
      calls n callee

/-- `call → primary ( "(" arguments? ")" | "." IDENT )*`, the primary being read. -/
def calls : Nat → Expr → Rule Expr
  | 0, _ => exhausted
  | n + 1, callee => do
    if ← acceptPunct .leftParen then
      let args ← whenNot (.punct .rightParen) (arguments n 0)
      let paren ← expectPunct .rightParen .argumentsClosing
      calls n (.call callee paren (args.getD []))
    else if ← acceptPunct .dot then
      let name ← expect .identifier .propertyName
      calls n (.get callee name)
    else
      return callee

/-- `arguments → expression ( "," expression )*`, `count` arguments being read. Each one beyond the
limit is a fault, and is read all the same. -/
def arguments : Nat → (count : Nat) → Rule (List Expr)
  | 0, _ => exhausted
  | n + 1, count => do
    if maxArguments ≤ count then record (← peek) .tooManyArguments
    let argument ← expression n
    if ← acceptPunct .comma then
      let others ← arguments n (count + 1)
      return argument :: others
    else
      return [argument]

/-- Constants, names, `this`, `parent.method` and parentheses. -/
def primary : Nat → Rule Expr
  | 0 => exhausted
  | n + 1 => do
    match (← get).ahead with
    | [] => fail .expression
    | token :: _ =>
      match token.literal? with
      | some value =>
        skip
        return .literal value
      | none =>
        match token.terminal with
        | .keyword .thisWord =>
          skip
          return .this (← number token)
        | .keyword .parentWord =>
          skip
          let _ ← expectPunct .dot .parentDot
          let method ← expect .identifier .parentMethodName
          return .parent (← number token) method
        | .identifier =>
          skip
          return .variable (← number token)
        | .punct .leftParen =>
          skip
          let inner ← expression n
          let _ ← expectPunct .rightParen .groupClosing
          return .grouping inner
        | _ => fail .expression

end

end Rule

end Treewalk
