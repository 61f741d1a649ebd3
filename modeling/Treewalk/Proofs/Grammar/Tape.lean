import Treewalk.Proofs.Grammar.Reading

/-! The parser as a head over the whole token sequence, the end mark included. It watches itself: it
stops where it would read a token that is not there, or where a pass of a loop has taken no token. A
rule has the name of the parser's rule whose place it takes. -/

namespace Treewalk

/-- The tokens with the end mark behind them, the place of the next one, the next free number for an
occurrence, and the faults recorded so far. -/
structure Tape where
  tokens : List Token
  head : Nat
  nextId : NodeId
  faults : List Diagnostic

namespace Tape

/-- Why a rule yields nothing: it fails at a token, its count of steps ran out, it asked for a token
that is not on the tape, or a pass of a loop has taken no token. -/
inductive Stop
  | fault (found : Diagnostic)
  | exhausted
  | outside
  | stalled

/-- A rule of the grammar, over a tape. -/
abbrev Rule := EStateM Stop Tape

/-! ### The moves -/

def exhausted {α : Type} : Rule α :=
  throw .exhausted

/-- The token at this place. -/
def tokenAt (place : Nat) : Rule Token := do
  match (← get).tokens[place]? with
  | some token => return token
  | none => throw .outside

/-- The token under the head. -/
def peek : Rule Token := do
  tokenAt (← get).head

/-- The token in front of the head. At the first place there is none. -/
def previous : Rule Token := do
  match (← get).head with
  | 0 => throw .outside
  | place + 1 => tokenAt place

/-- The head stands at the end mark. -/
def atEnd : Rule Bool := do
  return (← peek).terminal == .eof

/-- Moves the head to the next place, which has to be one of the tape. -/
def move : Rule Unit := do
  let tape ← get
  if tape.head + 1 < tape.tokens.length then set { tape with head := tape.head + 1 }
  else throw .outside

/-- Goes past the next token, but not past the end mark, and gives the token in front of the head. -/
def advance : Rule Token := do
  if ← atEnd then previous
  else
    move
    previous

/-- The next token is of this class. The end mark is of none. -/
def check (t : Terminal) : Rule Bool := do
  if ← atEnd then return false else return (← peek).terminal == t

def checkAny : List Terminal → Rule Bool
  | [] => return false
  | t :: ts => do
    if ← check t then return true else checkAny ts

/-- Takes the next token if it is of one of these classes. -/
def acceptAny (ts : List Terminal) : Rule (Option Token) := do
  if ← checkAny ts then
    let _ ← advance
    return some (← previous)
  else return none

def accept (t : Terminal) : Rule (Option Token) :=
  acceptAny [t]

def acceptPunct (p : Punct) : Rule Bool := do
  return (← accept (.punct p)).isSome

/-- Fails at the next token. -/
def fail {α : Type} (fault : ParseFault) : Rule α := do
  throw (.fault (.parse (← peek) fault))

/-- Takes a token of this class, and fails if the next one is not. -/
def expect (t : Terminal) (fault : ParseFault) : Rule Token := do
  if ← check t then advance else fail fault

def expectPunct (p : Punct) (fault : ParseFault) : Rule Token :=
  expect (.punct p) fault

def record (token : Token) (fault : ParseFault) : Rule Unit :=
  modify fun tape => { tape with faults := tape.faults ++ [.parse token fault] }

def number (name : Token) : Rule Reference := do
  let tape ← get
  set { tape with nextId := tape.nextId + 1 }
  return ⟨tape.nextId, name⟩

/-- A rule that is left out if the next token is of class `t`. -/
def whenNot {α : Type} (t : Terminal) (rule : Rule α) : Rule (Option α) := do
  if ← check t then return none else return some (← rule)

def position : Rule Nat := do
  return (← get).head

/-- A pass of a loop that began at the place `start` has taken a token. -/
def goOn (start : Nat) : Rule Unit := do
  if start < (← get).head then return () else throw .stalled

/-- Passes tokens up to the next statement, in at most so many steps. -/
def seek : Nat → Rule Unit
  | 0 => exhausted
  | n + 1 => do
    if ← atEnd then return ()
    else if (← previous).terminal = .punct .semicolon then return ()
    else if startsStatement (← peek) then return ()
    else
      let start ← position
      let _ ← advance
      goOn start
      seek n

/-- Recovery passes the token at fault, and then what stands in front of the next statement. The line
of the token goes to a log. -/
def synchronize : Rule Unit := do
  let _ ← peek
  let _ ← advance
  seek (← get).tokens.length

/-- A rule whose fault is recorded, and whose remaining tokens are passed up to the next
statement. -/
def recovering {α : Type} (rule : Rule α) : Rule (Option α) := fun tape =>
  match rule tape with
  | .ok a tape => .ok (some a) tape
  | .error (.fault found) tape =>
    (do
      synchronize
      return none) { tape with faults := tape.faults ++ [found] }
  | .error stop tape => .error stop tape

/-! ### Expressions -/

/-- The assignment of `value` to what `target` names. -/
def assignment (target : Expr) (equals : Token) (value : Expr) : Rule Expr :=
  match target with
  | .variable ref => do return .assign (← number ref.name) value
  | .get object name => return .set object name value
  | other => do
    record equals .assignmentTarget
    return other

/-- `this`, `parent.method`, a name, or what `expression` reads in parentheses. -/
def nameOrGroup (expression : Rule Expr) : Rule Expr := do
  match ← accept (.keyword .thisWord) with
  | some keyword => return .this (← number keyword)
  | none =>
    match ← accept (.keyword .parentWord) with
    | some keyword =>
      let _ ← expectPunct .dot .parentDot
      let method ← expect .identifier .parentMethodName
      return .parent (← number keyword) method
    | none =>
      match ← accept .identifier with
      | some name => return .variable (← number name)
      | none =>
        match ← accept (.punct .leftParen) with
        | some _ =>
          let inner ← expression
          let _ ← expectPunct .rightParen .groupClosing
          return .grouping inner
        | none => fail .expression

mutual

def expression : Nat → Rule Expr
  | 0 => exhausted
  | n + 1 => do
    let target ← operation n Level.all
    match ← accept (.punct .equal) with
    | none => return target
    | some equals =>
      let value ← expression n
      assignment target equals value

def operation : Nat → List Level → Rule Expr
  | 0, _ => exhausted
  | n + 1, [] => unary n
  | n + 1, level :: tighter => do
    let left ← operation n tighter
    operations n level tighter left

/-- Each pass takes an operator and its right operand. -/
def operations : Nat → Level → List Level → Expr → Rule Expr
  | 0, _, _, _ => exhausted
  | n + 1, level, tighter, left => do
    let start ← position
    match ← acceptAny level.operators with
    | none => return left
    | some operator =>
      let right ← operation n tighter
      goOn start
      operations n level tighter (level.node left operator right)

def unary : Nat → Rule Expr
  | 0 => exhausted
  | n + 1 => do
    match ← acceptAny [.punct .bang, .punct .minus] with
    | some operator =>
      let operand ← unary n
      return .unary operator operand
    | none =>
      let callee ← primary n
      calls n callee

/-- Each pass takes the arguments of a call or the name of a property. -/
def calls : Nat → Expr → Rule Expr
  | 0, _ => exhausted
  | n + 1, callee => do
    let start ← position
    if ← acceptPunct .leftParen then
      let args ← whenNot (.punct .rightParen) (arguments n 0)
      let paren ← expectPunct .rightParen .argumentsClosing
      goOn start
      calls n (.call callee paren (args.getD []))
    else if ← acceptPunct .dot then
      let name ← expect .identifier .propertyName
      goOn start
      calls n (.get callee name)
    else
      return callee

/-- Each pass takes an argument and the comma behind it. -/
def arguments : Nat → (count : Nat) → Rule (List Expr)
  | 0, _ => exhausted
  | n + 1, count => do
    let start ← position
    if maxArguments ≤ count then record (← peek) .tooManyArguments
    let argument ← expression n
    if ← acceptPunct .comma then
      goOn start
      let others ← arguments n (count + 1)
      return argument :: others
    else
      return [argument]

/-- A token of a class of constants spells one. If it did not, the choice would go on behind it. -/
def primary : Nat → Rule Expr
  | 0 => exhausted
  | n + 1 => do
    match (← acceptAny literalTerminals).bind Token.literal? with
    | some value => return .literal value
    | none => nameOrGroup (expression n)

end

/-! ### Statements -/

def initialValue (n : Nat) : Rule (Option Expr) := do
  if ← acceptPunct .equal then return some (← expression n) else return none

def varDeclaration (n : Nat) : Rule Stmt := do
  let name ← expect .identifier .variableName
  let initial ← initialValue n
  let _ ← expectPunct .semicolon .variableEnd
  return .var name initial

def expressionStatement (n : Nat) : Rule Stmt := do
  let value ← expression n
  let _ ← expectPunct .semicolon .expressionEnd
  return .expression value

def printStatement (n : Nat) : Rule Stmt := do
  let value ← expression n
  let _ ← expectPunct .semicolon .printEnd
  return .print value

def returnStatement (n : Nat) (keyword : Token) : Rule Stmt := do
  let value ← whenNot (.punct .semicolon) (expression n)
  let _ ← expectPunct .semicolon .returnEnd
  return .giveBack keyword value

def ifStatement (n : Nat) (statement : Rule Stmt) : Rule Stmt := do
  let _ ← expectPunct .leftParen .ifOpening
  let condition ← expression n
  let _ ← expectPunct .rightParen .ifClosing
  let whenTrue ← statement
  match ← accept (.keyword .elseWord) with
  | some _ => return .branch condition whenTrue (some (← statement))
  | none => return .branch condition whenTrue none

def whileStatement (n : Nat) (statement : Rule Stmt) : Rule Stmt := do
  let _ ← expectPunct .leftParen .whileOpening
  let condition ← expression n
  let _ ← expectPunct .rightParen .whileClosing
  let body ← statement
  return .loop condition body

def forInitial (n : Nat) : Rule (Option Stmt) := do
  if ← acceptPunct .semicolon then return none
  else if (← accept (.keyword .varWord)).isSome then return some (← varDeclaration n)
  else return some (← expressionStatement n)

def forStatement (n : Nat) (statement : Rule Stmt) : Rule Stmt := do
  let _ ← expectPunct .leftParen .forOpening
  let initial ← forInitial n
  let condition ← whenNot (.punct .semicolon) (expression n)
  let _ ← expectPunct .semicolon .forConditionEnd
  let step ← whenNot (.punct .rightParen) (expression n)
  let _ ← expectPunct .rightParen .forClosing
  let body ← statement
  return .counting initial condition step body

/-- Each pass takes a parameter and the comma behind it. -/
def parameters : Nat → (count : Nat) → Rule (List Token)
  | 0, _ => exhausted
  | n + 1, count => do
    let start ← position
    if maxArguments ≤ count then record (← peek) .tooManyParameters
    let name ← expect .identifier .parameterName
    if ← acceptPunct .comma then
      goOn start
      let others ← parameters n (count + 1)
      return name :: others
    else
      return [name]

def function (n : Nat) (sort : FunctionSort) (body : Rule (List Stmt)) : Rule FunctionDecl := do
  let name ← expect .identifier (.functionName sort)
  let _ ← expectPunct .leftParen (.parametersOpening sort)
  let params ← whenNot (.punct .rightParen) (parameters n 0)
  let _ ← expectPunct .rightParen .parametersClosing
  let _ ← expectPunct .leftBrace (.bodyOpening sort)
  let body ← body
  return ⟨name, params.getD [], body⟩

def heritage : Rule (Option Reference) := do
  if ← acceptPunct .less then
    let parent ← expect .identifier .parentClassName
    return some (← number parent)
  else return none

def classDeclaration (methods : Rule (List FunctionDecl)) : Rule Stmt := do
  let name ← expect .identifier .className
  let parent ← heritage
  let _ ← expectPunct .leftBrace .classOpening
  let methods ← methods
  let _ ← expectPunct .rightBrace .classClosing
  return .classDecl name parent methods

mutual

/-- The line of the first token goes to a log. -/
def declaration : Nat → Rule (Option Stmt)
  | 0 => exhausted
  | n + 1 => do
    let _ ← peek
    recovering do
      if (← accept (.keyword .classWord)).isSome then classDeclaration (methods n)
      else if (← accept (.keyword .funcWord)).isSome then
        return .function (← function n .function (block n))
      else if (← accept (.keyword .varWord)).isSome then varDeclaration n
      else statement n

def statement : Nat → Rule Stmt
  | 0 => exhausted
  | n + 1 => do
    if (← accept (.keyword .forWord)).isSome then forStatement n (statement n)
    else if (← accept (.keyword .ifWord)).isSome then ifStatement n (statement n)
    else if (← accept (.keyword .whileWord)).isSome then whileStatement n (statement n)
    else match ← accept (.keyword .returnWord) with
    | some keyword => returnStatement n keyword
    | none =>
      if ← acceptPunct .leftBrace then return .block (← block n)
      else if (← accept (.keyword .printWord)).isSome then printStatement n
      else expressionStatement n

/-- Each pass takes a declaration, or gives one up. -/
def block : Nat → Rule (List Stmt)
  | 0 => exhausted
  | n + 1 => do
    if (← check (.punct .rightBrace)) || (← atEnd) then
      let _ ← expectPunct .rightBrace .blockClosing
      return []
    else
      let start ← position
      let first ← declaration n
      goOn start
      let others ← block n
      return first.toList ++ others

/-- Each pass takes a method. -/
def methods : Nat → Rule (List FunctionDecl)
  | 0 => exhausted
  | n + 1 => do
    if (← check (.punct .rightBrace)) || (← atEnd) then return []
    else
      let start ← position
      let first ← function n .method (block n)
      goOn start
      let others ← methods n
      return first :: others

end

/-- Each pass takes a declaration, or gives one up. -/
def program : Nat → Rule (List Stmt)
  | 0 => exhausted
  | n + 1 => do
    if ← atEnd then return []
    else
      let start ← position
      let first ← declaration n
      goOn start
      let others ← program n
      return first.toList ++ others

end Tape

end Treewalk
