import Treewalk.Grammar.Expression

/-! The grammar of statements and declarations. A declaration that fails is given up, its fault is
recorded, and reading goes on at the next statement, so that one pass finds every independent
fault. The first argument of a rule bounds its depth. -/

namespace Treewalk

namespace Rule

/-- The initial value of a variable, if it has one. -/
def initialValue (n : Nat) : Rule (Option Expr) := do
  if ← acceptPunct .equal then return some (← expression n) else return none

/-- `varDecl → "var" IDENT ( "=" expression )? ";"`, the word being read. -/
def varDeclaration (n : Nat) : Rule Stmt := do
  let name ← expect .identifier .variableName
  let initial ← initialValue n
  let _ ← expectPunct .semicolon .variableEnd
  return .var name initial

/-- `exprStmt → expression ";"` -/
def expressionStatement (n : Nat) : Rule Stmt := do
  let value ← expression n
  let _ ← expectPunct .semicolon .expressionEnd
  return .expression value

/-- `printStmt → "print" expression ";"`, the word being read. -/
def printStatement (n : Nat) : Rule Stmt := do
  let value ← expression n
  let _ ← expectPunct .semicolon .printEnd
  return .print value

/-- `returnStmt → "return" expression? ";"`, the word being read. -/
def returnStatement (n : Nat) (keyword : Token) : Rule Stmt := do
  let value ← whenNot (.punct .semicolon) (expression n)
  let _ ← expectPunct .semicolon .returnEnd
  return .giveBack keyword value

/-- `ifStmt → "if" "(" expression ")" statement ( "else" statement )?`, the word being read. An
`else` belongs to the nearest `if`. -/
def ifStatement (n : Nat) (statement : Rule Stmt) : Rule Stmt := do
  let _ ← expectPunct .leftParen .ifOpening
  let condition ← expression n
  let _ ← expectPunct .rightParen .ifClosing
  let whenTrue ← statement
  match ← accept (.keyword .elseWord) with
  | some _ => return .branch condition whenTrue (some (← statement))
  | none => return .branch condition whenTrue none

/-- `whileStmt → "while" "(" expression ")" statement`, the word being read. -/
def whileStatement (n : Nat) (statement : Rule Stmt) : Rule Stmt := do
  let _ ← expectPunct .leftParen .whileOpening
  let condition ← expression n
  let _ ← expectPunct .rightParen .whileClosing
  let body ← statement
  return .loop condition body

/-- The first clause of a `for`: nothing, a variable, or an expression, with its semicolon. -/
def forInitial (n : Nat) : Rule (Option Stmt) := do
  if ← acceptPunct .semicolon then return none
  else if (← accept (.keyword .varWord)).isSome then return some (← varDeclaration n)
  else return some (← expressionStatement n)

/-- `forStmt → "for" "(" ( varDecl | exprStmt | ";" ) expression? ";" expression? ")" statement`,
the word being read. -/
def forStatement (n : Nat) (statement : Rule Stmt) : Rule Stmt := do
  let _ ← expectPunct .leftParen .forOpening
  let initial ← forInitial n
  let condition ← whenNot (.punct .semicolon) (expression n)
  let _ ← expectPunct .semicolon .forConditionEnd
  let step ← whenNot (.punct .rightParen) (expression n)
  let _ ← expectPunct .rightParen .forClosing
  let body ← statement
  return .counting initial condition step body

/-- `parameters → IDENT ( "," IDENT )*`, `count` parameters being read. Each one beyond the limit is
a fault, and is read all the same. -/
def parameters : Nat → (count : Nat) → Rule (List Token)
  | 0, _ => exhausted
  | n + 1, count => do
    if maxArguments ≤ count then record (← peek) .tooManyParameters
    let name ← expect .identifier .parameterName
    if ← acceptPunct .comma then
      let others ← parameters n (count + 1)
      return name :: others
    else
      return [name]

/-- `function → IDENT "(" parameters? ")" block` -/
def function (n : Nat) (sort : FunctionSort) (body : Rule (List Stmt)) : Rule FunctionDecl := do
  let name ← expect .identifier (.functionName sort)
  let _ ← expectPunct .leftParen (.parametersOpening sort)
  let params ← whenNot (.punct .rightParen) (parameters n 0)
  let _ ← expectPunct .rightParen .parametersClosing
  let _ ← expectPunct .leftBrace (.bodyOpening sort)
  let body ← body
  return ⟨name, params.getD [], body⟩

/-- The parent of a class, if it has one. -/
def heritage : Rule (Option Reference) := do
  if ← acceptPunct .less then
    let parent ← expect .identifier .parentClassName
    return some (← number parent)
  else return none

/-- `classDecl → "class" IDENT ( "<" IDENT )? "{" function* "}"`, the word being read. -/
def classDeclaration (methods : Rule (List FunctionDecl)) : Rule Stmt := do
  let name ← expect .identifier .className
  let parent ← heritage
  let _ ← expectPunct .leftBrace .classOpening
  let methods ← methods
  let _ ← expectPunct .rightBrace .classClosing
  return .classDecl name parent methods

mutual

/-- `declaration → classDecl | funcDecl | varDecl | statement`; nothing, if it is given up. -/
def declaration : Nat → Rule (Option Stmt)
  | 0 => exhausted
  | n + 1 => recovering do
    if (← accept (.keyword .classWord)).isSome then classDeclaration (methods n)
    else if (← accept (.keyword .funcWord)).isSome then
      return .function (← function n .function (block n))
    else if (← accept (.keyword .varWord)).isSome then varDeclaration n
    else statement n

/-- `statement → exprStmt | forStmt | ifStmt | printStmt | returnStmt | whileStmt | block` -/
def statement : Nat → Rule Stmt
  | 0 => exhausted
  | n + 1 => do
    if (← accept (.keyword .forWord)).isSome then forStatement n (statement n)
    else if (← accept (.keyword .ifWord)).isSome then ifStatement n (statement n)
    else if (← accept (.keyword .whileWord)).isSome then whileStatement n (statement n)
    else match ← accept (.keyword .returnWord) with
    | some keyword => returnStatement n keyword
    | none =>
      if ← acceptPunct .leftBrace then return .block (← block n)
      else if (← accept (.keyword .printWord)).isSome then printStatement n
      else expressionStatement n

/-- `block → "{" declaration* "}"`, the opening brace being read. -/
def block : Nat → Rule (List Stmt)
  | 0 => exhausted
  | n + 1 => do
    if (← atEnd) || (← check (.punct .rightBrace)) then
      let _ ← expectPunct .rightBrace .blockClosing
      return []
    else
      let first ← declaration n
      let others ← block n
      return first.toList ++ others

/-- The methods of a class, up to the closing brace. -/
def methods : Nat → Rule (List FunctionDecl)
  | 0 => exhausted
  | n + 1 => do
    if (← atEnd) || (← check (.punct .rightBrace)) then return []
    else
      let first ← function n .method (block n)
      let others ← methods n
      return first :: others

end

/-- `program → declaration* EOF` -/
def program : Nat → Rule (List Stmt)
  | 0 => exhausted
  | n + 1 => do
    if ← atEnd then return []
    else
      let first ← declaration n
      let others ← program n
      return first.toList ++ others

end Rule

/-- A depth that no token sequence of this length needs: between two tokens at most sixteen rules
are entered one inside the other. -/
def parsingDepth (tokens : Nat) : Nat :=
  16 * (tokens + 2)

/-- What parsing a token sequence gives: the program, or whatever of it was well formed if there are
faults, and the next free number for an occurrence. -/
structure Parse where
  program : Program
  faults : List Diagnostic
  nextId : NodeId

/-- Reads a program from its tokens, `finish` being the end mark behind them and `nextId` the first
number for an occurrence. -/
def parse (tokens : List Token) (finish : Token) (nextId : NodeId) : Parse :=
  match Rule.program (parsingDepth tokens.length) ⟨tokens, finish, nextId, []⟩ with
  | .ok program c => ⟨program, c.faults, c.nextId⟩
  | .error (.fault found) c => ⟨[], c.faults ++ [found], c.nextId⟩
  | .error .exhausted c => ⟨[], c.faults ++ [.parse finish .expression], c.nextId⟩

end Treewalk
