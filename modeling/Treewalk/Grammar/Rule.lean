import Treewalk.Fault
import Treewalk.Syntax

/-! The parser's steps: a cursor over the tokens, and the few moves that every rule is made of. A
rule either yields a value, fails at a token, or stops because its count of steps ran out. -/

namespace Treewalk

/-- What a rule sees and leaves behind: the tokens ahead, the end mark behind them, the next free
number for an occurrence, and the faults recorded so far. -/
structure Cursor where
  ahead : List Token
  finish : Token
  nextId : NodeId
  faults : List Diagnostic

/-- Why a rule yields nothing. -/
inductive Unparsed
  | fault (found : Diagnostic)
  | exhausted

/-- A rule of the grammar. A failing rule leaves the cursor where the fault was found. -/
abbrev Rule := EStateM Unparsed Cursor

namespace Rule

/-- The count of steps ran out. -/
def exhausted {α : Type} : Rule α :=
  throw .exhausted

/-- The next token; at the end the end mark, again and again. -/
def peek : Rule Token := do
  let c ← get
  return c.ahead.headD c.finish

/-- No token is left. -/
def atEnd : Rule Bool := do
  return (← get).ahead.isEmpty

/-- The next token is of this class. The end mark is of none. -/
def check (t : Terminal) : Rule Bool := do
  match (← get).ahead with
  | [] => return false
  | next :: _ => return next.terminal == t

/-- Goes past the next token. -/
def skip : Rule Unit :=
  modify fun c => { c with ahead := c.ahead.tail }

/-- Takes the next token if it is of one of these classes. -/
def acceptAny (ts : List Terminal) : Rule (Option Token) := do
  match (← get).ahead with
  | [] => return none
  | next :: rest =>
    if next.terminal ∈ ts then
      modify fun c => { c with ahead := rest }
      return some next
    else return none

/-- Takes the next token if it is of this class. -/
def accept (t : Terminal) : Rule (Option Token) :=
  acceptAny [t]

/-- Takes a piece of punctuation. -/
def acceptPunct (p : Punct) : Rule Bool := do
  return (← accept (.punct p)).isSome

/-- Fails at the next token. -/
def fail {α : Type} (fault : ParseFault) : Rule α := do
  throw (.fault (.parse (← peek) fault))

/-- Takes a token of this class, and fails if the next one is not. -/
def expect (t : Terminal) (fault : ParseFault) : Rule Token := do
  match ← accept t with
  | some token => return token
  | none => fail fault

def expectPunct (p : Punct) (fault : ParseFault) : Rule Token :=
  expect (.punct p) fault

/-- Notes a fault and goes on: the tree is still well formed. -/
def record (token : Token) (fault : ParseFault) : Rule Unit :=
  modify fun c => { c with faults := c.faults ++ [.parse token fault] }

/-- Numbers an occurrence. -/
def number (name : Token) : Rule Reference := do
  let c ← get
  set { c with nextId := c.nextId + 1 }
  return ⟨c.nextId, name⟩

/-- A rule that is left out if the next token is of class `t`. -/
def whenNot {α : Type} (t : Terminal) (rule : Rule α) : Rule (Option α) := do
  if ← check t then return none else return some (← rule)

end Rule

/-- The words that start a statement, as far as recovery looks for one. -/
def startsStatement (t : Token) : Bool :=
  match t.kind with
  | .keyword .classWord | .keyword .funcWord | .keyword .varWord | .keyword .forWord
  | .keyword .ifWord | .keyword .whileWord | .keyword .returnWord => true
  | _ => false

/-- The tokens from the next statement on, `previous` being the last token passed: a statement
starts behind a semicolon or at a word that starts one. -/
def nextStatement (previous : Token) : List Token → List Token
  | [] => []
  | t :: rest =>
    if previous.terminal = .punct .semicolon ∨ startsStatement t then t :: rest
    else nextStatement t rest

/-- Recovery passes the token at fault, whatever it is. -/
def recoverAt : List Token → List Token
  | [] => []
  | t :: rest => nextStatement t rest

/-- A rule whose fault is recorded, and whose remaining tokens are passed up to the next
statement. -/
def Rule.recovering {α : Type} (rule : Rule α) : Rule (Option α) := fun c =>
  match rule c with
  | .ok a c => .ok (some a) c
  | .error (.fault found) c =>
    .ok none { c with ahead := recoverAt c.ahead, faults := c.faults ++ [found] }
  | .error .exhausted c => .error .exhausted c

theorem nextStatement_length_le (previous : Token) (ts : List Token) :
    (nextStatement previous ts).length ≤ ts.length := by
  induction ts generalizing previous with
  | nil => simp [nextStatement]
  | cons t rest ih =>
    rw [nextStatement]
    split
    · exact Nat.le_refl _
    · exact Nat.le_trans (ih t) (Nat.le_succ _)

/-- Recovery always passes a token if there is one. -/
theorem recoverAt_length_lt {ts : List Token} (h : ts ≠ []) :
    (recoverAt ts).length < ts.length := by
  cases ts with
  | nil => exact absurd rfl h
  | cons t rest => exact Nat.lt_succ_of_le (nextStatement_length_le t rest)

end Treewalk
