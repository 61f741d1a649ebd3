import Treewalk.Token

/-! Notices: what a user is told when something is wrong. A notice says which stage found the
fault and where the fault is, and its text is one line. -/

namespace Treewalk

/-- Where a static fault is: at a token, or behind the last one. -/
inductive Place
  | token (lexeme : String)
  | finish
  deriving DecidableEq, Repr

namespace Place

/-- Only the end mark stands for the end, whatever its text is. -/
def ofToken (t : Token) : Place :=
  match t.kind with
  | .eof => finish
  | _ => token t.lexeme

def text : Place → String
  | token lexeme => "at '" ++ lexeme ++ "'"
  | finish => "at end"

end Place

/-- A message with the stage and the place that it is about. -/
inductive Notice
  | lex (line : Nat) (message : String)
  | parse (line : Nat) (place : Place) (message : String)
  | resolve (line : Nat) (place : Place) (message : String)
  | runtime (line : Nat) (lexeme : String) (message : String)
  | io (message : String)
  deriving DecidableEq, Repr

namespace Notice

/-- The notice of the parser about token `t`. -/
def parseAt (t : Token) (message : String) : Notice :=
  parse t.line (.ofToken t) message

/-- The notice of the resolver about token `t`. -/
def resolveAt (t : Token) (message : String) : Notice :=
  resolve t.line (.ofToken t) message

/-- The notice of the evaluator about token `t`. -/
def runtimeAt (t : Token) (message : String) : Notice :=
  runtime t.line t.lexeme message

/-- The words alone, without line and place. -/
def message : Notice → String
  | lex _ m | parse _ _ m | resolve _ _ m | runtime _ _ m | io m => m

def line? : Notice → Option Nat
  | lex n _ | parse n _ _ | resolve n _ _ | runtime n _ _ => some n
  | io _ => none

/-- The fault was found before anything ran. -/
def isStatic : Notice → Bool
  | lex .. | parse .. | resolve .. => true
  | runtime .. | io _ => false

private def lineTag (line : Nat) : String :=
  "[line " ++ Nat.repr line ++ "] "

/-- The line that the user reads. -/
def text : Notice → String
  | lex line m => lineTag line ++ "Error: " ++ m
  | parse line place m | resolve line place m =>
    lineTag line ++ "Error " ++ place.text ++ ": " ++ m
  | runtime line lexeme m => lineTag line ++ "Runtime error at '" ++ lexeme ++ "': " ++ m
  | io m => m

end Notice

end Treewalk
