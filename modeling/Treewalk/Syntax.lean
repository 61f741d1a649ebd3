import Treewalk.Token

/-! Programs as trees. Occurrences of names are numbered, so that two occurrences of one name stay
distinct. -/

namespace Treewalk

/-- The number of an occurrence of a name. -/
abbrev NodeId := Nat

/-- A numbered occurrence of a name, of `this`, or of `parent`. -/
structure Reference where
  id : NodeId
  name : Token

/-- Expressions. -/
inductive Expr
  | literal (value : Literal)
  | unary (operator : Token) (operand : Expr)
  | binary (left : Expr) (operator : Token) (right : Expr)
  | logical (left : Expr) (operator : Token) (right : Expr)
  | grouping (inner : Expr)
  | variable (target : Reference)
  | assign (target : Reference) (value : Expr)
  | call (callee : Expr) (paren : Token) (arguments : List Expr)
  | get (object : Expr) (name : Token)
  | set (object : Expr) (name : Token) (value : Expr)
  | this (receiver : Reference)
  | parent (keyword : Reference) (method : Token)

mutual

/-- A named function or method. -/
structure FunctionDecl where
  name : Token
  params : List Token
  body : List Stmt

/-- Statements. -/
inductive Stmt
  | expression (value : Expr)
  | print (value : Expr)
  | var (name : Token) (initial : Option Expr)
  | block (body : List Stmt)
  | branch (condition : Expr) (whenTrue : Stmt) (whenFalse : Option Stmt)
  | loop (condition : Expr) (body : Stmt)
  | function (decl : FunctionDecl)
  | giveBack (keyword : Token) (value : Option Expr)
  | classDecl (name : Token) (parent : Option Reference) (methods : List FunctionDecl)

end

/-- A program is a list of top-level statements. -/
abbrev Program := List Stmt

/-- A loop with three clauses, in terms of the loop with one: the first clause runs once in a scope
around the loop, the last one after each pass, and a missing condition always holds. -/
def Stmt.counting (initial : Option Stmt) (condition step : Option Expr) (body : Stmt) : Stmt :=
  let body := match step with
    | some e => .block [body, .expression e]
    | none => body
  .block (initial.toList ++ [.loop (condition.getD (.literal (.bool true))) body])

end Treewalk
