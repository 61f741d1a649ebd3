import Std.Data.TreeMap
import Treewalk.Fault
import Treewalk.Syntax

/-! Scopes: which names are declared around a point of a program, and what kind of function and
class the point is in. -/

namespace Treewalk

/-- The names that one scope declares. A name is marked once its declaration is complete, and not
while its own initial value is being read. -/
abbrev Scope := Std.TreeMap String Bool

/-- What kind of function a point is directly in. -/
inductive FunctionContext
  | topLevel
  | function
  | method
  | initializer
  deriving DecidableEq, Repr

/-- What kind of class a point is directly in. -/
inductive ClassContext
  | outside
  | withoutParent
  | withParent
  deriving DecidableEq, Repr

/-- The name of the method that runs when an instance is made. -/
def initializerName : String := "Init"

/-- The method that makes instances is an initializer; every other one is a plain method. -/
def FunctionContext.ofMethod (name : Token) : FunctionContext :=
  if name.lexeme = initializerName then initializer else method

/-- The surroundings of a point: its scopes, innermost first, without the global one. -/
structure Context where
  scopes : List Scope
  function : FunctionContext
  classContext : ClassContext

namespace Context

/-- The surroundings of a whole program. -/
def outermost : Context := ⟨[], .topLevel, .outside⟩

/-- How many scopes lie between a point and the innermost one that declares `name`; nothing if the
name is global. -/
def distance? (ctx : Context) (name : String) : Option Nat :=
  ctx.scopes.findIdx? (·.contains name)

/-- The innermost scope declares `name`. -/
def declaresHere (ctx : Context) (name : String) : Bool :=
  match ctx.scopes with
  | [] => false
  | scope :: _ => scope.contains name

/-- `name` stands in the innermost scope, its declaration not being complete. -/
def isPending (ctx : Context) (name : String) : Bool :=
  match ctx.scopes with
  | [] => false
  | scope :: _ => scope[name]? == some false

/-- Declares `name` in the innermost scope. A name that stands there keeps its mark. -/
def declare (ctx : Context) (name : String) : Context :=
  match ctx.scopes with
  | [] => ctx
  | scope :: outer => { ctx with scopes := scope.insertIfNew name false :: outer }

/-- Completes the declaration of `name` in the innermost scope. -/
def define (ctx : Context) (name : String) : Context :=
  match ctx.scopes with
  | [] => ctx
  | scope :: outer => { ctx with scopes := scope.insert name true :: outer }

/-- Opens a scope. -/
def enter (ctx : Context) : Context :=
  { ctx with scopes := ∅ :: ctx.scopes }

/-- Opens a scope that declares one name. -/
def bind (ctx : Context) (name : String) : Context :=
  { ctx with scopes := (∅ : Scope).insert name true :: ctx.scopes }

end Context

end Treewalk
