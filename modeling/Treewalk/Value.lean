import Treewalk.Syntax

/-! Values of a running program. Numbers, strings, truth values and null are plain data; functions,
classes and instances have an identity of their own, and what they share or change lies in the
store. -/

namespace Treewalk

/-- The number of a frame in the store. -/
abbrev FrameId := Nat

/-- What tells two objects apart. -/
abbrev Identity := Nat

/-- A function with the frame in which its declaration ran. -/
structure Closure where
  identity : Identity
  decl : FunctionDecl
  frame : FrameId
  isInitializer : Bool

namespace Closure

def name (f : Closure) : String := f.decl.name.lexeme

def arity (f : Closure) : Nat := f.decl.params.length

/-- A description for the host: name, number of parameters, and whether it makes instances. -/
def describe (f : Closure) : String :=
  "Function \x7b name: \"" ++ f.name ++ "\", arity: " ++ Nat.repr f.arity ++
    ", is_initializer: " ++ (if f.isInitializer then "true" else "false") ++ " \x7d"

end Closure

/-- A function of the host. -/
structure Native where
  identity : Identity
  name : String
  arity : Nat

/-- What one class declaration adds to its parent. -/
structure ClassBody where
  identity : Identity
  name : String
  methods : List Closure

/-- The method of this name; of several the one declared last. -/
def ClassBody.method? (body : ClassBody) (name : String) : Option Closure :=
  body.methods.reverse.find? (·.name == name)

/-- A class: its own body, and those of its ancestors, nearest first. -/
structure Class where
  own : ClassBody
  ancestors : List ClassBody

namespace Class

def name (c : Class) : String := c.own.name

def bodies (c : Class) : List ClassBody := c.own :: c.ancestors

/-- The class of this body under a parent. -/
def extend (parent : Option Class) (own : ClassBody) : Class :=
  ⟨own, (parent.map bodies).getD []⟩

/-- The method of this name in the nearest body that has one. -/
def method? (c : Class) (name : String) : Option Closure :=
  c.bodies.findSome? (·.method? name)

/-- A class takes the arguments of its initializer, and none without one. -/
def arity (c : Class) (initializer : String) : Nat :=
  (c.method? initializer).elim 0 Closure.arity

theorem method?_eq (c : Class) (name : String) :
    c.method? name = (c.own.method? name).or (c.ancestors.findSome? (·.method? name)) := by
  simp only [method?, bodies, List.findSome?_cons]
  cases c.own.method? name <;> rfl

end Class

/-- An instance: its fields lie in the store under its identity. -/
structure Instance where
  identity : Identity
  ofClass : Class

/-- A value. -/
inductive Value
  | number (x : Float)
  | string (s : String)
  | bool (b : Bool)
  | null
  | function (f : Closure)
  | native (f : Native)
  | classRef (c : Class)
  | instanceRef (i : Instance)

namespace Value

/-- The sort of a value, by name. -/
def sort : Value → String
  | number _ => "Number"
  | string _ => "String"
  | bool _ => "Bool"
  | null => "Null"
  | function _ => "Function"
  | native _ => "NativeFunction"
  | classRef _ => "Class"
  | instanceRef _ => "Instance"

/-- Only null and false count as false. -/
def isTruthy : Value → Bool
  | null => false
  | bool b => b
  | _ => true

/-- What may be called: functions and classes. -/
def isCallable : Value → Bool
  | function _ | native _ | classRef _ => true
  | _ => false

/-- Plain data is equal by content, objects by identity; values of two sorts are never equal. -/
def equals : Value → Value → Bool
  | number x, number y => x == y
  | string s, string t => s == t
  | bool a, bool b => a == b
  | null, null => true
  | function f, function g => f.identity == g.identity
  | native f, native g => f.identity == g.identity
  | classRef c, classRef d => c.own.identity == d.own.identity
  | instanceRef i, instanceRef j => i.identity == j.identity
  | _, _ => false

/-- The value of a constant. -/
def ofLiteral : Literal → Value
  | .number x => number x
  | .string s => string s
  | .bool b => bool b
  | .null => null

/-- A number as it is printed: negative zero keeps its sign, whole numbers below `10 ^ 15` are
written out, and all others have their fewest digits. -/
def numberText (x : Float) : List Char :=
  let reading := Reading.ofFloat x
  if reading = .finite ⟨true, 0, -1074⟩ then ['-', '0']
  else
    match reading.smallWhole? with
    | some d => signed d.negative (Nat.toDigits 10 d.whole)
    | none => reading.plain

example : numberText (-0.0) = "-0".toList := by decide
example : numberText 1e14 = "100000000000000".toList := by decide
example : numberText 1e21 = "1000000000000000000000".toList := by decide
example : numberText (0.1 + 0.2) = "0.30000000000000004".toList := by decide
example : numberText (-1 / 0) = "-inf".toList := by decide

/-- A value as it is printed. -/
def text : Value → String
  | number x => String.ofList (numberText x)
  | string s => s
  | bool true => "true"
  | bool false => "false"
  | null => "null"
  | function f => "<func " ++ f.name ++ ">"
  | native f => "<native func " ++ f.name ++ ">"
  | classRef c => c.name
  | instanceRef i => "Instance of " ++ i.ofClass.name

end Value

end Treewalk
