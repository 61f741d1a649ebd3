import Treewalk.Notice

/-! Faults: everything that can go wrong with a program, one constructor a cause, and the words
for each. -/

namespace Treewalk

/-- Text that is no token. -/
inductive LexFault
  | unexpectedCharacter (c : Char)
  | unterminatedString
  deriving DecidableEq, Repr

def LexFault.message : LexFault → String
  | unexpectedCharacter c => "Unexpected character: " ++ String.singleton c
  | unterminatedString => "Unterminated string."

/-- A function that stands on its own, or one of a class. -/
inductive FunctionSort
  | function
  | method
  deriving DecidableEq, Repr

def FunctionSort.word : FunctionSort → String
  | function => "function"
  | method => "method"

/-- The largest number of parameters or arguments. -/
def maxArguments : Nat := 255

/-- Tokens that do not follow the grammar: a missing part, named by what should stand there, or a
part that the grammar has no place for. -/
inductive ParseFault
  | className | parentClassName | classOpening | classClosing
  | functionName (sort : FunctionSort) | parametersOpening (sort : FunctionSort)
  | parameterName | parametersClosing | bodyOpening (sort : FunctionSort) | tooManyParameters
  | variableName | variableEnd
  | forOpening | forConditionEnd | forClosing
  | printEnd | expressionEnd | returnEnd | blockClosing
  | ifOpening | ifClosing | whileOpening | whileClosing
  | assignmentTarget
  | propertyName | argumentsClosing | tooManyArguments
  | parentDot | parentMethodName | groupClosing | expression
  deriving DecidableEq, Repr

def ParseFault.message : ParseFault → String
  | className => "Expect class name."
  | parentClassName => "Expect parent class name."
  | classOpening => "Expect '\x7b' before class body."
  | classClosing => "Expect '\x7d' after class body."
  | functionName sort => "Expect " ++ sort.word ++ " name."
  | parametersOpening sort => "Expect '(' after " ++ sort.word ++ " name."
  | parameterName => "Expect parameter name."
  | parametersClosing => "Expect ')' after parameters."
  | bodyOpening sort => "Expect '\x7b' before " ++ sort.word ++ " body."
  | tooManyParameters => "Can't have more than " ++ Nat.repr maxArguments ++ " parameters."
  | variableName => "Expect variable name."
  | variableEnd => "Expect ';' after variable declaration."
  | forOpening => "Expect '(' after 'for'."
  | forConditionEnd => "Expect ';' after loop condition."
  | forClosing => "Expect ')' after for clauses."
  | printEnd => "Expect ';' after value."
  | expressionEnd => "Expect ';' after expression."
  | returnEnd => "Expect ';' after return value."
  | blockClosing => "Expect '\x7d' after block."
  | ifOpening => "Expect '(' after 'if'."
  | ifClosing => "Expect ')' after if condition."
  | whileOpening => "Expect '(' after 'while'."
  | whileClosing => "Expect ')' after condition."
  | assignmentTarget => "Invalid assignment target."
  | propertyName => "Expect property name after '.'."
  | argumentsClosing => "Expect ')' after arguments."
  | tooManyArguments => "Can't have more than " ++ Nat.repr maxArguments ++ " arguments."
  | parentDot => "Expect '.' after 'parent'."
  | parentMethodName => "Expect parent method name."
  | groupClosing => "Expect ')' after expression."
  | expression => "Expect expression."

/-- A program that follows the grammar but not the rules of names. -/
inductive ResolveFault
  | duplicateName
  | ownInitializer
  | topLevelReturn
  | initializerReturn
  | thisOutsideClass
  | parentOutsideClass
  | parentWithoutParent
  | selfInheritance
  deriving DecidableEq, Repr

def ResolveFault.message : ResolveFault → String
  | duplicateName => "Already a variable with this name in this scope."
  | ownInitializer => "Can't read local variable in its own initializer."
  | topLevelReturn => "Can't return from top-level code."
  | initializerReturn => "Can't return a value from an initializer."
  | thisOutsideClass => "Can't use 'this' outside of a class."
  | parentOutsideClass => "Can't use 'parent' outside of a class."
  | parentWithoutParent => "Can't use 'parent' in a class with no parent."
  | selfInheritance => "A class can't inherit from itself."

/-- An operation that has no result. -/
inductive RuntimeFault
  | undefinedVariable (name : String)
  | undefinedProperty (name : String)
  | operandNotNumber
  | operandsNotNumbers
  | operandsNotAddable
  | unaryOperator
  | binaryOperator
  | notCallable
  | argumentCount (expected given : Nat)
  | noProperties
  | noFields
  | parentNotClass
  | unresolvedParent
  | parentWithoutInstance
  | unboundInitializer
  | host (message : String)
  deriving DecidableEq, Repr

def RuntimeFault.message : RuntimeFault → String
  | undefinedVariable name => "Undefined variable '" ++ name ++ "'."
  | undefinedProperty name => "Undefined property '" ++ name ++ "'."
  | operandNotNumber => "Operand must be a number."
  | operandsNotNumbers => "Operands must be numbers."
  | operandsNotAddable => "Operands must be two numbers or two strings."
  | unaryOperator => "Invalid unary operator."
  | binaryOperator => "Invalid binary operator."
  | notCallable => "Can only call functions and classes."
  | argumentCount expected given =>
    "Expected " ++ Nat.repr expected ++ " arguments but got " ++ Nat.repr given ++ "."
  | noProperties => "Only instances have properties."
  | noFields => "Only instances have fields."
  | parentNotClass => "Parent must be a class."
  | unresolvedParent => "Unresolved 'parent' expression."
  | parentWithoutInstance => "Can't use 'parent' without an instance."
  | unboundInitializer => "Initializer is not bound to an instance."
  | host message => message

/-- A place to write to that takes no more. -/
inductive SinkFault
  | full
  | flushFailed
  deriving DecidableEq, Repr

def SinkFault.message : SinkFault → String
  | full => "sink full"
  | flushFailed => "flush failed"

/-- A fault with the place where it was found. -/
inductive Diagnostic
  | lex (line : Nat) (fault : LexFault)
  | parse (token : Token) (fault : ParseFault)
  | resolve (token : Token) (fault : ResolveFault)
  | runtime (token : Token) (fault : RuntimeFault)
  | sink (fault : SinkFault)

/-- What the user is told about a fault. -/
def Diagnostic.notice : Diagnostic → Notice
  | lex line fault => .lex line fault.message
  | parse token fault => .parseAt token fault.message
  | resolve token fault => .resolveAt token fault.message
  | runtime token fault => .runtimeAt token fault.message
  | sink fault => .io fault.message

end Treewalk
