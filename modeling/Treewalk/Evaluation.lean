import Treewalk.Machine
import Treewalk.Operator

/-! Evaluation: what expressions and statements do to the machine. Operands are evaluated from left
to right, and the first halt ends everything. The number in each rule bounds its depth; an
evaluation that halts or completes within a depth does so within every greater one. -/

namespace Treewalk

/-- The number of arguments must be the number of parameters. -/
def Action.checkCount (paren : Token) (expected given : Nat) : Action Unit :=
  if given = expected then return () else fail paren (.argumentCount expected given)

mutual

/-- The value of an expression. -/
def evaluate (host : Host) : Nat → Expr → Action Value
  | 0, _ => throw .exhausted
  | n + 1, e =>
    match e with
    | .literal value => return .ofLiteral value
    | .grouping inner => evaluate host n inner
    | .unary operator operand => do
      let v ← evaluate host n operand
      .lift operator (v.unary operator.terminal)
    | .binary left operator right => do
      let a ← evaluate host n left
      let b ← evaluate host n right
      .lift operator (a.binary operator.terminal b)
    | .logical left operator right => do
      let a ← evaluate host n left
      if a.decides operator.terminal then return a else evaluate host n right
    | .variable target => .lookUp target
    | .this receiver => .lookUp receiver
    | .assign target value => do
      let v ← evaluate host n value
      .assign target v
      return v
    | .call callee paren arguments => do
      let f ← evaluate host n callee
      let args ← evaluateAll host n arguments
      call host n f paren args
    | .get object name => do
      match ← evaluate host n object with
      | .instanceRef receiver => .getProperty receiver name
      | _ => .fail name .noProperties
    | .set object name value => do
      match ← evaluate host n object with
      | .instanceRef receiver =>
        let v ← evaluate host n value
        .setProperty receiver name v
        return v
      | _ => .fail name .noFields
    | .parent keyword method => .getParentMethod keyword method

/-- The values of expressions, in order. -/
def evaluateAll (host : Host) : Nat → List Expr → Action (List Value)
  | 0, _ => throw .exhausted
  | _ + 1, [] => return []
  | n + 1, e :: rest => do
    let v ← evaluate host n e
    let vs ← evaluateAll host n rest
    return v :: vs

/-- Calls a value: a function, a function of the host, or a class, which makes an instance. -/
def call (host : Host) : Nat → Value → (paren : Token) → List Value → Action Value
  | 0, _, _, _ => throw .exhausted
  | n + 1, callee, paren, args =>
    match callee with
    | .function f => do
      .checkCount paren f.arity args.length
      invoke host n f paren args
    | .native f => do
      .checkCount paren f.arity args.length
      .callHost host f paren args
    | .classRef c => do
      .checkCount paren (c.arity initializerName) args.length
      let made ← .newInstance c
      match c.method? initializerName with
      | some method => do
        let initializer ← .bindMethod method made
        let _ ← invoke host n initializer paren args
        return .instanceRef made
      | none => return .instanceRef made
    | _ => .fail paren .notCallable

/-- Runs the body of a function in a new frame. An initializer gives back its instance, whatever
its body returned. -/
def invoke (host : Host) : Nat → Closure → (paren : Token) → List Value → Action Value
  | 0, _, _, _ => throw .exhausted
  | n + 1, f, paren, args => do
    let frame ← .newFrame (argumentBindings f.decl.params args) f.frame
    let completion ← .inFrame frame (executeAll host n f.decl.body)
    if f.isInitializer then
      .require paren .unboundInitializer ((← get).store.getAt? f.frame 0 "this")
    else
      return completion.value

/-- Runs a statement. -/
def execute (host : Host) : Nat → Stmt → Action Completion
  | 0, _ => throw .exhausted
  | n + 1, s =>
    match s with
    | .expression value => do
      let _ ← evaluate host n value
      return .normal
    | .print value => do
      let v ← evaluate host n value
      .print v.text
      return .normal
    | .var name none => do
      .define name .null
      return .normal
    | .var name (some initial) => do
      let v ← evaluate host n initial
      .define name v
      return .normal
    | .block body => do
      let frame ← .newFrame ∅ (← get).active
      .inFrame frame (executeAll host n body)
    | .branch condition whenTrue whenFalse => do
      let v ← evaluate host n condition
      if v.isTruthy then execute host n whenTrue
      else match whenFalse with
      | some s => execute host n s
      | none => return .normal
    | .loop condition body => executeLoop host n condition body
    | .function decl => do
      let f ← .newClosure decl (← get).active false
      .define decl.name (.function f)
      return .normal
    | .giveBack _ none => return .returned .null
    | .giveBack _ (some value) => do
      let v ← evaluate host n value
      return .returned v
    | .classDecl name parent methods => do
      .declareClass name parent methods
      return .normal

/-- Runs statements in order, up to the first that returns. -/
def executeAll (host : Host) : Nat → List Stmt → Action Completion
  | 0, _ => throw .exhausted
  | _ + 1, [] => return .normal
  | n + 1, s :: rest => do
    match ← execute host n s with
    | .returned v => return .returned v
    | .normal => executeAll host n rest

/-- Runs a loop: the condition before each pass, and no pass after one that returns. -/
def executeLoop (host : Host) : Nat → Expr → Stmt → Action Completion
  | 0, _, _ => throw .exhausted
  | n + 1, condition, body => do
    let v ← evaluate host n condition
    if v.isTruthy then
      match ← execute host n body with
      | .returned v => return .returned v
      | .normal => executeLoop host n condition body
    else
      return .normal

end

/-- Runs the statements of a program in order. A `return` at top level ends its own statement
only. -/
def executeProgram (host : Host) (depth : Nat) : Program → Action Unit
  | [] => return ()
  | s :: rest => do
    let _ ← execute host depth s
    executeProgram host depth rest

/-- Runs a program and ends its output. -/
def interpret (host : Host) (depth : Nat) (program : Program) : Action Unit := do
  executeProgram host depth program
  .flush

end Treewalk
