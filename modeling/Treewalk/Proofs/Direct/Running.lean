import Treewalk.Proofs.Direct.Node
import Treewalk.Session

/-! Running programs with nodes for the loops with three clauses. Everything but the node is
evaluated as it is without nodes. A node opens one frame; its first clause runs there once, its
condition and its last clause are evaluated there, and its body runs there. -/

namespace Treewalk.Direct

mutual

/-- The value of an expression. -/
def evaluate (host : Host) : Nat → Expr → Action Value
  | 0, _ => throw .exhausted
  | n + 1, e =>
    match e with
    | .literal value => return .ofLiteral value
    | .grouping inner => evaluate host n inner
    | .unary operator operand => do
      let v ← evaluate host n operand
      .lift operator (v.unary operator.terminal)
    | .binary left operator right => do
      let a ← evaluate host n left
      let b ← evaluate host n right
      .lift operator (a.binary operator.terminal b)
    | .logical left operator right => do
      let a ← evaluate host n left
      if a.decides operator.terminal then return a else evaluate host n right
    | .variable target => .lookUp target
    | .this receiver => .lookUp receiver
    | .assign target value => do
      let v ← evaluate host n value
      .assign target v
      return v
    | .call callee paren arguments => do
      let f ← evaluate host n callee
      let args ← evaluateAll host n arguments
      call host n f paren args
    | .get object name => do
      match ← evaluate host n object with
      | .instanceRef receiver => .getProperty receiver name
      | _ => .fail name .noProperties
    | .set object name value => do
      match ← evaluate host n object with
      | .instanceRef receiver =>
        let v ← evaluate host n value
        .setProperty receiver name v
        return v
      | _ => .fail name .noFields
    | .parent keyword method => .getParentMethod keyword method
termination_by n => n

/-- The values of expressions, in order. -/
def evaluateAll (host : Host) : Nat → List Expr → Action (List Value)
  | 0, _ => throw .exhausted
  | _ + 1, [] => return []
  | n + 1, e :: rest => do
    let v ← evaluate host n e
    let vs ← evaluateAll host n rest
    return v :: vs
termination_by n => n

/-- Calls a value. -/
def call (host : Host) : Nat → Value → (paren : Token) → List Value → Action Value
  | 0, _, _, _ => throw .exhausted
  | n + 1, callee, paren, args =>
    match callee with
    | .function f => do
      .checkCount paren f.arity args.length
      invoke host n f paren args
    | .native f => do
      .checkCount paren f.arity args.length
      .callHost host f paren args
    | .classRef c => do
      .checkCount paren (c.arity initializerName) args.length
      let made ← .newInstance c
      match c.method? initializerName with
      | some method => do
        let initializer ← .bindMethod method made
        let _ ← invoke host n initializer paren args
        return .instanceRef made
      | none => return .instanceRef made
    | _ => .fail paren .notCallable
termination_by n => n

/-- Runs the body of a function in a new frame. -/
def invoke (host : Host) : Nat → Closure → (paren : Token) → List Value → Action Value
  | 0, _, _, _ => throw .exhausted
  | n + 1, f, paren, args => do
    let frame ← .newFrame (argumentBindings f.decl.params args) f.frame
    let completion ← .inFrame frame (executeAll host n f.decl.body)
    if f.isInitializer then
      .require paren .unboundInitializer ((← get).store.getAt? f.frame 0 "this")
    else
      return completion.value
termination_by n => n

/-- Runs a statement. The parts of a node are left the depth that the loop in terms of other
statements leaves to them, so that either both run out of depth or none does. -/
def execute (host : Host) : Nat → Stmt → Action Completion
  | 0, _ => throw .exhausted
  | n + 1, s =>
    match s.counting? with
    | some c => do
      let frame ← .newFrame ∅ (← get).active
      .inFrame frame do
        match c.initial with
        | some first =>
          match ← execute host (n - 1) first with
          | .returned v => return .returned v
          | .normal => executeCounting host (n - 3) c.condition c.step c.body
        | none => executeCounting host (n - 2) c.condition c.step c.body
    | none =>
      match s with
      | .expression value => do
        let _ ← evaluate host n value
        return .normal
      | .print value => do
        let v ← evaluate host n value
        .print v.text
        return .normal
      | .var name none => do
        .define name .null
        return .normal
      | .var name (some initial) => do
        let v ← evaluate host n initial
        .define name v
        return .normal
      | .block body => do
        let frame ← .newFrame ∅ (← get).active
        .inFrame frame (executeAll host n body)
      | .branch condition whenTrue whenFalse => do
        let v ← evaluate host n condition
        if v.isTruthy then execute host n whenTrue
        else match whenFalse with
        | some s => execute host n s
        | none => return .normal
      | .loop condition body => executeLoop host n condition body
      | .function decl => do
        let f ← .newClosure decl (← get).active false
        .define decl.name (.function f)
        return .normal
      | .giveBack _ none => return .returned .null
      | .giveBack _ (some value) => do
        let v ← evaluate host n value
        return .returned v
      | .classDecl name parent methods => do
        .declareClass name parent methods
        return .normal
termination_by n => n

/-- Runs statements in order, up to the first that returns. -/
def executeAll (host : Host) : Nat → List Stmt → Action Completion
  | 0, _ => throw .exhausted
  | _ + 1, [] => return .normal
  | n + 1, s :: rest => do
    match ← execute host n s with
    | .returned v => return .returned v
    | .normal => executeAll host n rest
termination_by n => n

/-- Runs a loop with one clause. -/
def executeLoop (host : Host) : Nat → Expr → Stmt → Action Completion
  | 0, _, _ => throw .exhausted
  | n + 1, condition, body => do
    let v ← evaluate host n condition
    if v.isTruthy then
      match ← execute host n body with
      | .returned v => return .returned v
      | .normal => executeLoop host n condition body
    else
      return .normal
termination_by n => n

/-- Runs a loop with three clauses behind its first clause, in the active frame: the condition
before each pass, if there is one, and the last clause, if there is one, after each pass that does
not return. -/
def executeCounting (host : Host) :
    Nat → (condition step : Option Expr) → (body : Stmt) → Action Completion
  | 0, _, _, _ => throw .exhausted
  | n + 1, condition, step, body => do
    let holds ← condition.elim (pure true) (Value.isTruthy <$> evaluate host n ·)
    if holds then
      match step with
      | some e =>
        match ← execute host (n - 2) body with
        | .returned v => return .returned v
        | .normal =>
          let _ ← evaluate host (n - 4) e
          executeCounting host n condition step body
      | none =>
        match ← execute host n body with
        | .returned v => return .returned v
        | .normal => executeCounting host n condition step body
    else
      return .normal
termination_by n => n

end

/-- One pass of a loop with three clauses: its body and, unless that returns, its last clause. -/
def pass (host : Host) (n : Nat) (step : Option Expr) (body : Stmt) : Action Completion :=
  match step with
  | some e => do
    match ← execute host (n - 2) body with
    | .returned v => return .returned v
    | .normal =>
      let _ ← evaluate host (n - 4) e
      return .normal
  | none => execute host n body

theorem pass_zero (host : Host) (step : Option Expr) (body : Stmt) :
    pass host 0 step body = throw .exhausted := by
  cases step with
  | none => rw [pass, execute]
  | some e =>
    rw [pass, execute]
    rfl

section
variable (host : Host) (n : Nat)

/-- A loop with three clauses goes through one pass after the other. -/
theorem executeCounting_succ (condition step : Option Expr) (body : Stmt) :
    executeCounting host (n + 1) condition step body = (do
      let holds ← condition.elim (pure true) (Value.isTruthy <$> evaluate host n ·)
      if holds then
        match ← pass host n step body with
        | .returned v => return .returned v
        | .normal => executeCounting host n condition step body
      else
        return .normal) := by
  rw [executeCounting.eq_def]
  refine congrArg (_ >>= ·) ?_
  funext holds
  cases holds with
  | false => rfl
  | true =>
    cases step with
    | none => rfl
    | some e =>
      simp only [pass, if_true, bind_assoc]
      congr 1
      funext completion
      cases completion <;> simp

theorem execute_node (c : Counting) : execute host (n + 1) c.node = (do
    let frame ← .newFrame ∅ (← get).active
    .inFrame frame do
      match c.initial with
      | some first =>
        match ← execute host (n - 1) first with
        | .returned v => return .returned v
        | .normal => executeCounting host (n - 3) c.condition c.step c.body
      | none => executeCounting host (n - 2) c.condition c.step c.body) := by
  rw [execute.eq_def]
  rfl

theorem execute_loop {condition : Expr} {body : Stmt} (h : body.declared? = none) :
    execute host (n + 1) (.loop condition body) = executeLoop host n condition body := by
  rw [execute.eq_def]
  simp only [Stmt.counting?_loop h]

end

/-- Runs the statements of a program in order. -/
def executeProgram (host : Host) (depth : Nat) : Program → Action Unit
  | [] => return ()
  | s :: rest => do
    let _ ← execute host depth s
    executeProgram host depth rest

/-- Runs a program and ends its output. -/
def interpret (host : Host) (depth : Nat) (program : Program) : Action Unit := do
  executeProgram host depth program
  .flush

end Treewalk.Direct

namespace Treewalk.Session

/-- Reads a program with nodes from a source text. -/
def parseDirect (s : Session) (source : String) : Except (List Diagnostic) Program × Session :=
  let parsed := parseWith Counting.node (Source.tokens source) (Source.endMark source) s.nextId
  let faults := Source.faults source ++ parsed.faults
  (if faults.isEmpty then .ok parsed.program else .error faults, { s with nextId := parsed.nextId })

/-- Runs a source text to a depth, with nodes for its loops with three clauses. -/
def runDirectWithin (depth : Nat) (host : Host) (s : Session) (source : String) :
    Report × Session :=
  match s.parseDirect source with
  | (.error faults, s) => (⟨faults, none⟩, s)
  | (.ok program, s) =>
    let findings := Direct.allFindings .outermost program
    match misuses findings with
    | [] =>
      match (s.adopt findings).perform (Direct.interpret host depth program) with
      | (.ok _, s) => (⟨[], none⟩, s)
      | (.error halt, s) => (⟨[], some halt⟩, s)
    | faults => (⟨faults, none⟩, s)

end Treewalk.Session
