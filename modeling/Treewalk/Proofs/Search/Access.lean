import Treewalk.Proofs.Evaluation.Preservation
import Treewalk.Proofs.Evaluation.Story
import Treewalk.Proofs.Session.History

/-! Evaluation with another way to find names. The evaluator is repeated with the reading of variables
and of `this`, and the writing to variables, left open; everything else is as it is. If at every moment
of a run the other way finds what the evaluator finds, then the runs are the same. -/

namespace Treewalk

/-- A way to find names: the value of an occurrence that is read, and the frame of one that is written
to. -/
structure Access where
  value? : Machine → Reference → Option Value
  target? : Machine → Reference → Option FrameId

namespace Access

/-- Local names are found at their distance, and all others among the globals. -/
def byDistance : Access := ⟨Machine.value?, Machine.target?⟩

/-- All names are searched for from the active frame outward. -/
def bySearch : Access where
  value? m ref := m.store.get? m.active ref.name.lexeme
  target? m ref := m.store.holder? m.active ref.name.lexeme

/-- Reads an occurrence. -/
def lookUp (access : Access) (ref : Reference) : Action Value := do
  .require ref.name (.undefinedVariable ref.name.lexeme) (access.value? (← get) ref)

/-- Writes to an occurrence. -/
def assign (access : Access) (ref : Reference) (v : Value) : Action Unit := do
  .write (access.target? (← get) ref) ref.name v

/-- The class that an occurrence names as the parent of another one. -/
def parentClass (access : Access) : Option Reference → Action (Option Class)
  | none => return none
  | some ref => do
    match ← access.lookUp ref with
    | .classRef c => return some c
    | _ => .fail ref.name .parentNotClass

/-- Declares a class. -/
def declareClass (access : Access) (name : Token) (parent : Option Reference)
    (methods : List FunctionDecl) : Action Unit := do
  let parent ← access.parentClass parent
  .define name .null
  let frame := (← get).active
  let methods ← Action.newMethods (← Action.methodFrame parent frame) methods
  let own := ⟨← .newIdentity, name.lexeme, methods⟩
  .write ((← get).store.holder? frame name.lexeme) name (.classRef (.extend parent own))

mutual

/-- The value of an expression, its names being found by `access`. -/
def evaluate (access : Access) (host : Host) : Nat → Expr → Action Value
  | 0, _ => throw .exhausted
  | n + 1, e =>
    match e with
    | .literal value => return .ofLiteral value
    | .grouping inner => evaluate access host n inner
    | .unary operator operand => do
      let v ← evaluate access host n operand
      .lift operator (v.unary operator.terminal)
    | .binary left operator right => do
      let a ← evaluate access host n left
      let b ← evaluate access host n right
      .lift operator (a.binary operator.terminal b)
    | .logical left operator right => do
      let a ← evaluate access host n left
      if a.decides operator.terminal then return a else evaluate access host n right
    | .variable target => access.lookUp target
    | .this receiver => access.lookUp receiver
    | .assign target value => do
      let v ← evaluate access host n value
      access.assign target v
      return v
    | .call callee paren arguments => do
      let f ← evaluate access host n callee
      let args ← evaluateAll access host n arguments
      call access host n f paren args
    | .get object name => do
      match ← evaluate access host n object with
      | .instanceRef receiver => .getProperty receiver name
      | _ => .fail name .noProperties
    | .set object name value => do
      match ← evaluate access host n object with
      | .instanceRef receiver =>
        let v ← evaluate access host n value
        .setProperty receiver name v
        return v
      | _ => .fail name .noFields
    | .parent keyword method => .getParentMethod keyword method

def evaluateAll (access : Access) (host : Host) : Nat → List Expr → Action (List Value)
  | 0, _ => throw .exhausted
  | _ + 1, [] => return []
  | n + 1, e :: rest => do
    let v ← evaluate access host n e
    let vs ← evaluateAll access host n rest
    return v :: vs

def call (access : Access) (host : Host) : Nat → Value → (paren : Token) → List Value → Action Value
  | 0, _, _, _ => throw .exhausted
  | n + 1, callee, paren, args =>
    match callee with
    | .function f => do
      .checkCount paren f.arity args.length
      invoke access host n f paren args
    | .native f => do
      .checkCount paren f.arity args.length
      .callHost host f paren args
    | .classRef c => do
      .checkCount paren (c.arity initializerName) args.length
      let made ← .newInstance c
      match c.method? initializerName with
      | some method => do
        let initializer ← .bindMethod method made
        let _ ← invoke access host n initializer paren args
        return .instanceRef made
      | none => return .instanceRef made
    | _ => .fail paren .notCallable

def invoke (access : Access) (host : Host) : Nat → Closure → (paren : Token) → List Value → Action Value
  | 0, _, _, _ => throw .exhausted
  | n + 1, f, paren, args => do
    let frame ← .newFrame (argumentBindings f.decl.params args) f.frame
    let completion ← .inFrame frame (executeAll access host n f.decl.body)
    if f.isInitializer then
      .require paren .unboundInitializer ((← get).store.getAt? f.frame 0 "this")
    else
      return completion.value

/-- Runs a statement, its names being found by `access`. -/
def execute (access : Access) (host : Host) : Nat → Stmt → Action Completion
  | 0, _ => throw .exhausted
  | n + 1, s =>
    match s with
    | .expression value => do
      let _ ← evaluate access host n value
      return .normal
    | .print value => do
      let v ← evaluate access host n value
      .print v.text
      return .normal
    | .var name none => do
      .define name .null
      return .normal
    | .var name (some initial) => do
      let v ← evaluate access host n initial
      .define name v
      return .normal
    | .block body => do
      let frame ← .newFrame ∅ (← get).active
      .inFrame frame (executeAll access host n body)
    | .branch condition whenTrue whenFalse => do
      let v ← evaluate access host n condition
      if v.isTruthy then execute access host n whenTrue
      else match whenFalse with
      | some s => execute access host n s
      | none => return .normal
    | .loop condition body => executeLoop access host n condition body
    | .function decl => do
      let f ← .newClosure decl (← get).active false
      .define decl.name (.function f)
      return .normal
    | .giveBack _ none => return .returned .null
    | .giveBack _ (some value) => do
      let v ← evaluate access host n value
      return .returned v
    | .classDecl name parent methods => do
      access.declareClass name parent methods
      return .normal

def executeAll (access : Access) (host : Host) : Nat → List Stmt → Action Completion
  | 0, _ => throw .exhausted
  | _ + 1, [] => return .normal
  | n + 1, s :: rest => do
    match ← execute access host n s with
    | .returned v => return .returned v
    | .normal => executeAll access host n rest

def executeLoop (access : Access) (host : Host) : Nat → Expr → Stmt → Action Completion
  | 0, _, _ => throw .exhausted
  | n + 1, condition, body => do
    let v ← evaluate access host n condition
    if v.isTruthy then
      match ← execute access host n body with
      | .returned v => return .returned v
      | .normal => executeLoop access host n condition body
    else
      return .normal

end

/-- Runs the statements of a program in order. -/
def executeProgram (access : Access) (host : Host) (depth : Nat) : Program → Action Unit
  | [] => return ()
  | s :: rest => do
    let _ ← execute access host depth s
    executeProgram access host depth rest

/-- Runs a program and ends its output. -/
def interpret (access : Access) (host : Host) (depth : Nat) (program : Program) : Action Unit := do
  executeProgram access host depth program
  .flush

/-- What is done in a task, within a depth. -/
def action (access : Access) (host : Host) (n : Nat) : (t : Task) → Action t.Result
  | .expression e => evaluate access host n e
  | .expressions es => evaluateAll access host n es
  | .call f paren args => call access host n f paren args
  | .invoke f paren args => invoke access host n f paren args
  | .bind f i => .bindMethod f i
  | .write ref _ v => access.assign ref v
  | .statement s => execute access host n s
  | .statements ss => executeAll access host n ss
  | .loop condition body => executeLoop access host n condition body

/-- What a task finds itself is what the evaluator finds. -/
def AgreesAt (access : Access) (m : Machine) : Task → Prop
  | .expression (.variable ref) | .expression (.this ref) => access.value? m ref = m.value? ref
  | .write ref _ _ => access.target? m ref = m.target? ref
  | _ => True

theorem agreesAt_byDistance (t : Task) (m : Machine) : byDistance.AgreesAt m t := by
  unfold AgreesAt
  split
  · rfl
  · rfl
  · rfl
  · trivial

/-- At every moment within a task the evaluator's findings are those of the other way. -/
def Agrees (access : Access) (host : Host) (n : Nat) (t : Task) (m : Machine) : Prop :=
  ∀ t' m', Task.Within host n t m t' m' → access.AgreesAt m' t'

section
variable {access : Access} {host : Host} {n : Nat} {t t' : Task} {m m' : Machine}

theorem Agrees.here (h : access.Agrees host n t m) : access.AgreesAt m t := h t m .self

theorem Agrees.start (h : access.Agrees host (n + 1) t m) (hstart : Task.Starts host n t m t' m') :
    access.Agrees host n t' m' :=
  fun t'' m'' hwithin => h t'' m'' (.step hstart hwithin)

theorem inFrame_eq {α : Type} {frame : FrameId} {x y : Action α}
    (h : x { m with active := frame } = y { m with active := frame }) :
    Action.inFrame frame x m = Action.inFrame frame y m := by
  unfold Action.inFrame
  dsimp only
  rw [h]

theorem lookUp_eq {ref : Reference} (h : access.value? m ref = m.value? ref) :
    access.lookUp ref m = Action.lookUp ref m := by
  show Action.require ref.name _ (access.value? m ref) m = Action.require ref.name _ (m.value? ref) m
  rw [h]

theorem assign_eq {ref : Reference} {v : Value} (h : access.target? m ref = m.target? ref) :
    access.assign ref v m = Action.assign ref v m := by
  show Action.write (access.target? m ref) ref.name v m = Action.write (m.target? ref) ref.name v m
  rw [h]

theorem declareClass_eq {name : Token} {parent : Option Reference} {methods : List FunctionDecl}
    (h : ∀ ref ∈ parent, access.value? m ref = m.value? ref) :
    access.declareClass name parent methods m = Action.declareClass name parent methods m := by
  refine bind_eq_bind ?_ fun _ _ _ => rfl
  cases parent with
  | none => rfl
  | some ref => exact bind_eq_bind (lookUp_eq (h ref rfl)) fun _ _ _ => rfl

/-- Within the depth `n`, the runs of a task are the same at all machines where the findings are. -/
def SameWithin (access : Access) (host : Host) (n : Nat) : Prop :=
  ∀ t m, access.Agrees host n t m → access.action host n t m = t.action host n m

theorem action_expression (ih : access.SameWithin host n) (e : Expr)
    (h : access.Agrees host (n + 1) (.expression e) m) :
    access.evaluate host (n + 1) e m = Treewalk.evaluate host (n + 1) e m := by
  have hsub {e' : Expr} {m' : Machine}
      (hstart : Task.Starts host n (.expression e) m (.expression e') m') :
      access.evaluate host n e' m' = Treewalk.evaluate host n e' m' :=
    ih (.expression e') m' (h.start hstart)
  match e with
  | .literal _ =>
    rw [evaluate, Treewalk.evaluate]
  | .grouping inner =>
    rw [evaluate, Treewalk.evaluate]
    exact hsub .grouping
  | .unary op operand =>
    rw [evaluate, Treewalk.evaluate]
    exact bind_eq_bind (hsub .operand) fun _ _ _ => rfl
  | .binary left op right =>
    rw [evaluate, Treewalk.evaluate]
    exact bind_eq_bind (hsub .left) fun a m₁ hleft =>
      bind_eq_bind (hsub (.right hleft)) fun _ _ _ => rfl
  | .logical left op right =>
    rw [evaluate, Treewalk.evaluate]
    refine bind_eq_bind (hsub .decider) fun a m₁ hleft => ?_
    cases hdecides : a.decides op.terminal with
    | true => rfl
    | false => exact hsub (.decided hleft hdecides)
  | .variable target =>
    rw [evaluate, Treewalk.evaluate]
    exact lookUp_eq h.here
  | .this receiver =>
    rw [evaluate, Treewalk.evaluate]
    exact lookUp_eq h.here
  | .assign target value =>
    rw [evaluate, Treewalk.evaluate]
    refine bind_eq_bind (hsub .assigned) fun v m₁ hvalue => ?_
    exact bind_eq_bind (assign_eq (h.start (.write hvalue)).here) fun _ _ _ => rfl
  | .call callee paren arguments =>
    rw [evaluate, Treewalk.evaluate]
    refine bind_eq_bind (hsub .callee) fun f m₁ hcallee => ?_
    refine bind_eq_bind (ih (.expressions arguments) m₁ (h.start (.arguments hcallee)))
      fun args m₂ harguments => ?_
    exact ih (.call f paren args) m₂ (h.start (.call hcallee harguments))
  | .get object name =>
    rw [evaluate, Treewalk.evaluate]
    exact bind_eq_bind (hsub .object) fun _ _ _ => rfl
  | .set object name value =>
    rw [evaluate, Treewalk.evaluate]
    refine bind_eq_bind (hsub .changed) fun v m₁ hobject => ?_
    cases v with
    | instanceRef i => exact bind_eq_bind (hsub (.change hobject)) fun _ _ _ => rfl
    | _ => rfl
  | .parent keyword method => rw [evaluate, Treewalk.evaluate]

theorem action_expressions (ih : access.SameWithin host n) (es : List Expr)
    (h : access.Agrees host (n + 1) (.expressions es) m) :
    access.evaluateAll host (n + 1) es m = Treewalk.evaluateAll host (n + 1) es m := by
  cases es with
  | nil => rw [evaluateAll, Treewalk.evaluateAll]
  | cons e rest =>
    rw [evaluateAll, Treewalk.evaluateAll]
    refine bind_eq_bind (ih (.expression e) m (h.start .firstArgument)) fun v m₁ hfirst => ?_
    exact bind_eq_bind (ih (.expressions rest) m₁ (h.start (.otherArguments hfirst))) fun _ _ _ => rfl

theorem action_call (ih : access.SameWithin host n) (f : Value) (paren : Token) (args : List Value)
    (h : access.Agrees host (n + 1) (.call f paren args) m) :
    access.call host (n + 1) f paren args m = Treewalk.call host (n + 1) f paren args m := by
  cases f with
  | function f =>
    rw [call, Treewalk.call]
    refine bind_eq_bind rfl fun _ m₁ hcount => ?_
    obtain ⟨hlength, rfl⟩ := Task.checkCount_eq_ok hcount
    exact ih (.invoke f paren args) _ (h.start (.invoke hlength))
  | native f => rw [call, Treewalk.call]
  | classRef c =>
    rw [call, Treewalk.call]
    refine bind_eq_bind rfl fun _ m₁ hcount => ?_
    obtain ⟨hlength, rfl⟩ := Task.checkCount_eq_ok hcount
    refine bind_eq_bind rfl fun i m₂ hmade => ?_
    cases hmethod : c.method? initializerName with
    | none => rfl
    | some method =>
      refine bind_eq_bind rfl fun g m₃ hbind => ?_
      exact bind_eq_bind (ih (.invoke g paren args) m₃
        (h.start (.initializer hlength hmade hmethod hbind))) fun _ _ _ => rfl
  | _ =>
    rw [call, Treewalk.call]
    all_goals
      intros
      contradiction

theorem action_invoke (ih : access.SameWithin host n) (f : Closure) (paren : Token)
    (args : List Value) (h : access.Agrees host (n + 1) (.invoke f paren args) m) :
    access.invoke host (n + 1) f paren args m = Treewalk.invoke host (n + 1) f paren args m := by
  rw [invoke, Treewalk.invoke]
  refine bind_eq_bind rfl fun frame m₁ hframe => ?_
  have hbody := ih (.statements f.decl.body) _ (h.start (.body hframe))
  refine bind_eq_bind (inFrame_eq hbody) fun _ _ _ => rfl

theorem action_statement (ih : access.SameWithin host n) (s : Stmt)
    (h : access.Agrees host (n + 1) (.statement s) m) :
    access.execute host (n + 1) s m = Treewalk.execute host (n + 1) s m := by
  have hsub {e : Expr} {m' : Machine}
      (hstart : Task.Starts host n (.statement s) m (.expression e) m') :
      access.evaluate host n e m' = Treewalk.evaluate host n e m' :=
    ih (.expression e) m' (h.start hstart)
  cases s with
  | expression value =>
    rw [execute, Treewalk.execute]
    exact bind_eq_bind (hsub .value) fun _ _ _ => rfl
  | print value =>
    rw [execute, Treewalk.execute]
    exact bind_eq_bind (hsub .printed) fun _ _ _ => rfl
  | var name initial =>
    cases initial with
    | none => rw [execute, Treewalk.execute]
    | some e =>
      rw [execute, Treewalk.execute]
      exact bind_eq_bind (hsub .initial) fun _ _ _ => rfl
  | block body =>
    rw [execute, Treewalk.execute]
    refine bind_eq_bind rfl fun m' m₁ hget => ?_
    cases hget
    refine bind_eq_bind rfl fun frame m₁ hframe => ?_
    exact inFrame_eq (ih (.statements body) _ (h.start (.block hframe)))
  | branch condition whenTrue whenFalse =>
    rw [execute.eq_def, Treewalk.execute.eq_def]
    refine bind_eq_bind (hsub .condition) fun v m₁ hcondition => ?_
    cases hv : v.isTruthy with
    | true => exact ih (.statement whenTrue) m₁ (h.start (.whenTrue hcondition hv))
    | false =>
      cases whenFalse with
      | none => rfl
      | some s => exact ih (.statement s) m₁ (h.start (.whenFalse hcondition hv))
  | loop condition body =>
    rw [execute, Treewalk.execute]
    exact ih (.loop condition body) m (h.start .loop)
  | function decl => rw [execute, Treewalk.execute]
  | giveBack keyword value =>
    cases value with
    | none => rw [execute, Treewalk.execute]
    | some e =>
      rw [execute, Treewalk.execute]
      exact bind_eq_bind (hsub .givenBack) fun _ _ _ => rfl
  | classDecl name parent methods =>
    rw [execute, Treewalk.execute]
    refine bind_eq_bind (declareClass_eq fun ref href => ?_) fun _ _ _ => rfl
    cases href
    exact (h.start .heritage).here

theorem action_statements (ih : access.SameWithin host n) (ss : List Stmt)
    (h : access.Agrees host (n + 1) (.statements ss) m) :
    access.executeAll host (n + 1) ss m = Treewalk.executeAll host (n + 1) ss m := by
  cases ss with
  | nil => rw [executeAll, Treewalk.executeAll]
  | cons s rest =>
    rw [executeAll, Treewalk.executeAll]
    refine bind_eq_bind (ih (.statement s) m (h.start .first)) fun c m₁ hfirst => ?_
    cases c with
    | returned v => rfl
    | normal => exact ih (.statements rest) m₁ (h.start (.rest hfirst))

theorem action_loop (ih : access.SameWithin host n) (condition : Expr) (body : Stmt)
    (h : access.Agrees host (n + 1) (.loop condition body) m) :
    access.executeLoop host (n + 1) condition body m =
      Treewalk.executeLoop host (n + 1) condition body m := by
  rw [executeLoop, Treewalk.executeLoop]
  refine bind_eq_bind (ih (.expression condition) m (h.start .loopCondition)) fun v m₁ hcondition => ?_
  cases hv : v.isTruthy with
  | false => rfl
  | true =>
    refine bind_eq_bind (ih (.statement body) m₁ (h.start (.loopBody hcondition hv)))
      fun c m₂ hbody => ?_
    cases c with
    | returned v => rfl
    | normal => exact ih (.loop condition body) m₂ (h.start (.again hcondition hv hbody))

/-- Where a task finds what the evaluator finds, at all of its moments, it runs as there. -/
theorem same_within (access : Access) (host : Host) (n : Nat) : access.SameWithin host n := by
  induction n with
  | zero =>
    intro t m h
    cases t with
    | expression e => rw [action, Task.action, evaluate, Treewalk.evaluate]
    | expressions es => rw [action, Task.action, evaluateAll, Treewalk.evaluateAll]
    | call f paren args => rw [action, Task.action, call, Treewalk.call]
    | invoke f paren args => rw [action, Task.action, invoke, Treewalk.invoke]
    | bind f i => rfl
    | write ref value v => exact assign_eq h.here
    | statement s => rw [action, Task.action, execute, Treewalk.execute]
    | statements ss => rw [action, Task.action, executeAll, Treewalk.executeAll]
    | loop condition body => rw [action, Task.action, executeLoop, Treewalk.executeLoop]
  | succ n ih =>
    intro t m h
    cases t with
    | expression e => exact action_expression ih e h
    | expressions es => exact action_expressions ih es h
    | call f paren args => exact action_call ih f paren args h
    | invoke f paren args => exact action_invoke ih f paren args h
    | bind f i => rfl
    | write ref value v => exact assign_eq h.here
    | statement s => exact action_statement ih s h
    | statements ss => exact action_statements ih ss h
    | loop condition body => exact action_loop ih condition body h

theorem executeProgram_eq {depth : Nat} {program : Program}
    (h : ∀ t m', program.Passes host depth m t m' → access.AgreesAt m' t) :
    access.executeProgram host depth program m = Treewalk.executeProgram host depth program m := by
  induction program generalizing m with
  | nil => rfl
  | cons s rest ih =>
    have hfirst : access.execute host depth s m = Treewalk.execute host depth s m :=
      same_within access host depth (.statement s) m fun t m' hwithin => h t m' (.first hwithin)
    exact bind_eq_bind hfirst fun c m₁ hrun => ih fun t m' hpasses => h t m' (.rest hrun hpasses)

/-- Where a program finds what the evaluator finds, at all moments of its run, it runs as there. -/
theorem interpret_eq {depth : Nat} {program : Program}
    (h : ∀ t m', program.Passes host depth m t m' → access.AgreesAt m' t) :
    access.interpret host depth program m = Treewalk.interpret host depth program m :=
  bind_eq_bind (executeProgram_eq h) fun _ _ _ => rfl

end

end Access

namespace Session

/-- Runs a source text to a depth, names being found by `access`. -/
def runWithinBy (access : Access) (depth : Nat) (host : Host) (s : Session) (source : String) :
    Report × Session :=
  match s.parse source with
  | (.error faults, s) => (⟨faults, none⟩, s)
  | (.ok program, s) =>
    let findings := program.findings
    match misuses findings with
    | [] =>
      match (s.adopt findings).perform (access.interpret host depth program) with
      | (.ok _, s) => (⟨[], none⟩, s)
      | (.error halt, s) => (⟨[], some halt⟩, s)
    | faults => (⟨faults, none⟩, s)

variable {s : Session} {access : Access} {depth : Nat} {host : Host} {source : String}

/-- A text runs as by the evaluator, if the program that it is accepted as does. -/
theorem runWithinBy_eq
    (h : ∀ program, s.accepted? source = some program →
      access.interpret host depth program (s.ready program) =
        Treewalk.interpret host depth program (s.ready program)) :
    s.runWithinBy access depth host source = s.runWithin depth host source := by
  unfold runWithinBy runWithin
  have hmachine : (s.parse source).2.machine = s.machine := rfl
  unfold accepted? at h
  cases hparse : s.parse source with
  | mk result s' =>
    rw [hparse] at h hmachine
    cases result with
    | error faults => rfl
    | ok program =>
      dsimp only at h hmachine ⊢
      cases hmisuses : misuses program.findings with
      | cons => rfl
      | nil =>
        dsimp only
        have hready : s.ready program = (s'.adopt program.findings).machine := by
          simp [ready, adopt, hmachine]
        have hrun := h program (by rw [hmisuses])
        rw [hready] at hrun
        unfold executeWithin perform EStateM.run
        rw [hrun]
        cases Treewalk.interpret host depth program (s'.adopt program.findings).machine <;> rfl

/-- Finding names by distance is what the evaluator does. -/
theorem runWithinBy_byDistance (s : Session) (depth : Nat) (host : Host) (source : String) :
    s.runWithinBy .byDistance depth host source = s.runWithin depth host source :=
  runWithinBy_eq fun _ _ => Access.interpret_eq fun t m _ => Access.agreesAt_byDistance t m

end Session

end Treewalk
