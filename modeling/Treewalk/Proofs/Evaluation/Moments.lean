import Treewalk.Proofs.Resolution.Visits
import Treewalk.Session

/-! The moments of a run. A task is one of the things that the evaluator does: it evaluates an
expression, writes to a variable, runs a statement, enters the body of a function, binds a method.
`Starts` lists which task begins which other one, and with which machine; the tasks that a task
begins, directly or through others, are the moments within it. -/

namespace Treewalk

/-- What the evaluator may be doing. -/
inductive Task
  | expression (e : Expr)
  | expressions (es : List Expr)
  | call (callee : Value) (paren : Token) (args : List Value)
  | invoke (f : Closure) (paren : Token) (args : List Value)
  | bind (method : Closure) (receiver : Instance)
  | write (target : Reference) (value : Expr) (v : Value)
  | statement (s : Stmt)
  | statements (ss : List Stmt)
  | loop (condition : Expr) (body : Stmt)

namespace Task

/-- Within the depth `n + 1`, the first task begins the second one with the second machine. What
comes before a task in the same one has been done, within the depth `n`. -/
inductive Starts (host : Host) (n : Nat) : Task → Machine → Task → Machine → Prop
  | grouping {e m} : Starts host n (.expression (.grouping e)) m (.expression e) m
  | operand {op e m} : Starts host n (.expression (.unary op e)) m (.expression e) m
  | left {l op r m} : Starts host n (.expression (.binary l op r)) m (.expression l) m
  | right {l op r m a m'} : evaluate host n l m = .ok a m' →
    Starts host n (.expression (.binary l op r)) m (.expression r) m'
  | decider {l op r m} : Starts host n (.expression (.logical l op r)) m (.expression l) m
  | decided {l op r m a m'} : evaluate host n l m = .ok a m' → a.decides op.terminal = false →
    Starts host n (.expression (.logical l op r)) m (.expression r) m'
  | assigned {ref e m} : Starts host n (.expression (.assign ref e)) m (.expression e) m
  | write {ref e m v m'} : evaluate host n e m = .ok v m' →
    Starts host n (.expression (.assign ref e)) m (.write ref e v) m'
  | callee {e paren es m} : Starts host n (.expression (.call e paren es)) m (.expression e) m
  | arguments {e paren es m f m'} : evaluate host n e m = .ok f m' →
    Starts host n (.expression (.call e paren es)) m (.expressions es) m'
  | call {e paren es m f m' args m''} : evaluate host n e m = .ok f m' →
    evaluateAll host n es m' = .ok args m'' →
    Starts host n (.expression (.call e paren es)) m (.call f paren args) m''
  | object {e name m} : Starts host n (.expression (.get e name)) m (.expression e) m
  | property {e name m i m' f} : evaluate host n e m = .ok (.instanceRef i) m' →
    m'.store.field? i.identity name.lexeme = none → i.ofClass.method? name.lexeme = some f →
    Starts host n (.expression (.get e name)) m (.bind f i) m'
  | changed {e name v m} : Starts host n (.expression (.set e name v)) m (.expression e) m
  | change {e name v m i m'} : evaluate host n e m = .ok (.instanceRef i) m' →
    Starts host n (.expression (.set e name v)) m (.expression v) m'
  | parentMethod {ref method m d c i f} : m.distances[ref.id]? = some (d + 1) →
    m.store.getAt? m.active (d + 1) "parent" = some (.classRef c) →
    m.store.getAt? m.active d "this" = some (.instanceRef i) →
    c.method? method.lexeme = some f →
    Starts host n (.expression (.parent ref method)) m (.bind f i) m
  | firstArgument {e rest m} : Starts host n (.expressions (e :: rest)) m (.expression e) m
  | otherArguments {e rest m v m'} : evaluate host n e m = .ok v m' →
    Starts host n (.expressions (e :: rest)) m (.expressions rest) m'
  | invoke {f paren args m} : args.length = f.arity →
    Starts host n (.call (.function f) paren args) m (.invoke f paren args) m
  | bind {c paren args m i m' f} : args.length = c.arity initializerName →
    Action.newInstance c m = .ok i m' → c.method? initializerName = some f →
    Starts host n (.call (.classRef c) paren args) m (.bind f i) m'
  | initializer {c paren args m i m' f g m''} : args.length = c.arity initializerName →
    Action.newInstance c m = .ok i m' → c.method? initializerName = some f →
    Action.bindMethod f i m' = .ok g m'' →
    Starts host n (.call (.classRef c) paren args) m (.invoke g paren args) m''
  | body {f paren args m frame m'} :
    Action.newFrame (argumentBindings f.decl.params args) f.frame m = .ok frame m' →
    Starts host n (.invoke f paren args) m (.statements f.decl.body) { m' with active := frame }
  | value {e m} : Starts host n (.statement (.expression e)) m (.expression e) m
  | printed {e m} : Starts host n (.statement (.print e)) m (.expression e) m
  | initial {name e m} : Starts host n (.statement (.var name (some e))) m (.expression e) m
  | block {ss m frame m'} : Action.newFrame ∅ m.active m = .ok frame m' →
    Starts host n (.statement (.block ss)) m (.statements ss) { m' with active := frame }
  | condition {e s other m} :
    Starts host n (.statement (.branch e s other)) m (.expression e) m
  | whenTrue {e s other m v m'} : evaluate host n e m = .ok v m' → v.isTruthy = true →
    Starts host n (.statement (.branch e s other)) m (.statement s) m'
  | whenFalse {e s other m v m'} : evaluate host n e m = .ok v m' → v.isTruthy = false →
    Starts host n (.statement (.branch e s (some other))) m (.statement other) m'
  | loop {e s m} : Starts host n (.statement (.loop e s)) m (.loop e s) m
  | givenBack {word e m} : Starts host n (.statement (.giveBack word (some e))) m (.expression e) m
  | heritage {name ref methods m} :
    Starts host n (.statement (.classDecl name (some ref) methods)) m (.expression (.variable ref)) m
  | first {s rest m} : Starts host n (.statements (s :: rest)) m (.statement s) m
  | rest {s rest m m'} : execute host n s m = .ok .normal m' →
    Starts host n (.statements (s :: rest)) m (.statements rest) m'
  | loopCondition {e s m} : Starts host n (.loop e s) m (.expression e) m
  | loopBody {e s m v m'} : evaluate host n e m = .ok v m' → v.isTruthy = true →
    Starts host n (.loop e s) m (.statement s) m'
  | again {e s m v m' m''} : evaluate host n e m = .ok v m' → v.isTruthy = true →
    execute host n s m' = .ok .normal m'' → Starts host n (.loop e s) m (.loop e s) m''

/-- A task that runs statements in a frame of its own: the execution of a block, or the call of a
function. -/
def Enters : Task → Prop
  | statement (.block _) | invoke .. => True
  | _ => False

/-- The moments within a task that is done within a depth. -/
inductive Within (host : Host) : Nat → Task → Machine → Task → Machine → Prop
  | self {n t m} : Within host n t m t m
  | step {n t m t₁ m₁ t₂ m₂} : Starts host n t m t₁ m₁ → Within host n t₁ m₁ t₂ m₂ →
    Within host (n + 1) t m t₂ m₂

/-- The moments within a task that is done within a depth, with the depth that is left at each. -/
inductive Reaches (host : Host) : Nat → Task → Machine → Nat → Task → Machine → Prop
  | self {n t m} : Reaches host n t m n t m
  | step {n t m t₁ m₁ k t₂ m₂} : Starts host n t m t₁ m₁ → Reaches host n t₁ m₁ k t₂ m₂ →
    Reaches host (n + 1) t m k t₂ m₂

theorem Reaches.within {host : Host} {n k : Nat} {t t' : Task} {m m' : Machine}
    (h : Reaches host n t m k t' m') : Within host n t m t' m' := by
  induction h with
  | self => exact .self
  | step hstart _ ih => exact .step hstart ih

theorem Within.reaches {host : Host} {n : Nat} {t t' : Task} {m m' : Machine}
    (h : Within host n t m t' m') : ∃ k, Reaches host n t m k t' m' := by
  induction h with
  | self => exact ⟨_, .self⟩
  | step hstart _ ih =>
    obtain ⟨k, hreaches⟩ := ih
    exact ⟨k, .step hstart hreaches⟩

/-- The frame that a task makes itself. A block makes it, a call, a bound method, and a class that
is declared under a parent. -/
inductive Makes : Task → Machine → Opening → Prop
  | block {ss m} : Makes (.statement (.block ss)) m (.block ss)
  | call {f paren args m} : Makes (.invoke f paren args) m (.function f.decl)
  | bind {f i m methods} : f.decl ∈ methods → Makes (.bind f i) m (.receiver methods)
  | subclass {name ref methods m c} : m.value? ref = some (.classRef c) →
    Makes (.statement (.classDecl name (some ref) methods)) m (.parent ref methods)

/-- The frame that a task makes itself when this depth is left: without any depth, nothing but a bound
method makes one. -/
inductive MakesWithin : Nat → Task → Machine → Opening → Prop
  | bind {k f i m methods} : f.decl ∈ methods → MakesWithin k (.bind f i) m (.receiver methods)
  | deeper {k t m o} : Makes t m o → MakesWithin (k + 1) t m o

theorem MakesWithin.makes {k : Nat} {t : Task} {m : Machine} {o : Opening}
    (h : MakesWithin k t m o) : Makes t m o := by
  cases h with
  | bind hdecl => exact .bind hdecl
  | deeper hmakes => exact hmakes

end Task

end Treewalk
