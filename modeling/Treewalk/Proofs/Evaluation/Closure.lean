import Treewalk.Evaluation
import Treewalk.Proofs.Run

/-! Closed properties. What holds of the elementary actions of the machine and is kept when actions are
put together holds of all that the evaluator does. -/

namespace Treewalk

/-- A property of actions that the elementary ones have, and that is kept when actions are put together.
An action may look at the machine, but for its sink. -/
structure Action.Closed (Q : {α : Type} → Action α → Prop) : Prop where
  pure : ∀ {α : Type} (a : α), Q (pure a : Action α)
  throw : ∀ {α : Type} (halt : Halt), Q (throw halt : Action α)
  bind : ∀ {α β : Type} {x : Action α} {f : α → Action β}, Q x → (∀ a, Q (f a)) → Q (x >>= f)
  get_bind : ∀ {α : Type} {f : Machine → Action α}, (∀ m sink, f { m with sink } = f m) →
    (∀ m, Q (f m)) → Q (get >>= f)
  inFrame : ∀ {α : Type} {x : Action α} (frame : FrameId), Q x → Q (inFrame frame x)
  newFrame : ∀ bindings enclosing, Q (newFrame bindings enclosing)
  newIdentity : Q newIdentity
  newInstance : ∀ c, Q (newInstance c)
  define : ∀ name v, Q (define name v)
  defineIn : ∀ frame name v,
    Q (modify fun m : Machine => { m with store := m.store.define frame name v } : Action Unit)
  setProperty : ∀ receiver name v, Q (setProperty receiver name v)
  nextTurn : Q (modifyGet fun m : Machine =>
    (m.hostCalls, { m with hostCalls := m.hostCalls + 1 }) : Action Nat)
  print : ∀ line, Q (print line)

namespace Action.Closed

variable {Q : {α : Type} → Action α → Prop} (h : Closed Q) {α : Type}
include h

theorem fail (token : Token) (fault : RuntimeFault) : Q (Action.fail token fault : Action α) :=
  h.throw _

theorem lift (token : Token) (result : Except RuntimeFault α) : Q (Action.lift token result) := by
  cases result with
  | ok a => exact h.pure a
  | error fault => exact h.fail token fault

theorem require (token : Token) (fault : RuntimeFault) (found : Option α) :
    Q (Action.require token fault found) := by
  cases found with
  | some a => exact h.pure a
  | none => exact h.fail token fault

theorem write (frame? : Option FrameId) (name : Token) (v : Value) :
    Q (Action.write frame? name v) :=
  h.bind (h.require _ _ _) fun _ => h.defineIn _ _ _

theorem lookUp (ref : Reference) : Q (Action.lookUp ref) :=
  h.get_bind (fun _ _ => rfl) fun _ => h.require _ _ _

theorem assign (ref : Reference) (v : Value) : Q (Action.assign ref v) :=
  h.get_bind (fun _ _ => rfl) fun _ => h.write _ _ _

theorem newClosure (decl : FunctionDecl) (frame : FrameId) (isInitializer : Bool) :
    Q (Action.newClosure decl frame isInitializer) :=
  h.bind h.newIdentity fun _ => h.pure _

theorem bindMethod (method : Closure) (receiver : Instance) :
    Q (Action.bindMethod method receiver) :=
  h.bind (h.newFrame _ _) fun _ => h.bind h.newIdentity fun _ => h.pure _

theorem callHost (host : Host) (native : Native) (paren : Token) (args : List Value) :
    Q (Action.callHost host native paren args) :=
  h.bind h.nextTurn fun _ => h.lift _ _

theorem getProperty (receiver : Instance) (name : Token) : Q (Action.getProperty receiver name) := by
  refine h.get_bind (fun _ _ => rfl) fun m => ?_
  split
  · exact h.pure _
  · exact h.bind (h.require _ _ _) fun _ => h.bind (h.bindMethod _ _) fun _ => h.pure _

theorem getParentMethod (keyword : Reference) (method : Token) :
    Q (Action.getParentMethod keyword method) := by
  refine h.get_bind (fun _ _ => rfl) fun m => h.bind (h.require _ _ _) fun d => ?_
  split
  · split
    · exact h.fail _ _
    · split
      · exact h.bind (h.require _ _ _) fun _ => h.bind (h.bindMethod _ _) fun _ => h.pure _
      · exact h.fail _ _
  · exact h.fail _ _

theorem methodFrame (parent : Option Class) (frame : FrameId) :
    Q (Action.methodFrame parent frame) := by
  cases parent with
  | some c => exact h.newFrame _ _
  | none => exact h.pure _

theorem newMethods (frame : FrameId) (decls : List FunctionDecl) :
    Q (Action.newMethods frame decls) := by
  induction decls with
  | nil => exact h.pure _
  | cons decl rest ih => exact h.bind (h.newClosure _ _ _) fun _ => h.bind ih fun _ => h.pure _

theorem parentClass (parent : Option Reference) : Q (Action.parentClass parent) := by
  cases parent with
  | none => exact h.pure _
  | some ref =>
    refine h.bind (h.lookUp ref) fun v => ?_
    split
    · exact h.pure _
    · exact h.fail _ _

theorem declareClass (name : Token) (parent : Option Reference) (methods : List FunctionDecl) :
    Q (Action.declareClass name parent methods) :=
  h.bind (h.parentClass _) fun _ => h.bind (h.define _ _) fun _ =>
    h.get_bind (fun _ _ => rfl) fun _ => h.bind (h.methodFrame _ _) fun _ =>
    h.bind (h.newMethods _ _) fun _ => h.bind h.newIdentity fun _ =>
    h.get_bind (fun _ _ => rfl) fun _ => h.write _ _ _

theorem checkCount (paren : Token) (expected given : Nat) :
    Q (Action.checkCount paren expected given) := by
  unfold Action.checkCount
  split
  · exact h.pure _
  · exact h.fail _ _

end Action.Closed

/-- All that the evaluator does within a depth has a property. -/
structure Evaluates (Q : {α : Type} → Action α → Prop) (host : Host) (n : Nat) : Prop where
  expression : ∀ e, Q (evaluate host n e)
  expressions : ∀ es, Q (evaluateAll host n es)
  call : ∀ f paren args, Q (call host n f paren args)
  invoke : ∀ f paren args, Q (invoke host n f paren args)
  statement : ∀ s, Q (execute host n s)
  statements : ∀ ss, Q (executeAll host n ss)
  loop : ∀ e s, Q (executeLoop host n e s)

namespace Evaluates

variable {Q : {α : Type} → Action α → Prop} {host : Host} {n : Nat} (hQ : Action.Closed Q)
  (h : Evaluates Q host n)
include hQ h

theorem evaluate_succ (e : Expr) : Q (evaluate host (n + 1) e) := by
  cases e with
  | literal => exact hQ.pure _
  | grouping inner => exact h.expression inner
  | unary => exact hQ.bind (h.expression _) fun _ => hQ.lift _ _
  | binary =>
    exact hQ.bind (h.expression _) fun _ => hQ.bind (h.expression _) fun _ => hQ.lift _ _
  | logical =>
    refine hQ.bind (h.expression _) fun a => ?_
    split
    · exact hQ.pure _
    · exact h.expression _
  | this => exact hQ.lookUp _
  | assign => exact hQ.bind (h.expression _) fun _ => hQ.bind (hQ.assign _ _) fun _ => hQ.pure _
  | call =>
    exact hQ.bind (h.expression _) fun _ => hQ.bind (h.expressions _) fun _ => h.call _ _ _
  | get =>
    refine hQ.bind (h.expression _) fun v => ?_
    split
    · exact hQ.getProperty _ _
    · exact hQ.fail _ _
  | set =>
    refine hQ.bind (h.expression _) fun v => ?_
    split
    · exact hQ.bind (h.expression _) fun _ => hQ.bind (hQ.setProperty _ _ _) fun _ => hQ.pure _
    · exact hQ.fail _ _
  | parent => exact hQ.getParentMethod _ _
  | _ => exact hQ.lookUp _

theorem evaluateAll_succ (es : List Expr) : Q (evaluateAll host (n + 1) es) := by
  cases es with
  | nil => exact hQ.pure _
  | cons e rest =>
    exact hQ.bind (h.expression e) fun _ => hQ.bind (h.expressions rest) fun _ => hQ.pure _

theorem call_succ (f : Value) (paren : Token) (args : List Value) :
    Q (Treewalk.call host (n + 1) f paren args) := by
  cases f with
  | function f => exact hQ.bind (hQ.checkCount _ _ _) fun _ => h.invoke _ _ _
  | native f => exact hQ.bind (hQ.checkCount _ _ _) fun _ => hQ.callHost _ _ _ _
  | classRef c =>
    refine hQ.bind (hQ.checkCount _ _ _) fun _ => hQ.bind (hQ.newInstance c) fun made => ?_
    split
    · exact hQ.bind (hQ.bindMethod _ _) fun _ => hQ.bind (h.invoke _ _ _) fun _ => hQ.pure _
    · exact hQ.pure _
  | _ => exact hQ.fail _ _

theorem invoke_succ (f : Closure) (paren : Token) (args : List Value) :
    Q (Treewalk.invoke host (n + 1) f paren args) := by
  refine hQ.bind (hQ.newFrame _ _) fun frame =>
    hQ.bind (hQ.inFrame frame (h.statements _)) fun c => ?_
  split
  · exact hQ.get_bind (fun _ _ => rfl) fun _ => hQ.require _ _ _
  · exact hQ.pure _

theorem execute_succ (s : Stmt) : Q (execute host (n + 1) s) := by
  cases s with
  | expression => exact hQ.bind (h.expression _) fun _ => hQ.pure _
  | print => exact hQ.bind (h.expression _) fun _ => hQ.bind (hQ.print _) fun _ => hQ.pure _
  | var name initial =>
    cases initial with
    | none => exact hQ.bind (hQ.define _ _) fun _ => hQ.pure _
    | some e => exact hQ.bind (h.expression _) fun _ => hQ.bind (hQ.define _ _) fun _ => hQ.pure _
  | block =>
    exact hQ.get_bind (fun _ _ => rfl) fun _ => hQ.bind (hQ.newFrame _ _) fun frame =>
      hQ.inFrame frame (h.statements _)
  | branch condition whenTrue whenFalse =>
    refine hQ.bind (h.expression _) fun v => ?_
    split
    · exact h.statement _
    · cases whenFalse with
      | some s => exact h.statement s
      | none => exact hQ.pure _
  | loop => exact h.loop _ _
  | function =>
    exact hQ.get_bind (fun _ _ => rfl) fun _ => hQ.bind (hQ.newClosure _ _ _) fun _ =>
      hQ.bind (hQ.define _ _) fun _ => hQ.pure _
  | giveBack keyword value =>
    cases value with
    | none => exact hQ.pure _
    | some e => exact hQ.bind (h.expression _) fun _ => hQ.pure _
  | classDecl => exact hQ.bind (hQ.declareClass _ _ _) fun _ => hQ.pure _

theorem executeAll_succ (ss : List Stmt) : Q (executeAll host (n + 1) ss) := by
  cases ss with
  | nil => exact hQ.pure _
  | cons s rest =>
    refine hQ.bind (h.statement s) fun c => ?_
    cases c with
    | normal => exact h.statements rest
    | returned v => exact hQ.pure _

theorem executeLoop_succ (e : Expr) (s : Stmt) : Q (executeLoop host (n + 1) e s) := by
  refine hQ.bind (h.expression e) fun v => ?_
  split
  · refine hQ.bind (h.statement s) fun c => ?_
    cases c with
    | normal => exact h.loop e s
    | returned v => exact hQ.pure _
  · exact hQ.pure _

end Evaluates

/-- Whatever the evaluator does, it has every closed property. -/
theorem Action.Closed.evaluates {Q : {α : Type} → Action α → Prop} (hQ : Closed Q) (host : Host)
    (n : Nat) : Evaluates Q host n := by
  induction n with
  | zero => constructor <;> intros <;> exact hQ.throw _
  | succ n ih =>
    exact ⟨ih.evaluate_succ hQ, ih.evaluateAll_succ hQ, ih.call_succ hQ, ih.invoke_succ hQ,
      ih.execute_succ hQ, ih.executeAll_succ hQ, ih.executeLoop_succ hQ⟩

/-- So does the run of a program, but for its last action. -/
theorem Action.Closed.executeProgram {Q : {α : Type} → Action α → Prop} (hQ : Closed Q) (host : Host)
    (depth : Nat) (p : Program) : Q (executeProgram host depth p) := by
  induction p with
  | nil => exact hQ.pure _
  | cons s rest ih => exact hQ.bind ((hQ.evaluates host depth).statement s) fun _ => ih

end Treewalk
