import Treewalk.Proofs.Direct.Actions
import Treewalk.Proofs.Direct.Running

/-! Runs with nodes and without. On machines of which one mirrors the other, what a task unfolds to
runs as the task does, to the same depth. The proof is by induction on the depth, one step for each
function of the evaluator; the parts of a node run several levels deeper than the node. -/

namespace Treewalk

/-- Bodies that are completed with nodes and without. -/
inductive Completion.Mirrors (W : Setting) (S : Seating) : Completion → Completion → Prop
  | normal : Mirrors W S .normal .normal
  | returned {v v'} : Value.Mirrors W S v v' → Mirrors W S (.returned v) (.returned v')

theorem Completion.Mirrors.value {W : Setting} {S : Seating} {c c' : Completion}
    (h : c.Mirrors W S c') : Value.Mirrors W S c.value c'.value := by
  cases h with
  | normal => exact .null
  | returned hv => exact hv

/-- What one pass of a loop with three clauses is in terms of other statements. -/
def Stmt.pass (step : Option Expr) (body : Stmt) : Stmt :=
  match step with
  | some e => .block [body, .expression e]
  | none => body

theorem Stmt.counting_eq (initial : Option Stmt) (condition step : Option Expr) (body : Stmt) :
    Stmt.counting initial condition step body =
      .block (initial.toList ++ [.loop (condition.getD (.literal (.bool true))) (.pass step body)]) :=
  rfl

/-- The clauses and the body of a loop are spelled if the loop is. -/
theorem Stmt.Spelled.of_counting {N : Token → Prop} {initial : Option Stmt}
    {condition step : Option Expr} {body : Stmt}
    (h : (Stmt.counting initial condition step body).Spelled N) :
    Stmt.AllSpelled N initial.toList ∧ Expr.AllSpelled N condition.toList ∧
      Expr.AllSpelled N step.toList ∧ body.Spelled N := by
  rw [Stmt.counting_eq, Stmt.Spelled, Stmt.allSpelled_append] at h
  obtain ⟨hinitial, ⟨hcondition, hpass, -⟩, -⟩ := h
  refine ⟨hinitial, ?_, ?_⟩
  · cases condition with
    | none => trivial
    | some e => exact ⟨hcondition, trivial⟩
  · cases step with
    | none => exact ⟨trivial, hpass⟩
    | some e => exact ⟨⟨hpass.2.1, trivial⟩, hpass.1⟩

/-! ### Depths

A block and a loop of the grammar take some levels of their own. Where there are too few of them, a
run is exhausted wherever it stops counting. -/

section
variable (host : Host) (n : Nat)

theorem executeAll_cons (s : Stmt) (rest : List Stmt) : executeAll host n (s :: rest) = (do
    match ← execute host (n - 1) s with
    | .returned v => return .returned v
    | .normal => executeAll host (n - 1) rest) := by
  cases n <;> rfl

theorem executeAll_single (s : Stmt) : executeAll host n [s] = execute host (n - 1) s := by
  cases n with
  | zero => rfl
  | succ n =>
    rw [executeAll_cons, Nat.add_sub_cancel]
    cases n with
    | zero => rfl
    | succ n =>
      refine Eq.trans (congrArg (_ >>= ·) (funext fun c => ?_)) (bind_pure _)
      cases c <;> rfl

theorem execute_loop (condition : Expr) (body : Stmt) :
    execute host n (.loop condition body) = executeLoop host (n - 1) condition body := by
  cases n <;> rfl

theorem execute_expression (e : Expr) : execute host n (.expression e) = (do
    let _ ← evaluate host (n - 1) e
    return .normal) := by
  cases n <;> rfl

end

/-- Within a depth, what tasks unfold to runs as the tasks do. -/
structure Unrolls (W : Setting) (host : Host) (n : Nat) : Prop where
  expression : ∀ {S : Seating} {π : Layers} {m m' : Machine} {e : Expr}, m.Mirrors W S π m' →
    (∀ id ∈ e.ids, W.Lies π id) → e.Spelled Token.IsName →
    Action.Mirrored W S π (Direct.evaluate host n e) (evaluate host n e) m m' (Value.Mirrors W)
  expressions : ∀ {S : Seating} {π : Layers} {m m' : Machine} {es : List Expr},
    m.Mirrors W S π m' → (∀ id ∈ Expr.allIds es, W.Lies π id) → Expr.AllSpelled Token.IsName es →
    Action.Mirrored W S π (Direct.evaluateAll host n es) (evaluateAll host n es) m m'
      fun S' => List.Forall₂ (Value.Mirrors W S')
  call : ∀ {S : Seating} {π : Layers} {m m' : Machine} {f f' : Value} {args args' : List Value},
    m.Mirrors W S π m' → Value.Mirrors W S f f' → List.Forall₂ (Value.Mirrors W S) args args' →
    ∀ paren : Token, Action.Mirrored W S π (Direct.call host n f paren args)
      (call host n f' paren args') m m' (Value.Mirrors W)
  invoke : ∀ {S : Seating} {π : Layers} {m m' : Machine} {f f' : Closure} {args args' : List Value},
    m.Mirrors W S π m' → f.Mirrors W S [] f' → List.Forall₂ (Value.Mirrors W S) args args' →
    ∀ paren : Token, Action.Mirrored W S π (Direct.invoke host n f paren args)
      (invoke host n f' paren args') m m' (Value.Mirrors W)
  statement : ∀ {S : Seating} {π : Layers} {m m' : Machine} {s s' : Stmt}, m.Mirrors W S π m' →
    s.Unfolds W.Lies π s' → s'.Spelled Token.IsName →
    Action.Mirrored W S π (Direct.execute host n s) (execute host n s') m m' (Completion.Mirrors W)
  statements : ∀ {S : Seating} {π : Layers} {m m' : Machine} {ss ss' : List Stmt},
    m.Mirrors W S π m' → Stmt.AllUnfold W.Lies π ss ss' → Stmt.AllSpelled Token.IsName ss' →
    Action.Mirrored W S π (Direct.executeAll host n ss) (executeAll host n ss') m m'
      (Completion.Mirrors W)
  loop : ∀ {S : Seating} {π : Layers} {m m' : Machine} {e : Expr} {s s' : Stmt},
    m.Mirrors W S π m' → (∀ id ∈ e.ids, W.Lies π id) → e.Spelled Token.IsName →
    s.Unfolds W.Lies π s' → s'.Spelled Token.IsName →
    Action.Mirrored W S π (Direct.executeLoop host n e s) (executeLoop host n e s') m m'
      (Completion.Mirrors W)
  passes : ∀ {S : Seating} {π : Layers} {m m' : Machine} {condition step : Option Expr}
    {s s' : Stmt}, m.Mirrors W S π m' →
    (∀ id ∈ Expr.allIds condition.toList, W.Lies π id) →
    Expr.AllSpelled Token.IsName condition.toList →
    s.Unfolds W.Lies (.around step π) s' → s'.Spelled Token.IsName →
    (∀ id ∈ Expr.allIds step.toList, W.Lies (.added :: π) id) →
    Expr.AllSpelled Token.IsName step.toList →
    Action.Mirrored W S π (Direct.executeCounting host n condition step s)
      (executeLoop host n (condition.getD (.literal (.bool true))) (.pass step s')) m m'
      (Completion.Mirrors W)

namespace Unrolls

open Treewalk.Action

variable {W : Setting} {host : Host} {n : Nat} {S : Seating} {π : Layers} {m m' : Machine}

theorem zero : Unrolls W host 0 := by
  -- Without levels every task is exhausted, whatever it is.
  refine ⟨?_, ?_, ?_, ?_, ?_, ?_, ?_, ?_⟩
  all_goals
    intros
    simp only [Direct.evaluate, Direct.evaluateAll, Direct.call, Direct.invoke, Direct.execute,
      Direct.executeAll, Direct.executeLoop, Direct.executeCounting]
    exact mirrored_throw ‹_› _

section
variable (ih : Unrolls W host n) (hm : m.Mirrors W S π m')
include ih hm

theorem step_expression {e : Expr} (hids : ∀ id ∈ e.ids, W.Lies π id)
    (hspelled : e.Spelled Token.IsName) :
    Mirrored W S π (Direct.evaluate host (n + 1) e) (evaluate host (n + 1) e) m m'
      (Value.Mirrors W) := by
  cases e with simp only [Direct.evaluate, evaluate]
  | literal value => exact .pure hm (.ofLiteral value)
  | grouping inner => exact ih.expression (e := inner) hm hids hspelled
  | unary op e =>
    refine (ih.expression (e := e) hm hids hspelled.2).bind ?_
    intro S₁ v v' m₁ m₁' _ hlater hv
    obtain ⟨hsame, hresult⟩ := hv.unary op.terminal
    rw [hsame]
    exact mirrored_lift hlater.mirrors op hresult
  | binary l op r =>
    rw [Expr.ids, List.forall_mem_append] at hids
    refine (ih.expression hm hids.1 hspelled.2.1).bind ?_
    intro S₁ a a' m₁ m₁' _ hlater ha
    refine (ih.expression hlater.mirrors hids.2 hspelled.2.2).bind ?_
    intro S₂ b b' m₂ m₂' _ hlater' hb
    obtain ⟨hsame, hresult⟩ :=
      (ha.mono hlater'.seating).binary Closure.indistinct_mirrors hb op.terminal
    rw [hsame]
    exact mirrored_lift hlater'.mirrors op hresult
  | logical l op r =>
    rw [Expr.ids, List.forall_mem_append] at hids
    refine (ih.expression hm hids.1 hspelled.1).bind ?_
    intro S₁ a a' m₁ m₁' _ hlater ha
    rw [ha.decides]
    cases hdecides : a.decides op.terminal with
    | true => exact .pure hlater.mirrors ha
    | false => exact ih.expression hlater.mirrors hids.2 hspelled.2
  | «variable» ref => exact mirrored_lookUp hm (hids ref.id (List.mem_singleton_self _))
  | this ref => exact mirrored_lookUp hm (hids ref.id (List.mem_singleton_self _))
  | assign ref e =>
    rw [Expr.ids, List.forall_mem_append] at hids
    refine (ih.expression hm hids.1 hspelled.2).bind ?_
    intro S₁ v v' m₁ m₁' _ hlater hv
    have href := hids.2 ref.id (List.mem_singleton_self _)
    refine (mirrored_assign hlater.mirrors href hspelled.1 hv).bind ?_
    intro S₂ _ _ m₂ m₂' _ hlater' _
    exact .pure hlater'.mirrors (hv.mono hlater'.seating)
  | call callee paren args =>
    rw [Expr.ids, List.forall_mem_append] at hids
    refine (ih.expression hm hids.1 hspelled.1).bind ?_
    intro S₁ f f' m₁ m₁' _ hlater hf
    refine (ih.expressions hlater.mirrors hids.2 hspelled.2).bind ?_
    intro S₂ args args' m₂ m₂' _ hlater' hargs
    exact ih.call hlater'.mirrors (hf.mono hlater'.seating) hargs paren
  | get object name =>
    refine (ih.expression (e := object) hm hids hspelled).bind ?_
    intro S₁ v v' m₁ m₁' _ hlater hv
    cases hv with
    | instanceRef hc => exact mirrored_getProperty hlater.mirrors (.instanceRef hc) name
    | _ => exact mirrored_fail hlater.mirrors name _
  | set object name value =>
    rw [Expr.ids, List.forall_mem_append] at hids
    refine (ih.expression hm hids.2 hspelled.1).bind ?_
    intro S₁ v v' m₁ m₁' _ hlater hi
    have hreceiver : Value.Mirrors W S₁ v v' := hi
    cases hi with
    | instanceRef _ =>
      refine (ih.expression hlater.mirrors hids.1 hspelled.2).bind ?_
      intro S₂ w w' m₂ m₂' _ hlater' hw
      refine (mirrored_setProperty hlater'.mirrors (hreceiver.mono hlater'.seating) name hw).bind ?_
      intro S₃ _ _ m₃ m₃' _ hlater₃ _
      exact .pure hlater₃.mirrors (hw.mono hlater₃.seating)
    | _ => exact mirrored_fail hlater.mirrors name _
  | parent keyword method =>
    exact mirrored_getParentMethod hm (hids keyword.id (List.mem_singleton_self _)) method

theorem step_expressions {es : List Expr} (hids : ∀ id ∈ Expr.allIds es, W.Lies π id)
    (hspelled : Expr.AllSpelled Token.IsName es) :
    Mirrored W S π (Direct.evaluateAll host (n + 1) es) (evaluateAll host (n + 1) es) m m'
      fun S' => List.Forall₂ (Value.Mirrors W S') := by
  cases es with simp only [Direct.evaluateAll, evaluateAll]
  | nil => exact .pure hm .nil
  | cons e rest =>
    rw [Expr.allIds, List.forall_mem_append] at hids
    refine (ih.expression hm hids.1 hspelled.1).bind ?_
    intro S₁ v v' m₁ m₁' _ hlater hv
    refine (ih.expressions hlater.mirrors hids.2 hspelled.2).bind ?_
    intro S₂ vs vs' m₂ m₂' _ hlater' hvs
    exact .pure hlater'.mirrors (.cons (hv.mono hlater'.seating) hvs)

omit ih in
theorem mirrored_checkCount (paren : Token) (expected given : Nat) :
    Mirrored W S π (checkCount paren expected given) (checkCount paren expected given) m m'
      fun _ _ _ => True := by
  unfold checkCount
  split
  · exact .pure hm trivial
  · exact mirrored_fail hm paren _

theorem step_call (hhost : host.AnswersNumbers) (hdeaf : host.IgnoresArguments) {f f' : Value}
    {args args' : List Value} (hf : f.Mirrors W S f')
    (hargs : List.Forall₂ (Value.Mirrors W S) args args') (paren : Token) :
    Mirrored W S π (Direct.call host (n + 1) f paren args) (Treewalk.call host (n + 1) f' paren args') m m'
      (Value.Mirrors W) := by
  cases hf with simp only [Direct.call, Treewalk.call]
  | function hf =>
    rw [Closure.indistinct_mirrors.arity hf, ← hargs.length_eq]
    refine (mirrored_checkCount hm paren _ _).bind ?_
    intro S₁ _ _ m₁ m₁' _ hlater _
    exact ih.invoke hlater.mirrors (hf.mono hlater.seating)
      (hargs.imp fun _ _ hv => hv.mono hlater.seating) paren
  | native =>
    rw [← hargs.length_eq]
    refine (mirrored_checkCount hm paren _ _).bind ?_
    intro S₁ _ _ m₁ m₁' _ hlater _
    exact mirrored_callHost hlater.mirrors hhost hdeaf _ paren args args'
  | @classRef c c' hc =>
    rw [hc.arity Closure.indistinct_mirrors, ← hargs.length_eq]
    refine (mirrored_checkCount hm paren _ _).bind ?_
    intro S₁ _ _ m₁ m₁' _ hlater₁ _
    have hc₁ := Class.Mirrors.mono hlater₁.seating hc
    refine (mirrored_newInstance hlater₁.mirrors hc₁).bind ?_
    intro S₂ i i' m₂ m₂' _ hlater₂ hi
    have hall := hlater₁.trans hlater₂
    have hmethod := (Class.Mirrors.mono hall.seating hc).method? Closure.indistinct_mirrors
      initializerName
    generalize c.method? initializerName = found, c'.method? initializerName = found' at hmethod ⊢
    cases hmethod with
    | none => exact .pure hlater₂.mirrors hi
    | some hg =>
      refine (mirrored_bindMethod hlater₂.mirrors hg hi).bind ?_
      intro S₃ h h' m₃ m₃' _ hlater₃ hh
      have hargs₃ := hargs.imp fun _ _ hv => hv.mono (hall.trans hlater₃).seating
      refine (ih.invoke hlater₃.mirrors hh hargs₃ paren).bind ?_
      intro S₄ _ _ m₄ m₄' _ hlater₄ _
      exact .pure hlater₄.mirrors (hi.mono (hlater₃.trans hlater₄).seating)
  | _ => exact mirrored_fail hm paren _

theorem step_invoke {f f' : Closure} {args args' : List Value} (hf : f.Mirrors W S [] f')
    (hargs : List.Forall₂ (Value.Mirrors W S) args args') (paren : Token) :
    Mirrored W S π (Direct.invoke host (n + 1) f paren args) (Treewalk.invoke host (n + 1) f' paren args')
      m m' (Value.Mirrors W) := by
  obtain ⟨π', hπ', haligned, hdecl⟩ := hf.placed
  simp only [Direct.invoke, Treewalk.invoke]
  have hparams : List.Forall₂ (fun p p' : Token => p'.lexeme = id p.lexeme)
      f.decl.params f'.decl.params := by
    rw [hdecl.params]
    exact List.forall₂_same.mpr fun _ _ => rfl
  refine (mirrored_newFrame hm haligned
    (argumentBindings_corresponds Function.injective_id hparams hargs) fun _ => hπ').bind ?_
  rintro S₁ frame frame' m₁ m₁' - hlater hframe
  have hbody : Stmt.AllUnfold W.Lies (.shared :: π') f.decl.body f'.decl.body := by
    generalize f.decl = decl, f'.decl = decl' at hdecl ⊢
    cases hdecl with
    | mk hbody => exact hbody
  have hrun := ih.statements (hlater.mirrors.withActive hframe) hbody
    (FunctionDecl.spelled_iff.mp hf.spelled).2.2
  refine (hrun.inFrame hlater.mirrors).bind ?_
  rintro S₂ c c' m₂ m₂' - hlater₂ hc
  rw [hf.isInitializer]
  split
  · refine Mirrored.get_bind (mirrored_require hlater₂.mirrors ?_ _ _)
    have hframe := haligned.mono (hlater.trans hlater₂).seating
    have hthis := hframe.getAt? hlater₂.mirrors.stores 0 "this"
    rwa [hπ'.lift, ← hlater₂.mirrors.direct, ← hlater₂.mirrors.unfolded] at hthis
  · exact .pure hlater₂.mirrors hc.value

theorem step_statements {ss ss' : List Stmt} (hss : Stmt.AllUnfold W.Lies π ss ss')
    (hspelled : Stmt.AllSpelled Token.IsName ss') :
    Mirrored W S π (Direct.executeAll host (n + 1) ss) (executeAll host (n + 1) ss') m m'
      (Completion.Mirrors W) := by
  cases hss with simp only [Direct.executeAll, executeAll]
  | nil => exact .pure hm .normal
  | cons hs hrest =>
    refine (ih.statement hm hs hspelled.1).bind ?_
    intro S₁ c c' m₁ m₁' _ hlater hc
    cases hc with
    | returned hv => exact .pure hlater.mirrors (.returned hv)
    | normal => exact ih.statements hlater.mirrors hrest hspelled.2

theorem step_loop {e : Expr} {s s' : Stmt} (hids : ∀ id ∈ e.ids, W.Lies π id)
    (he : e.Spelled Token.IsName) (hs : s.Unfolds W.Lies π s') (hspelled : s'.Spelled Token.IsName) :
    Mirrored W S π (Direct.executeLoop host (n + 1) e s) (executeLoop host (n + 1) e s') m m'
      (Completion.Mirrors W) := by
  simp only [Direct.executeLoop, executeLoop]
  refine (ih.expression hm hids he).bind ?_
  intro S₁ v v' m₁ m₁' _ hlater hv
  rw [hv.isTruthy]
  cases v.isTruthy with
  | false => exact .pure hlater.mirrors .normal
  | true =>
    refine (ih.statement hlater.mirrors hs hspelled).bind ?_
    intro S₂ c c' m₂ m₂' _ hlater' hc
    cases hc with
    | returned hv => exact .pure hlater'.mirrors (.returned hv)
    | normal => exact ih.loop hlater'.mirrors hids he hs hspelled

end

section
variable (smaller : ∀ k ≤ n, Unrolls W host k) (hm : m.Mirrors W S π m')
include smaller hm

/-- One pass of a loop with three clauses. If there is a last clause, the scope that is added lies
around the body and the clause. -/
theorem step_pass {step : Option Expr} {s s' : Stmt} (hs : s.Unfolds W.Lies (.around step π) s')
    (hspelled : s'.Spelled Token.IsName)
    (hids : ∀ id ∈ Expr.allIds step.toList, W.Lies (.added :: π) id)
    (hstep : Expr.AllSpelled Token.IsName step.toList) :
    Mirrored W S π (Direct.pass host n step s) (execute host n (.pass step s')) m m'
      (Completion.Mirrors W) := by
  cases step with
  | none => exact (smaller n (Nat.le_refl n)).statement hm hs hspelled
  | some e =>
    cases n with
    | zero =>
      rw [Direct.pass_zero]
      exact mirrored_throw hm _
    | succ n =>
      simp only [Direct.pass, Stmt.pass, execute]
      refine Mirrored.inScope hm fun S₁ m₁' hextends hm₁ => ?_
      rw [executeAll_cons, executeAll_single, execute_expression]
      refine ((smaller (n - 1) (by omega)).statement hm₁ hs hspelled).bind ?_
      intro S₂ c c' m₂ m₂' _ hlater hc
      cases hc with
      | returned hv => exact .pure hlater.mirrors (.returned hv)
      | normal =>
        simp only [Option.toList, Expr.allIds, List.append_nil] at hids
        refine ((smaller (n - 1 - 1 - 1) (by omega)).expression hlater.mirrors hids hstep.1).bind ?_
        intro S₃ _ _ m₃ m₃' _ hlater' _
        exact .pure hlater'.mirrors .normal

/-- A loop with three clauses behind its first one. -/
theorem step_passes {condition step : Option Expr} {s s' : Stmt}
    (hcondition : ∀ id ∈ Expr.allIds condition.toList, W.Lies π id)
    (hspelled : Expr.AllSpelled Token.IsName condition.toList)
    (hs : s.Unfolds W.Lies (.around step π) s') (hbody : s'.Spelled Token.IsName)
    (hids : ∀ id ∈ Expr.allIds step.toList, W.Lies (.added :: π) id)
    (hstep : Expr.AllSpelled Token.IsName step.toList) :
    Mirrored W S π (Direct.executeCounting host (n + 1) condition step s)
      (executeLoop host (n + 1) (condition.getD (.literal (.bool true))) (.pass step s')) m m'
      (Completion.Mirrors W) := by
  have hrest {S : Seating} {m m' : Machine} (hm : m.Mirrors W S π m') :
      Mirrored W S π
        (do
          match ← Direct.pass host n step s with
          | .returned v => return .returned v
          | .normal => Direct.executeCounting host n condition step s)
        (do
          match ← execute host n (.pass step s') with
          | .returned v => return .returned v
          | .normal =>
            executeLoop host n (condition.getD (.literal (.bool true))) (.pass step s')) m m'
        (Completion.Mirrors W) := by
    refine (step_pass smaller hm hs hbody hids hstep).bind ?_
    intro S₁ c c' m₁ m₁' _ hlater hc
    cases hc with
    | returned hv => exact .pure hlater.mirrors (.returned hv)
    | normal =>
      exact (smaller n (Nat.le_refl n)).passes hlater.mirrors hcondition hspelled hs hbody hids hstep
  rw [Direct.executeCounting_succ, executeLoop]
  cases condition with
  | none =>
    cases n with
    | zero =>
      -- the constant that stands for the condition would have been too deep
      simp only [Option.elim, pure_bind, if_true, Direct.pass_zero]
      exact mirrored_throw hm _
    | succ n => exact hrest hm
  | some e =>
    simp only [Option.toList, Expr.allIds, List.append_nil] at hcondition
    simp only [Option.elim, Option.getD_some, map_eq_pure_bind, bind_assoc, pure_bind]
    refine ((smaller n (Nat.le_refl n)).expression hm hcondition hspelled.1).bind ?_
    intro S₁ v v' m₁ m₁' _ hlater hv
    rw [hv.isTruthy]
    cases v.isTruthy with
    | false => exact .pure hlater.mirrors .normal
    | true => exact hrest hlater.mirrors

theorem step_node {c : Counting} {initial' : Option Stmt} {body' : Stmt}
    (hinitial : Stmt.AllUnfold W.Lies (.shared :: π) c.initial.toList initial'.toList)
    (hcondition : ∀ id ∈ Expr.allIds c.condition.toList, W.Lies (.shared :: π) id)
    (hbody : c.body.Unfolds W.Lies (.around c.step (.shared :: π)) body')
    (hstep : ∀ id ∈ Expr.allIds c.step.toList, W.Lies (.added :: .shared :: π) id)
    (hspelled : (Stmt.counting initial' c.condition c.step body').Spelled Token.IsName) :
    Mirrored W S π (Direct.execute host (n + 1) c.node)
      (execute host (n + 1) (.counting initial' c.condition c.step body')) m m'
      (Completion.Mirrors W) := by
  obtain ⟨hfirst, hconditionSpelled, hstepSpelled, hbodySpelled⟩ := hspelled.of_counting
  rw [Direct.execute_node, Stmt.counting_eq, execute]
  refine Mirrored.get_bind ?_
  refine (mirrored_newFrame hm hm.active (fun name => by simp) (by simp)).bind ?_
  rintro S₁ frame frame' m₁ m₁' - hlater hframe
  refine Mirrored.inFrame (show Mirrored W S₁ (.shared :: π) _ _ _ _ _ from ?_) hlater.mirrors
  have hinner := hlater.mirrors.withActive hframe
  generalize c.initial = initial at hinitial ⊢
  cases initial with
  | none =>
    cases initial' with
    | some => cases hinitial
    | none =>
      simp only [Option.toList, List.nil_append]
      rw [executeAll_single, execute_loop]
      exact (smaller (n - 1 - 1) (by omega)).passes hinner hcondition hconditionSpelled hbody
        hbodySpelled hstep hstepSpelled
  | some first =>
    cases initial' with
    | none => cases hinitial
    | some first' =>
      obtain _ | ⟨hs, -⟩ := hinitial
      simp only [Option.toList, List.singleton_append]
      rw [executeAll_cons, executeAll_single, execute_loop]
      refine ((smaller (n - 1) (by omega)).statement hinner hs hfirst.1).bind ?_
      intro S₂ d d' m₂ m₂' _ hlater' hd
      cases hd with
      | returned hv => exact .pure hlater'.mirrors (.returned hv)
      | normal =>
        exact (smaller (n - 1 - 1 - 1) (by omega)).passes hlater'.mirrors hcondition
          hconditionSpelled hbody hbodySpelled hstep hstepSpelled

theorem step_statement {s s' : Stmt} (hs : s.Unfolds W.Lies π s')
    (hspelled : s'.Spelled Token.IsName) :
    Mirrored W S π (Direct.execute host (n + 1) s) (execute host (n + 1) s') m m'
      (Completion.Mirrors W) := by
  have ih := smaller n (Nat.le_refl n)
  cases hs with
  | counting hinitial hcondition hbody hstep =>
    exact step_node smaller hm hinitial hcondition hbody hstep hspelled
  | loop hbody hids hs =>
    rw [Direct.execute_loop host n hbody, execute]
    exact ih.loop hm hids hspelled.1 hs hspelled.2.1
  | expression hids =>
    simp only [Direct.execute, Stmt.counting?, execute]
    refine (ih.expression hm hids hspelled).bind ?_
    intro S₁ _ _ m₁ m₁' _ hlater _
    exact .pure hlater.mirrors .normal
  | print hids =>
    simp only [Direct.execute, Stmt.counting?, execute]
    refine (ih.expression hm hids hspelled).bind ?_
    intro S₁ v v' m₁ m₁' _ hlater hv
    rw [hv.text Closure.indistinct_mirrors]
    refine (mirrored_print hlater.mirrors _).bind ?_
    intro S₂ _ _ m₂ m₂' _ hlater' _
    exact .pure hlater'.mirrors .normal
  | @var _ x e hπ hids =>
    cases e with simp only [Direct.execute, Stmt.counting?, execute]
    | none =>
      refine (mirrored_define hm hπ hspelled .null).bind ?_
      intro S₁ _ _ m₁ m₁' _ hlater _
      exact .pure hlater.mirrors .normal
    | some e =>
      simp only [Option.toList, Expr.allIds, List.append_nil] at hids
      refine (ih.expression hm hids hspelled.2).bind ?_
      intro S₁ v v' m₁ m₁' _ hlater hv
      refine (mirrored_define hlater.mirrors hπ hspelled.1 hv).bind ?_
      intro S₂ _ _ m₂ m₂' _ hlater' _
      exact .pure hlater'.mirrors .normal
  | block hss =>
    simp only [Direct.execute, Stmt.counting?, execute]
    refine Mirrored.get_bind ?_
    refine (mirrored_newFrame hm hm.active (fun name => by simp) (by simp)).bind ?_
    rintro S₁ frame frame' m₁ m₁' - hlater hframe
    exact (ih.statements (hlater.mirrors.withActive hframe) hss hspelled).inFrame hlater.mirrors
  | branch hids hs =>
    simp only [Direct.execute, Stmt.counting?, execute]
    refine (ih.expression hm hids hspelled.1).bind ?_
    intro S₁ v v' m₁ m₁' _ hlater hv
    rw [hv.isTruthy]
    cases v.isTruthy with
    | true => exact ih.statement hlater.mirrors hs hspelled.2.1
    | false => exact .pure hlater.mirrors .normal
  | branchElse hids hs ho =>
    simp only [Direct.execute, Stmt.counting?, execute]
    refine (ih.expression hm hids hspelled.1).bind ?_
    intro S₁ v v' m₁ m₁' _ hlater hv
    rw [hv.isTruthy]
    cases v.isTruthy with
    | true => exact ih.statement hlater.mirrors hs hspelled.2.1.1
    | false => exact ih.statement hlater.mirrors ho hspelled.2.2.1
  | @function _ decl decl' hπ hdecl =>
    simp only [Direct.execute, Stmt.counting?, execute]
    refine Mirrored.get_bind ?_
    refine (mirrored_newClosure [] hm hπ hm.active hdecl hspelled false).bind ?_
    intro S₁ f f' m₁ m₁' _ hlater hf
    rw [hdecl.name]
    have hname := (FunctionDecl.spelled_iff.mp hspelled).1
    rw [hdecl.name] at hname
    refine (mirrored_define hlater.mirrors hπ hname (.function hf)).bind ?_
    intro S₂ _ _ m₂ m₂' _ hlater' _
    exact .pure hlater'.mirrors .normal
  | @giveBack _ word e hids =>
    cases e with simp only [Direct.execute, Stmt.counting?, execute]
    | none => exact .pure hm (.returned .null)
    | some e =>
      simp only [Option.toList, Expr.allIds, List.append_nil] at hids
      refine (ih.expression hm hids hspelled).bind ?_
      intro S₁ v v' m₁ m₁' _ hlater hv
      exact .pure hlater.mirrors (.returned hv)
  | classDecl hπ hparent hmethods =>
    simp only [Direct.execute, Stmt.counting?, execute]
    refine (mirrored_declareClass hm hπ hspelled.1 hparent hmethods hspelled.2.2).bind ?_
    intro S₁ _ _ m₁ m₁' _ hlater _
    exact .pure hlater.mirrors .normal

end

end Unrolls

/-- What tasks unfold to runs as the tasks do, to every depth. -/
theorem unrolls (W : Setting) {host : Host} (hhost : host.AnswersNumbers)
    (hdeaf : host.IgnoresArguments) (n : Nat) : Unrolls W host n := by
  induction n using Nat.strong_induction_on with
  | _ n smaller =>
    cases n with
    | zero => exact .zero
    | succ n =>
      have smaller : ∀ k ≤ n, Unrolls W host k := fun k hk => smaller k (Nat.lt_succ_of_le hk)
      have ih := smaller n (Nat.le_refl n)
      exact {
        expression := fun hm => ih.step_expression hm
        expressions := fun hm => ih.step_expressions hm
        call := fun hm hf hargs => ih.step_call hm hhost hdeaf hf hargs
        invoke := fun hm hf hargs => ih.step_invoke hm hf hargs
        statement := fun hm => Unrolls.step_statement smaller hm
        statements := fun hm => ih.step_statements hm
        loop := fun hm => ih.step_loop hm
        passes := fun hm => Unrolls.step_passes smaller hm }

end Treewalk
