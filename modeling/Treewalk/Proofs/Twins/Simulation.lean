import Treewalk.Proofs.Evaluation.Preservation
import Treewalk.Proofs.Twins.Actions

/-! Runs of like programs. On twin machines, like tasks run alike, provided that no local name that
changes is missing when it is read or written to. The proof is by induction on the depth, one step
for each function of the evaluator. -/

namespace Treewalk

/-- The task finds the local name that it is about, unless this name does not change. -/
def Task.Clear (G : Disguise) : Task → Machine → Prop
  | .expression (.variable ref), m =>
    (∀ d, m.distances[ref.id]? = some d → (m.value? ref).isSome) ∨ G.Keeps ref.name
  | .expression (.this ref), _ => G.Keeps ref.name
  | .write ref _ _, m =>
    (∀ d, m.distances[ref.id]? = some d → (m.target? ref).isSome) ∨ G.Keeps ref.name
  | _, _ => True

/-- All tasks within a task find the local names that they are about. -/
def Task.AllClear (G : Disguise) (host : Host) (n : Nat) (t : Task) (m : Machine) : Prop :=
  ∀ t' m', Within host n t m t' m' → t'.Clear G m'

section
variable {G : Disguise} {host : Host} {n : Nat} {t t' : Task} {m m' : Machine}

theorem Task.AllClear.starts (h : t.AllClear G host (n + 1) m) (hstart : Starts host n t m t' m') :
    t'.AllClear G host n m' :=
  fun _ _ hwithin => h _ _ (.step hstart hwithin)

/-- Where no name changes, nothing is asked. -/
theorem Disguise.Plain.allClear (hG : G.Plain) : t.AllClear G host n m := by
  intro t' m' _
  unfold Task.Clear
  split
  · exact .inr (hG.keeps _)
  · exact hG.keeps _
  · exact .inr (hG.keeps _)
  · trivial

end

/-- Bodies that are completed alike. -/
inductive Completion.Twins (G : Disguise) (K : Marks) (s : Store) : Completion → Completion → Prop
  | normal : Twins G K s .normal .normal
  | returned {v v'} : Value.Twins G K s v v' → Twins G K s (.returned v) (.returned v')

theorem Completion.Twins.value {G : Disguise} {K : Marks} {s : Store} {c c' : Completion}
    (h : c.Twins G K s c') : Value.Twins G K s c.value c'.value := by
  cases h with
  | normal => exact .null
  | returned hv => exact hv

/-- Within a depth, like tasks run alike on twin machines. -/
structure Simulates (G : Disguise) (host : Host) (n : Nat) : Prop where
  expression : ∀ {K : Marks} {m m' : Machine} {e e' : Expr}, m.Twin G K m' →
    e.Like G (K m.active) e' → Task.AllClear G host n (.expression e) m →
    Action.Alike G K (evaluate host n e) (evaluate host n e') m m' (Value.Twins G)
  expressions : ∀ {K : Marks} {m m' : Machine} {es es' : List Expr}, m.Twin G K m' →
    Expr.AllLike G (K m.active) es es' → Task.AllClear G host n (.expressions es) m →
    Action.Alike G K (evaluateAll host n es) (evaluateAll host n es') m m'
      fun K s => List.Forall₂ (Value.Twins G K s)
  call : ∀ {K : Marks} {m m' : Machine} {f f' : Value} {paren paren' : Token}
    {args args' : List Value}, m.Twin G K m' → Value.Twins G K m.store f f' →
    G.token paren paren' → List.Forall₂ (Value.Twins G K m.store) args args' →
    Task.AllClear G host n (.call f paren args) m →
    Action.Alike G K (call host n f paren args) (call host n f' paren' args') m m' (Value.Twins G)
  invoke : ∀ {K : Marks} {m m' : Machine} {f f' : Closure} {paren paren' : Token}
    {args args' : List Value}, m.Twin G K m' → f.Twin G K m.store.frames.size 0 f' →
    G.token paren paren' → List.Forall₂ (Value.Twins G K m.store) args args' →
    Task.AllClear G host n (.invoke f paren args) m →
    Action.Alike G K (invoke host n f paren args) (invoke host n f' paren' args') m m'
      (Value.Twins G)
  statement : ∀ {K : Marks} {m m' : Machine} {s s' : Stmt}, m.Twin G K m' →
    s.Like G (K m.active) s' → Task.AllClear G host n (.statement s) m →
    Action.Alike G K (execute host n s) (execute host n s') m m' (Completion.Twins G)
  statements : ∀ {K : Marks} {m m' : Machine} {ss ss' : List Stmt}, m.Twin G K m' →
    Stmt.AllLike G (K m.active) ss ss' → Task.AllClear G host n (.statements ss) m →
    Action.Alike G K (executeAll host n ss) (executeAll host n ss') m m' (Completion.Twins G)
  loop : ∀ {K : Marks} {m m' : Machine} {e e' : Expr} {s s' : Stmt}, m.Twin G K m' →
    e.Like G (K m.active) e' → s.Like G (K m.active) s' → Task.AllClear G host n (.loop e s) m →
    Action.Alike G K (executeLoop host n e s) (executeLoop host n e' s') m m' (Completion.Twins G)

theorem Machine.Twin.withActive {G : Disguise} {K : Marks} {m m' : Machine} {f : FrameId}
    (h : m.Twin G K m') (hf : f < m.store.frames.size) :
    Machine.Twin G K { m with active := f } { m' with active := f } :=
  ⟨h.store, h.nextIdentity, h.places, h.globals, rfl, h.sink, h.hostCalls, h.unmarked, h.outermost,
    h.globals_lt, hf⟩

/-- Parameters and arguments are bound alike, the parameters being those of the chosen scope or of
another one. -/
theorem argumentBindings_twins {G : Disguise} {chosen : Bool} {params params' : List Token}
    {args args' : List Value} {r : Value → Value → Prop}
    (hparams : List.Forall₂ (G.Named chosen) params params') (hargs : List.Forall₂ r args args')
    (name : String) : Option.Rel r (argumentBindings params args)[name]?
      (argumentBindings params' args')[G.nameIf chosen name]? :=
  argumentBindings_corresponds (fun _ _ => Disguise.nameIf_inj.mp)
    (hparams.imp fun _ _ => Disguise.Named.lexeme) hargs name

namespace Simulates

open Treewalk.Action

variable {G : Disguise} {host : Host} {n : Nat} {K : Marks} {m m' : Machine}

theorem zero : Simulates G host 0 := by
  refine ⟨?_, ?_, ?_, ?_, ?_, ?_, ?_⟩
  all_goals intros; exact alike_throw ‹_› .exhausted

variable (ih : Simulates G host n) (hm : m.Twin G K m')
include ih hm

theorem step_expression {e e' : Expr} (he : e.Like G (K m.active) e')
    (hclear : Task.AllClear G host (n + 1) (.expression e) m) :
    Alike G K (evaluate host (n + 1) e) (evaluate host (n + 1) e') m m' (Value.Twins G) := by
  have hself := hclear _ _ .self
  cases he with simp only [evaluate]
  | @literal value =>
    refine .pure hm ?_
    cases value with
    | number => exact .number
    | string => exact .string
    | bool => exact .bool
    | null => exact .null
  | grouping he => exact ih.expression hm he (hclear.starts .grouping)
  | @unary op op' _ _ hop he =>
    refine (ih.expression hm he (hclear.starts .operand)).bind ?_
    intro K₁ v v' m₁ m₁' _ hfollows hv
    obtain ⟨hsame, hresult⟩ := hv.unary op.terminal
    rw [Disguise.terminal_eq hop, hsame]
    exact alike_lift hfollows.twin hop hresult
  | @binary _ _ op _ _ _ hl hop hr =>
    refine (ih.expression hm hl (hclear.starts .left)).bind ?_
    intro K₁ a a' m₁ m₁' hrun hfollows ha
    rw [← hfollows.mark hm] at hr
    refine (ih.expression hfollows.twin hr (hclear.starts (.right hrun))).bind ?_
    intro K₂ b b' m₂ m₂' _ hfollows' hb
    obtain ⟨hsame, hresult⟩ := (ha.mono hfollows'.marks).binary hb op.terminal
    rw [Disguise.terminal_eq hop, hsame]
    exact alike_lift hfollows'.twin hop hresult
  | @logical _ _ op _ _ _ hl hop hr =>
    refine (ih.expression hm hl (hclear.starts .decider)).bind ?_
    intro K₁ a a' m₁ m₁' hrun hfollows ha
    rw [ha.decides, Disguise.terminal_eq hop]
    cases hdecides : a.decides op.terminal with
    | true => exact .pure hfollows.twin ha
    | false =>
      rw [← hfollows.mark hm] at hr
      exact ih.expression hfollows.twin hr (hclear.starts (.decided hrun hdecides))
  | this href => exact alike_lookUp hm (href.of_keeps hself) (.inr hself)
  | assign href hv =>
    refine (ih.expression hm hv (hclear.starts .assigned)).bind ?_
    intro K₁ v v' m₁ m₁' hrun hfollows hv
    have hwrite := hclear.starts (.write hrun) _ _ .self
    rw [← hfollows.mark hm] at href
    refine (alike_assign hfollows.twin href hwrite hv).bind ?_
    intro K₂ _ _ m₂ m₂' _ hfollows' _
    exact .pure hfollows'.twin (hv.mono hfollows'.marks)
  | call he hparen hes =>
    refine (ih.expression hm he (hclear.starts .callee)).bind ?_
    intro K₁ f f' m₁ m₁' hrun hfollows hf
    rw [← hfollows.mark hm] at hes
    refine (ih.expressions hfollows.twin hes (hclear.starts (.arguments hrun))).bind ?_
    intro K₂ args args' m₂ m₂' hrun' hfollows' hargs
    exact ih.call hfollows'.twin (hf.mono hfollows'.marks) hparen hargs
      (hclear.starts (.call hrun hrun'))
  | get he hname =>
    refine (ih.expression hm he (hclear.starts .object)).bind ?_
    intro K₁ v v' m₁ m₁' _ hfollows hv
    cases hv with
    | instanceRef hc => exact alike_getProperty hfollows.twin (.instanceRef hc) hname
    | _ => exact alike_fail hfollows.twin hname _
  | set he hname hv =>
    refine (ih.expression hm he (hclear.starts .changed)).bind ?_
    intro K₁ v v' m₁ m₁' hrun hfollows hi
    have hreceiver : Value.Twins G K₁ m₁.store v v' := hi
    cases hi with
    | instanceRef _ =>
      rw [← hfollows.mark hm] at hv
      refine (ih.expression hfollows.twin hv (hclear.starts (.change hrun))).bind ?_
      intro K₂ w w' m₂ m₂' _ hfollows' hw
      refine (alike_setProperty hfollows'.twin (hreceiver.mono hfollows'.marks) hname hw).bind ?_
      intro K₃ _ _ m₃ m₃' _ hfollows₃ _
      exact .pure hfollows₃.twin (hw.mono hfollows₃.marks)
    | _ => exact alike_fail hfollows.twin hname _
  | parent href hmethod => exact alike_getParentMethod hm href hmethod
  | _ =>
    rename_i href
    exact alike_lookUp hm href hself

theorem step_expressions {es es' : List Expr} (hes : Expr.AllLike G (K m.active) es es')
    (hclear : Task.AllClear G host (n + 1) (.expressions es) m) :
    Alike G K (evaluateAll host (n + 1) es) (evaluateAll host (n + 1) es') m m'
      fun K s => List.Forall₂ (Value.Twins G K s) := by
  cases hes with simp only [evaluateAll]
  | nil => exact .pure hm .nil
  | cons he hrest =>
    refine (ih.expression hm he (hclear.starts .firstArgument)).bind ?_
    intro K₁ v v' m₁ m₁' hrun hfollows hv
    rw [← hfollows.mark hm] at hrest
    refine (ih.expressions hfollows.twin hrest (hclear.starts (.otherArguments hrun))).bind ?_
    intro K₂ vs vs' m₂ m₂' _ hfollows' hvs
    exact .pure hfollows'.twin (.cons (hv.mono hfollows'.marks) hvs)

omit ih in
theorem alike_checkCount {paren paren' : Token} (hparen : G.token paren paren')
    (expected given : Nat) :
    Alike G K (checkCount paren expected given) (checkCount paren' expected given) m m'
      fun _ _ _ _ => True := by
  unfold checkCount
  split
  · exact .pure hm trivial
  · exact alike_fail hm hparen _

theorem step_call {f f' : Value} {paren paren' : Token} {args args' : List Value}
    (hhost : host.AnswersNumbers) (hdeaf : host.IgnoresArguments)
    (hf : Value.Twins G K m.store f f') (hparen : G.token paren paren')
    (hargs : List.Forall₂ (Value.Twins G K m.store) args args')
    (hclear : Task.AllClear G host (n + 1) (.call f paren args) m) :
    Alike G K (Treewalk.call host (n + 1) f paren args) (Treewalk.call host (n + 1) f' paren' args')
      m m' (Value.Twins G) := by
  have hlength := hargs.length_eq
  cases hf with simp only [Treewalk.call, ← hlength]
  | function hf =>
    rw [(Closure.indistinct_twin 0).arity hf]
    refine (alike_checkCount hm hparen _ _).bind ?_
    intro K₁ _ _ m₁ m₁' hrun hfollows _
    obtain ⟨hcount, rfl⟩ := Task.checkCount_eq_ok hrun
    exact ih.invoke hfollows.twin (hf.mono hfollows.marks) hparen
      (hargs.imp fun _ _ hv => hv.mono hfollows.marks) (hclear.starts (.invoke hcount))
  | native =>
    refine (alike_checkCount hm hparen _ _).bind ?_
    intro K₁ _ _ m₁ m₁' _ hfollows _
    exact alike_callHost hfollows.twin hhost hdeaf _ hparen args args'
  | @classRef c c' hc =>
    rw [hc.arity]
    refine (alike_checkCount hm hparen _ _).bind ?_
    intro K₁ _ _ m₁ m₁' hrun hfollows _
    obtain ⟨hcount, rfl⟩ := Task.checkCount_eq_ok hrun
    refine (alike_newInstance hfollows.twin (hc.mono hfollows.marks)).bind ?_
    intro K₂ i i' m₂ m₂' hnew hfollows₂ hi
    have hmarks₂ := hfollows.marks.trans hfollows₂.marks
    have hmethod := hc.method? initializerName
    cases hfound : c.method? initializerName with
    | none =>
      rw [hfound] at hmethod
      generalize c'.method? initializerName = found' at hmethod ⊢
      cases hmethod
      exact .pure hfollows₂.twin hi
    | some g =>
      rw [hfound] at hmethod
      generalize c'.method? initializerName = found' at hmethod ⊢
      cases hmethod with
      | some hg =>
        refine (alike_bindMethod hfollows₂.twin (hg.mono hmarks₂) hi).bind ?_
        intro K₃ h h' m₃ m₃' hbind hfollows₃ hh
        have hargs₃ := hargs.imp fun _ _ hv => hv.mono (hmarks₂.trans hfollows₃.marks)
        have hclear₃ := hclear.starts (.initializer hcount hnew hfound hbind)
        refine (ih.invoke hfollows₃.twin hh hparen hargs₃ hclear₃).bind ?_
        intro K₄ _ _ m₄ m₄' _ hfollows₄ _
        exact .pure hfollows₄.twin (hi.mono (hfollows₃.marks.trans hfollows₄.marks))
  | _ => exact alike_fail hm hparen _

theorem step_invoke {f f' : Closure} {paren paren' : Token} {args args' : List Value}
    (hf : f.Twin G K m.store.frames.size 0 f') (hparen : G.token paren paren')
    (hargs : List.Forall₂ (Value.Twins G K m.store) args args')
    (hclear : Task.AllClear G host (n + 1) (.invoke f paren args) m) :
    Alike G K (Treewalk.invoke host (n + 1) f paren args)
      (Treewalk.invoke host (n + 1) f' paren' args') m m' (Value.Twins G) := by
  have hdecl : f.decl.Like G (K f.frame) f'.decl := by simpa using hf.decl
  have hlt := hf.lt
  unfold Treewalk.invoke
  rw [hf.frame, hf.isInitializer]
  generalize hd : f.decl = decl, f'.decl = decl' at hdecl
  cases hdecl with
  | @mk _ k' _ _ params params' body body' hin _ hparams hbody =>
    refine (alike_newFrame hm hlt hin (argumentBindings_twins hparams hargs)).bind ?_
    rintro K₁ _ frame m₁ m₁' hnew hfollows ⟨rfl, hmark, hframe⟩
    have hstart : Task.Starts host n (.invoke f paren args) m (.statements body)
        { m₁ with active := frame } := by
      have hstart : Task.Starts host n (.invoke f paren args) m (.statements f.decl.body)
          { m₁ with active := frame } := .body (by rwa [hd])
      rwa [hd] at hstart
    have hbody₁ : Stmt.AllLike G (K₁ frame) body body' := by rwa [hmark]
    have hrun := ih.statements (hfollows.twin.withActive hframe) hbody₁ (hclear.starts hstart)
    refine (hrun.inFrame hfollows.twin).bind ?_
    rintro K₂ c c' m₂ m₂' - hfollows₂ hc
    split
    · refine Alike.get_bind (alike_require hfollows₂.twin
        (hfollows₂.twin.store.getAt?_word f.frame 0 .thisWord) (fun _ _ => id) fun _ => .fault hparen)
    · exact .pure hfollows₂.twin hc.value

theorem step_statement {s s' : Stmt} (hs : s.Like G (K m.active) s')
    (hclear : Task.AllClear G host (n + 1) (.statement s) m) :
    Alike G K (execute host (n + 1) s) (execute host (n + 1) s') m m' (Completion.Twins G) := by
  generalize hk : K m.active = k at hs
  cases hs with
  | expression he =>
    rw [← hk] at he
    refine (ih.expression hm he (hclear.starts .value)).bind ?_
    intro K₁ _ _ m₁ m₁' _ hfollows _
    exact .pure hfollows.twin .normal
  | print he =>
    rw [← hk] at he
    refine (ih.expression hm he (hclear.starts .printed)).bind ?_
    intro K₁ v v' m₁ m₁' _ hfollows hv
    rw [hv.text]
    refine (alike_print hfollows.twin _).bind ?_
    intro K₂ _ _ m₂ m₂' _ hfollows' _
    exact .pure hfollows'.twin .normal
  | @var _ x x' _ _ hx he =>
    cases he with simp only [execute]
    | none =>
      rw [← hk] at hx
      refine (alike_define hm hx.lexeme .null).bind ?_
      intro K₁ _ _ m₁ m₁' _ hfollows _
      exact .pure hfollows.twin .normal
    | some he =>
      rw [← hk] at he
      refine (ih.expression hm he (hclear.starts .initial)).bind ?_
      intro K₁ v v' m₁ m₁' _ hfollows hv
      rw [← hk, ← hfollows.mark hm] at hx
      refine (alike_define hfollows.twin hx.lexeme hv).bind ?_
      intro K₂ _ _ m₂ m₂' _ hfollows' _
      exact .pure hfollows'.twin .normal
  | @block _ k' ss ss' hin hss =>
    rw [← hk] at hin
    refine Alike.get_bind ?_
    rw [hm.active]
    refine (alike_newFrame hm hm.active_lt hin fun name => by simp).bind ?_
    rintro K₁ _ frame m₁ m₁' hnew hfollows ⟨rfl, hmark, hframe⟩
    have hss₁ : Stmt.AllLike G (K₁ frame) ss ss' := by rwa [hmark]
    exact (ih.statements (hfollows.twin.withActive hframe) hss₁
      (hclear.starts (.block hnew))).inFrame hfollows.twin
  | branch he hs =>
    rw [← hk] at he
    refine (ih.expression hm he (hclear.starts .condition)).bind ?_
    intro K₁ v v' m₁ m₁' hrun hfollows hv
    rw [← hk, ← hfollows.mark hm] at hs
    rw [hv.isTruthy]
    cases htruth : v.isTruthy with
    | true => exact ih.statement hfollows.twin hs (hclear.starts (.whenTrue hrun htruth))
    | false => exact .pure hfollows.twin .normal
  | branchElse he hs ho =>
    rw [← hk] at he
    refine (ih.expression hm he (hclear.starts .condition)).bind ?_
    intro K₁ v v' m₁ m₁' hrun hfollows hv
    rw [← hk, ← hfollows.mark hm] at hs ho
    rw [hv.isTruthy]
    cases htruth : v.isTruthy with
    | true => exact ih.statement hfollows.twin hs (hclear.starts (.whenTrue hrun htruth))
    | false => exact ih.statement hfollows.twin ho (hclear.starts (.whenFalse hrun htruth))
  | loop he hs =>
    rw [← hk] at he hs
    exact ih.loop hm he hs (hclear.starts .loop)
  | @function _ decl decl' hkeeps hdecl =>
    rw [← hk] at hdecl hkeeps
    refine Alike.get_bind ?_
    rw [hm.active]
    refine (alike_newClosure (j := 0) hm hm.active_lt (by simpa using hdecl) false).bind ?_
    intro K₁ f f' m₁ m₁' _ hfollows hf
    rw [← hfollows.mark hm] at hkeeps
    refine (alike_define hfollows.twin ?_ (.function hf)).bind ?_
    · rw [Disguise.lexeme_eq hdecl.name, Disguise.nameIf_of_keeps hkeeps]
    · intro K₂ _ _ m₂ m₂' _ hfollows' _
      exact .pure hfollows'.twin .normal
  | giveBack hword he =>
    cases he with simp only [execute]
    | none => exact .pure hm (.returned .null)
    | some he =>
      rw [← hk] at he
      refine (ih.expression hm he (hclear.starts .givenBack)).bind ?_
      intro K₁ v v' m₁ m₁' _ hfollows hv
      exact .pure hfollows.twin (.returned hv)
  | @classDecl _ x x' parent parent' methods methods' hkeeps hx hparent hmethods =>
    rw [← hk] at hkeeps hparent hmethods
    refine (alike_declareClass hm hx hkeeps hparent ?_ hmethods).bind ?_
    · rintro ref rfl
      exact hclear.starts .heritage _ _ .self
    · intro K₁ _ _ m₁ m₁' _ hfollows _
      exact .pure hfollows.twin .normal

theorem step_statements {ss ss' : List Stmt} (hss : Stmt.AllLike G (K m.active) ss ss')
    (hclear : Task.AllClear G host (n + 1) (.statements ss) m) :
    Alike G K (executeAll host (n + 1) ss) (executeAll host (n + 1) ss') m m'
      (Completion.Twins G) := by
  generalize hk : K m.active = k at hss
  cases hss with simp only [executeAll]
  | nil => exact .pure hm .normal
  | cons hs hrest =>
    rw [← hk] at hs
    refine (ih.statement hm hs (hclear.starts .first)).bind ?_
    intro K₁ c c' m₁ m₁' hrun hfollows hc
    cases hc with
    | returned hv => exact .pure hfollows.twin (.returned hv)
    | normal =>
      rw [← hk, ← hfollows.mark hm] at hrest
      exact ih.statements hfollows.twin hrest (hclear.starts (.rest hrun))

theorem step_loop {e e' : Expr} {s s' : Stmt} (he : e.Like G (K m.active) e')
    (hs : s.Like G (K m.active) s') (hclear : Task.AllClear G host (n + 1) (.loop e s) m) :
    Alike G K (executeLoop host (n + 1) e s) (executeLoop host (n + 1) e' s') m m'
      (Completion.Twins G) := by
  refine (ih.expression hm he (hclear.starts .loopCondition)).bind ?_
  intro K₁ v v' m₁ m₁' hrun hfollows hv
  rw [hv.isTruthy]
  cases htruth : v.isTruthy with
  | false => exact .pure hfollows.twin .normal
  | true =>
    have hs₁ := hs
    rw [← hfollows.mark hm] at hs₁
    refine (ih.statement hfollows.twin hs₁ (hclear.starts (.loopBody hrun htruth))).bind ?_
    intro K₂ c c' m₂ m₂' hrun' hfollows' hc
    cases hc with
    | returned hv => exact .pure hfollows'.twin (.returned hv)
    | normal =>
      rw [← hfollows.mark hm, ← hfollows'.mark hfollows.twin] at he hs
      exact ih.loop hfollows'.twin he hs (hclear.starts (.again hrun htruth hrun'))

end Simulates

/-- Like tasks run alike within every depth. -/
theorem simulates (G : Disguise) {host : Host} (hhost : host.AnswersNumbers)
    (hdeaf : host.IgnoresArguments) (n : Nat) : Simulates G host n := by
  induction n with
  | zero => exact .zero
  | succ n ih => exact {
      expression := fun hm he => ih.step_expression hm he
      expressions := fun hm hes => ih.step_expressions hm hes
      call := fun hm hf hparen hargs => ih.step_call hm hhost hdeaf hf hparen hargs
      invoke := fun hm hf => ih.step_invoke hm hf
      statement := fun hm hs => ih.step_statement hm hs
      statements := fun hm hss => ih.step_statements hm hss
      loop := fun hm he hs => ih.step_loop hm he hs }

end Treewalk
