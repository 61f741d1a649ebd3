import Treewalk.Proofs.Evaluation.Provenance

/-! Evaluation traces values. If the values in the store and those that a task works on are traced, then
so are those that the task comes to, provided that all moments within it are known; and the same holds at
every moment within it. The proof is by induction on the depth, one step for each task. -/

namespace Treewalk

/-- What a completion returns is traced. -/
def Completion.Traced (O : Moments) (s : Store) (c : Completion) : Prop :=
  ∀ v, c = .returned v → v.Traced O s

theorem Completion.Traced.normal {O : Moments} {s : Store} : Completion.normal.Traced O s := by
  intro v h
  cases h

theorem Completion.Traced.returned {O : Moments} {s : Store} {v : Value} (h : v.Traced O s) :
    (Completion.returned v).Traced O s := by
  rintro _ ⟨⟩
  exact h

theorem Completion.Traced.value {O : Moments} {s : Store} {c : Completion} (h : c.Traced O s) :
    c.value.Traced O s := by
  cases c with
  | normal => trivial
  | returned v => exact h v rfl

namespace Task

/-- The values that a task works on are traced. -/
def Traced (O : Moments) (s : Store) : Task → Prop
  | call callee _ args => callee.Traced O s ∧ ∀ v ∈ args, v.Traced O s
  | invoke f _ args => f.Made O ∧ ∀ v ∈ args, v.Traced O s
  | bind f i => f.MadeMethod O ∧ i.Made O s
  | write _ _ v => v.Traced O s
  | _ => True

/-- A task comes to traced values within a depth. -/
def Traces (O : Moments) (host : Host) (n : Nat) (m : Machine) : Task → Prop
  | expression e => (evaluate host n e).Traces O m fun v s => v.Traced O s
  | expressions es => (evaluateAll host n es).Traces O m fun vs s => ∀ v ∈ vs, v.Traced O s
  | call f paren args => (Treewalk.call host n f paren args).Traces O m fun v s => v.Traced O s
  | invoke f paren args => (Treewalk.invoke host n f paren args).Traces O m fun v s => v.Traced O s
  | bind f i => (Action.bindMethod f i).Traces O m fun g _ => g.Made O
  | write ref _ v => (Action.assign ref v).Traces O m fun _ _ => True
  | statement s => (execute host n s).Traces O m fun c s => c.Traced O s
  | statements ss => (executeAll host n ss).Traces O m fun c s => c.Traced O s
  | loop condition body => (executeLoop host n condition body).Traces O m fun c s => c.Traced O s

variable {O O' : Moments} {host : Host} {n k : Nat} {t t' : Task} {m m' m'' : Machine} {e : Expr}
  {v : Value} {c : Completion} {s : Stmt}

theorem Traced.mono {s : Store} (h : t.Traced O s) (hO : ∀ k t m, O k t m → O' k t m) :
    t.Traced O' s := by
  cases t with
  | call callee paren args => exact ⟨h.1.mono hO, fun v hv => (h.2 v hv).mono hO⟩
  | invoke f paren args => exact ⟨h.1.mono hO, fun v hv => (h.2 v hv).mono hO⟩
  | bind f i => exact ⟨h.1.mono hO, h.2.ofClass.mono hO, h.2.lt_size⟩
  | write ref e v => exact Value.Traced.mono h hO
  | _ => trivial

/-- The subtasks that come first come to traced values, if they work on such. -/
def Subtraces (O : Moments) (host : Host) (n : Nat) (t : Task) (m : Machine) : Prop :=
  ∀ t₁ m₁, Starts host n t m t₁ m₁ → m₁.store.Traced O → t₁.Traced O m₁.store → t₁.Traces O host n m₁

theorem Subtraces.evaluated (h : Subtraces O host n t m) (hstart : Starts host n t m (.expression e) m')
    (hm : m'.store.Traced O) (hrun : evaluate host n e m' = .ok v m'') :
    m'.Continues O m'' ∧ v.Traced O m''.store := by
  have htraces : (evaluate host n e).Traces O m' fun v s => v.Traced O s := h _ _ hstart hm trivial
  exact htraces.of_ok hrun

theorem Subtraces.executed (h : Subtraces O host n t m) (hstart : Starts host n t m (.statement s) m')
    (hm : m'.store.Traced O) (hrun : execute host n s m' = .ok c m'') : m'.Continues O m'' := by
  have htraces : (execute host n s).Traces O m' fun c s => c.Traced O s := h _ _ hstart hm trivial
  exact (htraces.of_ok hrun).1

/-- What a machine is about to do works on traced values if what it does before comes to such. -/
theorem Starts.traced (h : Starts host n t m t' m') (hm : m.store.Traced O) (ht : t.Traced O m.store)
    (hsub : t.Subtraces O host n m) : m'.store.Traced O ∧ t'.Traced O m'.store := by
  cases h with
  | right hleft => exact ⟨(hsub.evaluated .left hm hleft).1.traced, trivial⟩
  | decided hleft => exact ⟨(hsub.evaluated .decider hm hleft).1.traced, trivial⟩
  | write hvalue =>
    obtain ⟨hgoes, hv⟩ := hsub.evaluated .assigned hm hvalue
    exact ⟨hgoes.traced, hv⟩
  | arguments hcallee => exact ⟨(hsub.evaluated .callee hm hcallee).1.traced, trivial⟩
  | @call _ _ es _ _ m₁ _ _ hcallee hargs =>
    obtain ⟨hgoes, hf⟩ := hsub.evaluated .callee hm hcallee
    have hes : (evaluateAll host n es).Traces O m₁ fun vs s => ∀ v ∈ vs, v.Traced O s :=
      hsub _ _ (.arguments hcallee) hgoes.traced trivial
    obtain ⟨hgoes', hvs⟩ := hes.of_ok hargs
    exact ⟨hgoes'.traced, hf.grow hgoes'.size, hvs⟩
  | property hobject _ hmethod =>
    obtain ⟨hgoes, hi⟩ := hsub.evaluated .object hm hobject
    exact ⟨hgoes.traced, Class.Made.method hi.ofClass hmethod, hi⟩
  | change hobject => exact ⟨(hsub.evaluated .changed hm hobject).1.traced, trivial⟩
  | parentMethod _ hc hi hmethod =>
    exact ⟨hm, Class.Made.method (Action.traced_of_getAt? hm hc) hmethod, Action.traced_of_getAt? hm hi⟩
  | otherArguments hfirst => exact ⟨(hsub.evaluated .firstArgument hm hfirst).1.traced, trivial⟩
  | invoke => exact ⟨hm, ht⟩
  | bind _ hnew hmethod =>
    obtain ⟨hgoes, hi⟩ := (Action.traces_newInstance hm ht.1).of_ok hnew
    exact ⟨hgoes.traced, Class.Made.method ht.1 hmethod, hi⟩
  | @initializer _ _ _ _ i m₁ f _ _ hlength hnew hmethod hbind =>
    obtain ⟨hgoes, hi⟩ := (Action.traces_newInstance hm ht.1).of_ok hnew
    have htraces : (Action.bindMethod f i).Traces O m₁ fun g _ => g.Made O :=
      hsub _ _ (.bind hlength hnew hmethod) hgoes.traced ⟨Class.Made.method ht.1 hmethod, hi⟩
    obtain ⟨hgoes', hg⟩ := htraces.of_ok hbind
    exact ⟨hgoes'.traced, hg, fun v hv => (ht.2 v hv).grow (hgoes.trans hgoes').size⟩
  | body hnew =>
    cases hnew
    exact ⟨hm.addFrame (fun _ v hv => ht.2 v (mem_of_argumentBindings hv)) _, trivial⟩
  | block hnew =>
    cases hnew
    exact ⟨hm.addFrame (by simp) _, trivial⟩
  | whenTrue hcondition | whenFalse hcondition =>
    exact ⟨(hsub.evaluated .condition hm hcondition).1.traced, trivial⟩
  | rest hfirst => exact ⟨(hsub.executed .first hm hfirst).traced, trivial⟩
  | loopBody hcondition => exact ⟨(hsub.evaluated .loopCondition hm hcondition).1.traced, trivial⟩
  | again hcondition htruthy hbody =>
    have hgoes := (hsub.evaluated .loopCondition hm hcondition).1
    exact ⟨(hsub.executed (.loopBody hcondition htruthy) hgoes.traced hbody).traced, trivial⟩
  | _ => exact ⟨hm, trivial⟩

/-- All subtasks come to traced values, and the moments at which they begin are known. -/
structure Traceable (O : Moments) (host : Host) (n : Nat) (t : Task) (m : Machine) : Prop where
  traces : ∀ t₁ m₁, Starts host n t m t₁ m₁ → t₁.Traces O host n m₁
  known : ∀ t₁ m₁, Starts host n t m t₁ m₁ → O n t₁ m₁

namespace Traceable

theorem evaluate (h : Traceable O host n t m) (hstart : Starts host n t m (.expression e) m') :
    (Treewalk.evaluate host n e).Traces O m' fun v s => v.Traced O s :=
  h.traces _ _ hstart

theorem evaluateAll {es : List Expr} (h : Traceable O host n t m)
    (hstart : Starts host n t m (.expressions es) m') :
    (Treewalk.evaluateAll host n es).Traces O m' fun vs s => ∀ v ∈ vs, v.Traced O s :=
  h.traces _ _ hstart

theorem call {f : Value} {paren : Token} {args : List Value} (h : Traceable O host n t m)
    (hstart : Starts host n t m (.call f paren args) m') :
    (Treewalk.call host n f paren args).Traces O m' fun v s => v.Traced O s :=
  h.traces _ _ hstart

theorem invoke {f : Closure} {paren : Token} {args : List Value} (h : Traceable O host n t m)
    (hstart : Starts host n t m (.invoke f paren args) m') :
    (Treewalk.invoke host n f paren args).Traces O m' fun v s => v.Traced O s :=
  h.traces _ _ hstart

theorem execute (h : Traceable O host n t m) (hstart : Starts host n t m (.statement s) m') :
    (Treewalk.execute host n s).Traces O m' fun c s => c.Traced O s :=
  h.traces _ _ hstart

theorem executeAll {ss : List Stmt} (h : Traceable O host n t m)
    (hstart : Starts host n t m (.statements ss) m') :
    (Treewalk.executeAll host n ss).Traces O m' fun c s => c.Traced O s :=
  h.traces _ _ hstart

theorem executeLoop (h : Traceable O host n t m) (hstart : Starts host n t m (.loop e s) m') :
    (Treewalk.executeLoop host n e s).Traces O m' fun c s => c.Traced O s :=
  h.traces _ _ hstart

end Traceable

theorem traces_expression (hm : m.store.Traced O) (hsub : Traceable O host n (.expression e) m) :
    (evaluate host (n + 1) e).Traces O m fun v s => v.Traced O s := by
  cases e with rw [evaluate]
  | literal value => exact .pure hm (Value.isPlain_ofLiteral value).traced
  | grouping inner => exact hsub.evaluate .grouping
  | unary op operand =>
    refine (hsub.evaluate .operand).bind fun v m' _ hgoes _ => ?_
    exact Action.traces_lift hgoes.traced fun a ha => (Value.isPlain_of_unary ha).traced
  | binary left op right =>
    refine (hsub.evaluate .left).bind fun a m' hrun _ _ => ?_
    refine (hsub.evaluate (.right hrun)).bind fun b m'' _ hgoes _ => ?_
    exact Action.traces_lift hgoes.traced fun a ha => (Value.isPlain_of_binary ha).traced
  | logical left op right =>
    refine (hsub.evaluate .decider).bind fun a m' hrun hgoes ha => ?_
    cases hdecides : a.decides op.terminal with
    | true => exact .pure hgoes.traced ha
    | false => exact hsub.evaluate (.decided hrun hdecides)
  | assign ref value =>
    refine (hsub.evaluate .assigned).bind fun v m' _ hgoes hv => ?_
    refine (Action.traces_assign hgoes.traced hv).bind fun _ m'' _ hgoes' _ => ?_
    exact .pure hgoes'.traced (hv.grow hgoes'.size)
  | call callee paren arguments =>
    refine (hsub.evaluate .callee).bind fun f m' hrun _ _ => ?_
    refine (hsub.evaluateAll (.arguments hrun)).bind fun args m'' hrun' _ _ => ?_
    exact hsub.call (.call hrun hrun')
  | get object name =>
    refine (hsub.evaluate .object).bind fun v m' hrun hgoes hv => ?_
    cases v with
    | instanceRef i =>
      exact Action.traces_getProperty hgoes.traced hv fun f hfield hmethod =>
        ⟨n, hsub.known _ _ (.property hrun hfield hmethod)⟩
    | _ => exact Action.traces_fail hgoes.traced
  | set object name value =>
    refine (hsub.evaluate .changed).bind fun v m' hrun hgoes _ => ?_
    cases v with
    | instanceRef i =>
      refine (hsub.evaluate (.change hrun)).bind fun v m'' _ hgoes' hv => ?_
      have hsize : m''.store.fields.size ≤
          (m''.store.setField i.identity name.lexeme v).fields.size := by
        simp [Store.setField]
      refine Action.Traces.bind (P := fun _ s => v.Traced O s) ?_ fun _ m₃ _ hgoes₃ hv₃ =>
        .pure hgoes₃.traced hv₃
      exact .of_run rfl (hgoes'.traced.setField hv _) hsize (hv.grow hsize)
    | _ => exact Action.traces_fail hgoes.traced
  | parent ref method =>
    exact Action.traces_getParentMethod hm fun d c i f hd hc hi hmethod =>
      ⟨n, hsub.known _ _ (.parentMethod hd hc hi hmethod)⟩
  | _ => exact Action.traces_lookUp hm _

theorem traces_expressions {es : List Expr} (hm : m.store.Traced O)
    (hsub : Traceable O host n (.expressions es) m) :
    (evaluateAll host (n + 1) es).Traces O m fun vs s => ∀ v ∈ vs, v.Traced O s := by
  cases es with rw [evaluateAll]
  | nil => exact .pure hm (by simp)
  | cons e rest =>
    refine (hsub.evaluate .firstArgument).bind fun v m' hrun _ hv => ?_
    refine (hsub.evaluateAll (.otherArguments hrun)).bind fun vs m'' _ hgoes hvs => ?_
    exact .pure hgoes.traced (List.forall_mem_cons.mpr ⟨hv.grow hgoes.size, hvs⟩)

theorem traces_checkCount (hm : m.store.Traced O) (paren : Token) (expected given : Nat) :
    (Action.checkCount paren expected given).Traces O m fun _ _ => True := by
  unfold Action.checkCount
  split
  · exact .pure hm trivial
  · exact Action.traces_fail hm

theorem traces_call (hhost : host.AnswersNumbers) {f : Value} {paren : Token} {args : List Value}
    (hm : m.store.Traced O) (hf : f.Traced O m.store)
    (hsub : Traceable O host n (.call f paren args) m) :
    (Treewalk.call host (n + 1) f paren args).Traces O m fun v s => v.Traced O s := by
  cases f with simp only [Treewalk.call]
  | function f =>
    refine (traces_checkCount hm paren _ _).bind fun _ m' hrun _ _ => ?_
    obtain ⟨hlength, rfl⟩ := checkCount_eq_ok hrun
    exact hsub.invoke (.invoke hlength)
  | native f =>
    refine (traces_checkCount hm paren _ _).bind fun _ m' _ hgoes _ => ?_
    exact Action.traces_callHost hgoes.traced hhost f paren args
  | classRef c =>
    refine (traces_checkCount hm paren _ _).bind fun _ m' hrun _ _ => ?_
    obtain ⟨hlength, rfl⟩ := checkCount_eq_ok hrun
    refine (Action.traces_newInstance hm hf).bind fun i m₁ hnew hgoes hi => ?_
    cases hmethod : c.method? initializerName with
    | none => exact .pure hgoes.traced hi
    | some f =>
      have hbind : (Action.bindMethod f i).Traces O m₁ fun g _ => g.Made O :=
        hsub.traces _ _ (.bind hlength hnew hmethod)
      refine hbind.bind fun g m₂ hrun hgoes₂ _ => ?_
      refine (hsub.invoke (.initializer hlength hnew hmethod hrun)).bind fun _ m₃ _ hgoes₃ _ => ?_
      exact .pure hgoes₃.traced (Value.Traced.grow hi (hgoes₂.trans hgoes₃).size)
  | _ => exact Action.traces_fail hm

theorem traces_invoke {f : Closure} {paren : Token} {args : List Value} (hm : m.store.Traced O)
    (hargs : ∀ v ∈ args, v.Traced O m.store) (hsub : Traceable O host n (.invoke f paren args) m) :
    (Treewalk.invoke host (n + 1) f paren args).Traces O m fun v s => v.Traced O s := by
  rw [Treewalk.invoke]
  have hnew : (Action.newFrame (argumentBindings f.decl.params args) f.frame).Traces O m
      fun _ _ => True :=
    .of_run rfl (hm.addFrame (fun _ v hv => hargs v (mem_of_argumentBindings hv)) _) (Nat.le_refl _) trivial
  refine hnew.bind fun frame m₁ hrun _ _ => ?_
  refine (Action.Traces.inFrame (hsub.executeAll (.body hrun))).bind fun c m₂ _ hgoes hc => ?_
  split
  · exact .get_bind (Action.traces_require hgoes.traced fun v hv =>
      Action.traced_of_getAt? hgoes.traced hv)
  · exact .pure hgoes.traced hc.value

theorem traces_statement (hm : m.store.Traced O) (hknown : O (n + 1) (.statement s) m)
    (hsub : Traceable O host n (.statement s) m) :
    (execute host (n + 1) s).Traces O m fun c s => c.Traced O s := by
  cases s with
  | expression e =>
    rw [execute]
    exact (hsub.evaluate .value).bind fun _ m' _ hgoes _ => .pure hgoes.traced .normal
  | print e =>
    rw [execute]
    refine (hsub.evaluate .printed).bind fun v m' _ hgoes _ => ?_
    exact (Action.traces_print hgoes.traced v.text).bind fun _ m'' _ hgoes' _ =>
      .pure hgoes'.traced .normal
  | var name initial =>
    cases initial with
    | none =>
      rw [execute]
      exact (Action.traces_define (v := .null) hm trivial).bind fun _ m' _ hgoes _ =>
        .pure hgoes.traced .normal
    | some e =>
      rw [execute]
      refine (hsub.evaluate .initial).bind fun v m' _ hgoes hv => ?_
      exact (Action.traces_define hgoes.traced hv).bind fun _ m'' _ hgoes' _ =>
        .pure hgoes'.traced .normal
  | block ss =>
    rw [execute]
    have hnew : (Action.newFrame ∅ m.active).Traces O m fun _ _ => True :=
      .of_run rfl (hm.addFrame (by simp) _) (Nat.le_refl _) trivial
    exact .get_bind (hnew.bind fun frame m' hrun _ _ =>
      Action.Traces.inFrame (hsub.executeAll (.block hrun)))
  | branch e s other =>
    rw [execute.eq_def]
    refine (hsub.evaluate .condition).bind fun v m' hrun hgoes _ => ?_
    cases htruthy : v.isTruthy with
    | true => exact hsub.execute (.whenTrue hrun htruthy)
    | false =>
      cases other with
      | none => exact .pure hgoes.traced .normal
      | some other => exact hsub.execute (.whenFalse hrun htruthy)
  | loop e s =>
    rw [execute]
    exact hsub.executeLoop .loop
  | function decl =>
    rw [execute]
    have hnew : (Action.newClosure decl m.active false).Traces O m fun f _ => f.Made O :=
      .of_run (a := decl.madeOn m) rfl hm (Nat.le_refl _) (.function hknown)
    refine .get_bind (hnew.bind fun f m' _ hgoes hf => ?_)
    exact (Action.traces_define (v := .function f) hgoes.traced hf).bind fun _ m'' _ hgoes' _ =>
      .pure hgoes'.traced .normal
  | giveBack word e? =>
    cases e? with
    | none =>
      rw [execute]
      exact .pure hm (.returned (v := .null) trivial)
    | some e =>
      rw [execute]
      refine (hsub.evaluate .givenBack).bind fun v m' _ hgoes hv => ?_
      exact .pure hgoes.traced (.returned hv)
  | classDecl name parent methods =>
    rw [execute]
    exact (Action.traces_declareClass hm hknown).bind fun _ m' _ hgoes _ =>
      .pure hgoes.traced .normal

theorem traces_statements {ss : List Stmt} (hm : m.store.Traced O)
    (hsub : Traceable O host n (.statements ss) m) :
    (executeAll host (n + 1) ss).Traces O m fun c s => c.Traced O s := by
  cases ss with rw [executeAll]
  | nil => exact .pure hm .normal
  | cons s rest =>
    refine (hsub.execute .first).bind fun c m' hrun hgoes hc => ?_
    cases c with
    | normal => exact hsub.executeAll (.rest hrun)
    | returned v => exact .pure hgoes.traced hc

theorem traces_loop (hsub : Traceable O host n (.loop e s) m) :
    (executeLoop host (n + 1) e s).Traces O m fun c s => c.Traced O s := by
  rw [executeLoop]
  refine (hsub.evaluate .loopCondition).bind fun v m' hrun hgoes _ => ?_
  cases htruthy : v.isTruthy with
  | false => exact .pure hgoes.traced .normal
  | true =>
    refine (hsub.execute (.loopBody hrun htruthy)).bind fun c m'' hrun' hgoes' hc => ?_
    cases c with
    | normal => exact hsub.executeLoop (.again hrun htruthy hrun')
    | returned v => exact .pure hgoes'.traced hc

theorem traces_bind {f : Closure} {i : Instance} (hm : m.store.Traced O)
    (ht : Traced O m.store (.bind f i)) (hknown : O n (.bind f i) m) :
    Traces O host n m (.bind f i) :=
  Action.traces_bindMethod hm ht.2 hknown

/-- All moments within a task are known. -/
def Recorded (O : Moments) (host : Host) (n : Nat) (t : Task) (m : Machine) : Prop :=
  ∀ k t' m', Reaches host n t m k t' m' → O k t' m'

theorem Recorded.starts (h : Recorded O host (n + 1) t m) (hstart : Starts host n t m t' m') :
    Recorded O host n t' m' :=
  fun _ _ _ hreaches => h _ _ _ (.step hstart hreaches)

/-- What works on traced values comes to traced values. -/
theorem traces (hhost : host.AnswersNumbers) (n : Nat) (t : Task) (m : Machine)
    (hm : m.store.Traced O) (ht : t.Traced O m.store) (hrecorded : t.Recorded O host n m) :
    t.Traces O host n m := by
  induction n generalizing t m with
  | zero =>
    cases t with
    | bind f i => exact traces_bind hm ht (hrecorded _ _ _ .self)
    | write ref value v => exact Action.traces_assign hm ht
    | _ => exact ⟨hm, Nat.le_refl _⟩
  | succ n ih =>
    have hknown : O (n + 1) t m := hrecorded _ t m .self
    have htraces : t.Subtraces O host n m := fun t₁ m₁ hstart hm₁ ht₁ =>
      ih t₁ m₁ hm₁ ht₁ (hrecorded.starts hstart)
    have hsub : Traceable O host n t m := by
      refine ⟨fun t₁ m₁ hstart => ?_, fun t₁ m₁ hstart => hrecorded.starts hstart _ _ _ .self⟩
      obtain ⟨hm₁, ht₁⟩ := hstart.traced hm ht htraces
      exact htraces t₁ m₁ hstart hm₁ ht₁
    cases t with
    | expression e => exact traces_expression hm hsub
    | expressions es => exact traces_expressions hm hsub
    | call f paren args => exact traces_call hhost hm ht.1 hsub
    | invoke f paren args => exact traces_invoke hm ht.2 hsub
    | bind f i => exact traces_bind hm ht hknown
    | write ref value v => exact Action.traces_assign hm ht
    | statement s => exact traces_statement hm hknown hsub
    | statements ss => exact traces_statements hm hsub
    | loop e s => exact traces_loop hsub

/-- At every moment within a task that works on traced values, the values are traced. -/
theorem Reaches.traced (h : Reaches host n t m k t' m') (hhost : host.AnswersNumbers)
    (hm : m.store.Traced O) (ht : t.Traced O m.store) (hrecorded : t.Recorded O host n m) :
    m'.store.Traced O ∧ t'.Traced O m'.store := by
  induction h with
  | self => exact ⟨hm, ht⟩
  | step hstart _ ih =>
    obtain ⟨hm₁, ht₁⟩ := hstart.traced hm ht fun t₁ m₁ hstart hm₁ ht₁ =>
      traces hhost _ t₁ m₁ hm₁ ht₁ (hrecorded.starts hstart)
    exact ih hm₁ ht₁ (hrecorded.starts hstart)

end Task

end Treewalk
