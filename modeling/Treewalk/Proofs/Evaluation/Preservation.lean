import Treewalk.Proofs.Evaluation.Moments
import Treewalk.Proofs.Evaluation.Places

/-! Evaluation keeps machines sound. A task fits a machine if the machine is at what the task
evaluates and the values that the task works on are sound; a task that fits is safe, and so are all
tasks that it begins. The proof is by induction on the depth, one step for each task. -/

namespace Treewalk

/-- What a completion returns is sound. -/
def Completion.Sound (W : World) (s : Store) (c : Completion) : Prop :=
  ∀ v, c = .returned v → v.Sound W s

theorem Completion.Sound.value {W : World} {s : Store} {c : Completion} (h : c.Sound W s) :
    c.value.Sound W s := by
  cases c with
  | normal => trivial
  | returned v => exact h v rfl

/-- The operators that stand for one operand fail only on the operand. -/
theorem Halt.legit_of_unary {token : Token} {op : Terminal} {v : Value} {fault : RuntimeFault}
    (hop : op ∈ [Terminal.punct .bang, .punct .minus]) (h : v.unary op = .error fault) :
    (Halt.fault token fault).Legit := by
  simp only [List.mem_cons, List.not_mem_nil, or_false] at hop
  obtain rfl | rfl := hop
  · cases h
  · cases v <;> cases h <;> exact Halt.legit_fault (by simp [RuntimeFault.IsInternal]) (by simp)

/-- The operators between two operands fail only on the operands. -/
theorem Halt.legit_of_binary {token : Token} {op : Terminal} {v w : Value} {fault : RuntimeFault}
    (hop : op ∈ binaryOperators) (h : v.binary op w = .error fault) :
    (Halt.fault token fault).Legit := by
  have hfault : fault = .operandsNotAddable ∨ fault = .operandsNotNumbers := by
    simp only [binaryOperators, List.mem_cons, List.not_mem_nil, or_false] at hop
    unfold Value.binary at h
    split at h
    · cases h
    · cases h
    · split at h <;> cases h
      exact .inl rfl
    · split at h
      · next x y hne hne' hne'' =>
        rcases hop with rfl | rfl | rfl | rfl | rfl | rfl | rfl | rfl | rfl | rfl <;>
          first | exact absurd rfl ‹¬_› | cases h
      · cases h
        exact .inr rfl
  obtain rfl | rfl := hfault <;>
    exact Halt.legit_fault (by simp [RuntimeFault.IsInternal]) (by simp)

/-- Another frame becomes the active one. -/
theorem Machine.Sound.withActive {W : World} {m : Machine} (h : m.Sound W) (f : FrameId) :
    Machine.Sound W { m with active := f } :=
  ⟨h.store, h.distances, h.globals⟩

namespace Task

/-- A task may be done by a machine: the machine is at what is evaluated, and the values are
sound. -/
def Fitting (W : World) (m : Machine) : Task → Prop
  | expression e => ∃ underway, m.At W (.expression underway e)
  | expressions es => ∀ e ∈ es, ∃ underway, m.At W (.expression underway e)
  | call callee _ args => callee.Sound W m.store ∧ ∀ v ∈ args, v.Sound W m.store
  | invoke f _ args =>
    f.Sound W m.store ∧ args.length = f.arity ∧ ∀ v ∈ args, v.Sound W m.store
  | bind f i => f.SoundMethod W m.store ∧ i.ofClass.Sound W m.store
  | write ref value v =>
    (∃ underway, m.At W (.expression underway (.assign ref value))) ∧ v.Sound W m.store
  | statement s => m.At W (.statement s)
  | statements ss => m.At W (.statements ss)
  | loop condition body => m.At W (.expression none condition) ∧ m.At W (.statement body)

/-- A task is safe within a depth. -/
def Safe (W : World) (host : Host) (n : Nat) (m : Machine) : Task → Prop
  | expression e => (evaluate host n e).Safe W m fun v s => v.Sound W s
  | expressions es => (evaluateAll host n es).Safe W m fun vs s => ∀ v ∈ vs, v.Sound W s
  | call f paren args => (Treewalk.call host n f paren args).Safe W m fun v s => v.Sound W s
  | invoke f paren args => (Treewalk.invoke host n f paren args).Safe W m fun v s => v.Sound W s
  | bind f i => (Action.bindMethod f i).Safe W m fun g s => g.Sound W s ∧ g.decl = f.decl
  | write ref _ v => (Action.assign ref v).Safe W m fun _ _ => True
  | statement s => (execute host n s).Safe W m fun c after => c.Sound W after ∧
      (c = .normal → ∀ name ∈ s.declared?, (after.binding? m.active name.lexeme).isSome)
  | statements ss => (executeAll host n ss).Safe W m fun c s => c.Sound W s
  | loop condition body => (executeLoop host n condition body).Safe W m fun c s => c.Sound W s

/-- The frames that a task makes itself, when this depth is left, are known in the world. -/
def Known (W : World) (n : Nat) (t : Task) (m : Machine) : Prop :=
  ∀ o, t.MakesWithin n m o → W.made m.store.frames.size o

variable {W : World} {host : Host} {n : Nat} {t t' : Task} {m m' m'' : Machine} {e e' : Expr}

theorem Fitting.child (h : Fitting W m (.expression e)) (he : e' ∈ e.children) :
    Fitting W m (.expression e') := by
  obtain ⟨underway, hat⟩ := h
  exact ⟨underway, hat.child he⟩

theorem Fitting.becomes (h : Fitting W m (.expression e)) (hbecomes : m.Becomes W m') :
    Fitting W m' (.expression e) := by
  obtain ⟨underway, hat⟩ := h
  exact ⟨underway, hat.becomes hbecomes⟩

/-- The subtasks that come first are safe, if they fit. -/
def Subsafe (W : World) (host : Host) (n : Nat) (t : Task) (m : Machine) : Prop :=
  ∀ t₁ m₁, Starts host n t m t₁ m₁ → m₁.Sound W → t₁.Fitting W m₁ → t₁.Safe W host n m₁

namespace Subsafe

variable {v : Value} {c : Completion} {s : Stmt}

theorem evaluated (h : Subsafe W host n t m) (hstart : Starts host n t m (.expression e) m')
    (hm : m'.Sound W) (he : Fitting W m' (.expression e)) (hrun : evaluate host n e m' = .ok v m'') :
    m'.Becomes W m'' ∧ v.Sound W m''.store := by
  have hsafe : (evaluate host n e).Safe W m' fun v s => v.Sound W s := h _ _ hstart hm he
  exact hsafe.of_ok hrun

theorem executed (h : Subsafe W host n t m) (hstart : Starts host n t m (.statement s) m')
    (hm : m'.Sound W) (hs : Fitting W m' (.statement s)) (hrun : execute host n s m' = .ok c m'') :
    m'.Becomes W m'' ∧ c.Sound W m''.store ∧
      (c = .normal → ∀ name ∈ s.declared?, (m''.store.binding? m'.active name.lexeme).isSome) := by
  have hsafe : (execute host n s).Safe W m' fun c after => c.Sound W after ∧
      (c = .normal → ∀ name ∈ s.declared?, (after.binding? m'.active name.lexeme).isSome) :=
    h _ _ hstart hm hs
  exact hsafe.of_ok hrun

end Subsafe

/-- What a machine is about to do fits if what it does before is safe. -/
theorem Starts.fitting (h : Starts host n t m t' m') (hW : W.Accepted) (hm : m.Sound W)
    (ht : t.Fitting W m) (hknown : t.Known W (n + 1) m) (hsafe : t.Subsafe W host n m) :
    m'.Sound W ∧ t'.Fitting W m' := by
  cases h with
  | grouping | operand | left | decider | assigned | callee | object | changed =>
    exact ⟨hm, ht.child (by simp [Expr.children])⟩
  | right hleft =>
    obtain ⟨hbecomes, -⟩ := hsafe.evaluated .left hm (ht.child (by simp [Expr.children])) hleft
    exact ⟨hbecomes.sound, (ht.becomes hbecomes).child (by simp [Expr.children])⟩
  | decided hleft =>
    obtain ⟨hbecomes, -⟩ := hsafe.evaluated .decider hm (ht.child (by simp [Expr.children])) hleft
    exact ⟨hbecomes.sound, (ht.becomes hbecomes).child (by simp [Expr.children])⟩
  | write hvalue =>
    obtain ⟨hbecomes, hv⟩ := hsafe.evaluated .assigned hm (ht.child List.mem_cons_self) hvalue
    exact ⟨hbecomes.sound, ht.becomes hbecomes, hv⟩
  | arguments hcallee =>
    obtain ⟨hbecomes, -⟩ := hsafe.evaluated .callee hm (ht.child List.mem_cons_self) hcallee
    exact ⟨hbecomes.sound, fun e he => (ht.becomes hbecomes).child (List.mem_cons_of_mem _ he)⟩
  | @call _ _ es _ _ _ _ _ hcallee hargs =>
    obtain ⟨hbecomes, hf⟩ := hsafe.evaluated .callee hm (ht.child List.mem_cons_self) hcallee
    have hes : (evaluateAll host n es).Safe W _ fun vs s => ∀ v ∈ vs, v.Sound W s :=
      hsafe _ _ (.arguments hcallee) hbecomes.sound fun e he =>
        (ht.becomes hbecomes).child (List.mem_cons_of_mem _ he)
    obtain ⟨hbecomes', hvs⟩ := hes.of_ok hargs
    exact ⟨hbecomes'.sound, hf.mono hbecomes'.grows, hvs⟩
  | property hobject _ hmethod =>
    obtain ⟨hbecomes, hi⟩ := hsafe.evaluated .object hm (ht.child List.mem_cons_self) hobject
    exact ⟨hbecomes.sound, Class.Sound.method hi hmethod, hi⟩
  | change hobject =>
    obtain ⟨hbecomes, -⟩ := hsafe.evaluated .changed hm (ht.child List.mem_cons_self) hobject
    exact ⟨hbecomes.sound, (ht.becomes hbecomes).child (by simp [Expr.children])⟩
  | parentMethod _ hc hi hmethod =>
    obtain ⟨frame, -, hc⟩ := Option.bind_eq_some_iff.mp hc
    obtain ⟨frame', -, hi⟩ := Option.bind_eq_some_iff.mp hi
    exact ⟨hm, Class.Sound.method (hm.store.values _ _ _ hc) hmethod, hm.store.values _ _ _ hi⟩
  | firstArgument => exact ⟨hm, ht _ List.mem_cons_self⟩
  | otherArguments hfirst =>
    obtain ⟨hbecomes, -⟩ := hsafe.evaluated .firstArgument hm (ht _ List.mem_cons_self) hfirst
    refine ⟨hbecomes.sound, fun e he => ?_⟩
    exact Fitting.becomes (ht e (List.mem_cons_of_mem _ he)) hbecomes
  | invoke hlength => exact ⟨hm, ht.1, hlength, ht.2⟩
  | bind _ hnew hmethod =>
    obtain ⟨hbecomes, rfl, hi⟩ := (Action.safe_newInstance hm ht.1).of_ok hnew
    exact ⟨hbecomes.sound, hi.method hmethod, hi⟩
  | @initializer _ _ _ _ i m₁ f _ _ hlength hnew hmethod hbind =>
    obtain ⟨hbecomes, rfl, hi⟩ := (Action.safe_newInstance hm ht.1).of_ok hnew
    have hsafe' : (Action.bindMethod f i).Safe W m₁ fun g s => g.Sound W s ∧ g.decl = f.decl :=
      hsafe _ _ (.bind hlength hnew hmethod) hbecomes.sound ⟨hi.method hmethod, hi⟩
    obtain ⟨hbecomes', hg, hdecl⟩ := hsafe'.of_ok hbind
    refine ⟨hbecomes'.sound, hg, ?_, fun v hv => ?_⟩
    · rw [hlength, Class.arity, hmethod, Option.elim_some, Closure.arity, Closure.arity, hdecl]
    · exact (ht.2 v hv).mono (hbecomes.grows.trans hbecomes'.grows)
  | @body f _ args _ frame _ hnew =>
    obtain ⟨⟨p, hp, kind, ctx, os, hvisits, -, hfits⟩, hlength, hargs⟩ := ht
    have hdecl : f.decl.Spelled Token.IsName := hvisits.spelled (hW.spelled p hp)
    have hbindings := argumentBindings_sound hlength (FunctionDecl.spelled_iff.mp hdecl).2.1 hargs
    obtain ⟨hbecomes, rfl, hs⟩ := (Action.safe_newFrame hm hbindings f.frame).of_ok hnew
    refine ⟨hbecomes.sound.withActive _, p, hp, _, _, hvisits.body, ?_⟩
    obtain ⟨scope, hscopes, hnames⟩ := ctx.scopes_body kind f.decl.params
    rw [hscopes, hs]
    refine .frame (hknown _ (.deeper .call)) (fun name hname _ => ?_)
      (Store.enclosing?_addFrame_self (hfits.lt_size hm.store.globals))
      (hfits.mono (m.store.grows_addFrame _ _))
    rw [Store.binding?_addFrame_self]
    exact (argumentBindings_binds hlength).mpr (hnames name hname)
  | value | printed | givenBack | condition =>
    obtain ⟨p, hp, ctx, os, hvisits, hfits⟩ := ht
    first
    | exact ⟨hm, none, p, hp, ctx, os, hvisits.value, hfits⟩
    | exact ⟨hm, none, p, hp, ctx, os, hvisits.printed, hfits⟩
    | exact ⟨hm, none, p, hp, ctx, os, hvisits.givenBack, hfits⟩
    | exact ⟨hm, none, p, hp, ctx, os, hvisits.condition, hfits⟩
  | whenTrue hcondition _ =>
    obtain ⟨p, hp, ctx, os, hvisits, hfits⟩ := ht
    have he : Fitting W m (.expression _) := ⟨none, p, hp, ctx, os, hvisits.condition, hfits⟩
    obtain ⟨hbecomes, -⟩ := hsafe.evaluated .condition hm he hcondition
    exact ⟨hbecomes.sound, Machine.At.becomes ⟨p, hp, ctx, os, hvisits.whenTrue, hfits⟩ hbecomes⟩
  | whenFalse hcondition _ =>
    obtain ⟨p, hp, ctx, os, hvisits, hfits⟩ := ht
    have he : Fitting W m (.expression _) := ⟨none, p, hp, ctx, os, hvisits.condition, hfits⟩
    obtain ⟨hbecomes, -⟩ := hsafe.evaluated .condition hm he hcondition
    exact ⟨hbecomes.sound, Machine.At.becomes ⟨p, hp, ctx, os, hvisits.whenFalse, hfits⟩ hbecomes⟩
  | initial =>
    obtain ⟨p, hp, ctx, os, hvisits, hfits⟩ := ht
    exact ⟨hm, _, p, hp, _, os, hvisits.initial, hfits.declare⟩
  | @block ss _ frame _ hnew =>
    obtain ⟨p, hp, ctx, os, hvisits, hfits⟩ := ht
    have hbindings : Bindings.Sound W m.store ∅ := ⟨by simp, by simp, by simp⟩
    obtain ⟨hbecomes, rfl, hs⟩ := (Action.safe_newFrame hm hbindings m.active).of_ok hnew
    refine ⟨hbecomes.sound.withActive _, p, hp, _, _, hvisits.block, ?_⟩
    rw [hs]
    refine .frame (hknown _ (.deeper .block)) (fun name hname _ => ?_)
      (Store.enclosing?_addFrame_self (hfits.lt_size hm.store.globals))
      (hfits.mono (m.store.grows_addFrame _ _))
    simp at hname
  | loop =>
    obtain ⟨p, hp, ctx, os, hvisits, hfits⟩ := ht
    exact ⟨hm, ⟨p, hp, ctx, os, hvisits.loopCondition, hfits⟩, p, hp, ctx, os, hvisits.loopBody,
      hfits⟩
  | heritage =>
    obtain ⟨p, hp, ctx, os, hvisits, hfits⟩ := ht
    exact ⟨hm, _, p, hp, _, os, hvisits.heritage, hfits.defineLater⟩
  | first =>
    obtain ⟨p, hp, ctx, os, hvisits, hfits⟩ := ht
    exact ⟨hm, p, hp, ctx, os, hvisits.first, hfits⟩
  | @rest s rest _ _ hfirst =>
    obtain ⟨p, hp, ctx, os, hvisits, hfits⟩ := ht
    obtain ⟨hbecomes, -, hdeclared⟩ :=
      hsafe.executed .first hm ⟨p, hp, ctx, os, hvisits.first, hfits⟩ hfirst
    refine ⟨hbecomes.sound, p, hp, _, os, hvisits.rest, ?_⟩
    have hfits' := hfits.mono hbecomes.grows
    rw [hbecomes.active]
    unfold Context.after
    cases hname : s.declared? with
    | none => exact hfits'
    | some name => exact hfits'.define (.inl rfl) (hdeclared rfl name hname)
  | loopCondition => exact ⟨hm, none, ht.1⟩
  | loopBody hcondition _ =>
    obtain ⟨hbecomes, -⟩ := hsafe.evaluated .loopCondition hm ⟨none, ht.1⟩ hcondition
    exact ⟨hbecomes.sound, ht.2.becomes hbecomes⟩
  | again hcondition htruthy hbody =>
    obtain ⟨hbecomes, -⟩ := hsafe.evaluated .loopCondition hm ⟨none, ht.1⟩ hcondition
    obtain ⟨hbecomes', -⟩ := hsafe.executed (.loopBody hcondition htruthy) hbecomes.sound
      (ht.2.becomes hbecomes) hbody
    have hall := hbecomes.trans hbecomes'
    exact ⟨hall.sound, ht.1.becomes hall, ht.2.becomes hall⟩

/-- All subtasks are safe, and the frames that they make are known. -/
structure Subtasks (W : World) (host : Host) (n : Nat) (t : Task) (m : Machine) : Prop where
  safe : ∀ t₁ m₁, Starts host n t m t₁ m₁ → t₁.Safe W host n m₁
  known : ∀ t₁ m₁, Starts host n t m t₁ m₁ → t₁.Known W n m₁

namespace Subtasks

theorem evaluate (h : Subtasks W host n t m) (hstart : Starts host n t m (.expression e) m') :
    (Treewalk.evaluate host n e).Safe W m' fun v s => v.Sound W s :=
  h.safe _ _ hstart

theorem evaluateAll {es : List Expr} (h : Subtasks W host n t m)
    (hstart : Starts host n t m (.expressions es) m') :
    (Treewalk.evaluateAll host n es).Safe W m' fun vs s => ∀ v ∈ vs, v.Sound W s :=
  h.safe _ _ hstart

theorem call {f : Value} {paren : Token} {args : List Value} (h : Subtasks W host n t m)
    (hstart : Starts host n t m (.call f paren args) m') :
    (Treewalk.call host n f paren args).Safe W m' fun v s => v.Sound W s :=
  h.safe _ _ hstart

theorem invoke {f : Closure} {paren : Token} {args : List Value} (h : Subtasks W host n t m)
    (hstart : Starts host n t m (.invoke f paren args) m') :
    (Treewalk.invoke host n f paren args).Safe W m' fun v s => v.Sound W s :=
  h.safe _ _ hstart

theorem execute {s : Stmt} (h : Subtasks W host n t m)
    (hstart : Starts host n t m (.statement s) m') :
    (Treewalk.execute host n s).Safe W m' fun c after => c.Sound W after ∧
      (c = .normal → ∀ name ∈ s.declared?, (after.binding? m'.active name.lexeme).isSome) :=
  h.safe _ _ hstart

theorem executeAll {ss : List Stmt} (h : Subtasks W host n t m)
    (hstart : Starts host n t m (.statements ss) m') :
    (Treewalk.executeAll host n ss).Safe W m' fun c s => c.Sound W s :=
  h.safe _ _ hstart

theorem executeLoop {s : Stmt} (h : Subtasks W host n t m)
    (hstart : Starts host n t m (.loop e s) m') :
    (Treewalk.executeLoop host n e s).Safe W m' fun c s => c.Sound W s :=
  h.safe _ _ hstart

end Subtasks

theorem safe_expression (hW : W.Accepted) (hm : m.Sound W) (he : Fitting W m (.expression e))
    (hsub : Subtasks W host n (.expression e) m) :
    (evaluate host (n + 1) e).Safe W m fun v s => v.Sound W s := by
  obtain ⟨underway, hat⟩ := he
  have hspelled : e.Spelled Token.IsName := hat.spelled hW
  cases e with rw [evaluate]
  | literal value => exact .pure hm (Value.isPlain_ofLiteral value).sound
  | grouping inner => exact hsub.evaluate .grouping
  | unary op operand =>
    refine (hsub.evaluate .operand).bind fun v m' _ hbecomes _ => ?_
    exact Action.safe_lift hbecomes.sound (fun a ha => (Value.isPlain_of_unary ha).sound) fun fault hfault =>
      Halt.legit_of_unary hspelled.1 hfault
  | binary left op right =>
    refine (hsub.evaluate .left).bind fun a m' hrun hbecomes _ => ?_
    refine (hsub.evaluate (.right hrun)).bind fun b m'' _ hbecomes' _ => ?_
    exact Action.safe_lift hbecomes'.sound (fun a ha => (Value.isPlain_of_binary ha).sound) fun fault hfault =>
      Halt.legit_of_binary hspelled.1 hfault
  | logical left op right =>
    refine (hsub.evaluate .decider).bind fun a m' hrun hbecomes ha => ?_
    cases hdecides : a.decides op.terminal with
    | true => exact .pure hbecomes.sound ha
    | false => exact hsub.evaluate (.decided hrun hdecides)
  | assign ref value =>
    refine (hsub.evaluate .assigned).bind fun v m' _ hbecomes hv => ?_
    refine (Action.safe_assign hbecomes.sound hspelled.1 hv).bind fun _ m'' _ hbecomes' _ => ?_
    exact .pure hbecomes'.sound (hv.mono hbecomes'.grows)
  | call callee paren arguments =>
    refine (hsub.evaluate .callee).bind fun f m' hrun hbecomes _ => ?_
    refine (hsub.evaluateAll (.arguments hrun)).bind fun args m'' hrun' _ _ => ?_
    exact hsub.call (.call hrun hrun')
  | get object name =>
    refine (hsub.evaluate .object).bind fun v m' hrun hbecomes hv => ?_
    cases v with
    | instanceRef i =>
      exact Action.safe_getProperty hbecomes.sound hv fun f hfield hmethod methods hdecl =>
        hsub.known _ _ (.property hrun hfield hmethod) _ (.bind hdecl)
    | _ => exact Action.safe_fail hbecomes.sound (Halt.legit_fault not_false (by simp))
  | set object name value =>
    refine (hsub.evaluate .changed).bind fun v m' hrun hbecomes hv => ?_
    cases v with
    | instanceRef i =>
      refine (hsub.evaluate (.change hrun)).bind fun v m'' _ hbecomes' hv' => ?_
      refine (Action.safe_setProperty hbecomes'.sound i name hv').bind fun _ m₃ _ hbecomes₃ _ => ?_
      exact .pure hbecomes₃.sound (hv'.mono hbecomes₃.grows)
    | _ => exact Action.safe_fail hbecomes.sound (Halt.legit_fault not_false (by simp))
  | parent ref method =>
    obtain ⟨k, c, i, hd, hc, hi⟩ := hat.parent hW hm
    exact Action.safe_getParentMethod hm hd hc hi fun f hmethod methods hdecl =>
      hsub.known _ _ (.parentMethod hd hc hi hmethod) _ (.bind hdecl)
  | _ => exact (Action.safe_lookUp hm _).mono fun v m' _ hv => hv.2.1

theorem safe_expressions {es : List Expr} (hm : m.Sound W)
    (hsub : Subtasks W host n (.expressions es) m) :
    (evaluateAll host (n + 1) es).Safe W m fun vs s => ∀ v ∈ vs, v.Sound W s := by
  cases es with rw [evaluateAll]
  | nil => exact .pure hm (by simp)
  | cons e rest =>
    refine (hsub.evaluate .firstArgument).bind fun v m' hrun hbecomes hv => ?_
    refine (hsub.evaluateAll (.otherArguments hrun)).bind fun vs m'' _ hbecomes' hvs => ?_
    exact .pure hbecomes'.sound (List.forall_mem_cons.mpr ⟨hv.mono hbecomes'.grows, hvs⟩)

theorem checkCount_eq_ok {paren : Token} {expected given : Nat} {u : Unit}
    (h : Action.checkCount paren expected given m = .ok u m') : given = expected ∧ m' = m := by
  unfold Action.checkCount at h
  split at h
  · next heq => cases h; exact ⟨heq, rfl⟩
  · cases h

theorem safe_checkCount (hm : m.Sound W) (paren : Token) (expected given : Nat) :
    (Action.checkCount paren expected given).Safe W m fun _ _ => True := by
  unfold Action.checkCount
  split
  · exact .pure hm trivial
  · exact Action.safe_fail hm (Halt.legit_fault not_false (by simp))

theorem safe_call (hhost : host.AnswersNumbers) {f : Value} {paren : Token} {args : List Value}
    (hm : m.Sound W) (hf : f.Sound W m.store) (hsub : Subtasks W host n (.call f paren args) m) :
    (Treewalk.call host (n + 1) f paren args).Safe W m fun v s => v.Sound W s := by
  cases f with simp only [Treewalk.call]
  | function f =>
    refine (safe_checkCount hm paren _ _).bind fun _ m' hrun _ _ => ?_
    obtain ⟨hlength, rfl⟩ := checkCount_eq_ok hrun
    exact hsub.invoke (.invoke hlength)
  | native f =>
    refine (safe_checkCount hm paren _ _).bind fun _ m' _ hbecomes _ => ?_
    exact Action.safe_callHost hbecomes.sound hhost f paren args
  | classRef c =>
    refine (safe_checkCount hm paren _ _).bind fun _ m' hrun _ _ => ?_
    obtain ⟨hlength, rfl⟩ := checkCount_eq_ok hrun
    refine (Action.safe_newInstance hm hf).bind fun i m₁ hnew hbecomes hi => ?_
    obtain ⟨rfl, hi⟩ := hi
    cases hmethod : i.ofClass.method? initializerName with
    | none => exact .pure hbecomes.sound hi
    | some f =>
      have hstart : Starts host n (.call (.classRef i.ofClass) paren args) m' (.bind f i) m₁ :=
        .bind hlength hnew hmethod
      have hbind : (Action.bindMethod f i).Safe W m₁ fun g s => g.Sound W s ∧ g.decl = f.decl :=
        hsub.safe _ _ hstart
      refine hbind.bind fun g m₂ hrun hbecomes₂ _ => ?_
      refine (hsub.invoke (.initializer hlength hnew hmethod hrun)).bind fun _ m₃ _ hbecomes₃ _ => ?_
      exact .pure hbecomes₃.sound (hi.mono (hbecomes₂.grows.trans hbecomes₃.grows))
  | _ => exact Action.safe_fail hm (Halt.legit_fault not_false (by simp))

theorem safe_invoke (hW : W.Accepted) {f : Closure} {paren : Token} {args : List Value}
    (hm : m.Sound W) (hf : Fitting W m (.invoke f paren args))
    (hsub : Subtasks W host n (.invoke f paren args) m) :
    (Treewalk.invoke host (n + 1) f paren args).Safe W m fun v s => v.Sound W s := by
  obtain ⟨⟨p, hp, kind, ctx, os, hvisits, hkind, hfits⟩, hlength, hargs⟩ := hf
  have hdecl : f.decl.Spelled Token.IsName := hvisits.spelled (hW.spelled p hp)
  have hbindings := argumentBindings_sound hlength (FunctionDecl.spelled_iff.mp hdecl).2.1 hargs
  rw [Treewalk.invoke]
  refine (Action.safe_newFrame hm hbindings f.frame).bind fun frame m₁ hrun hbecomes _ => ?_
  refine (Action.Safe.inFrame (hsub.executeAll (.body hrun))).bind fun c m₂ _ hbecomes' hc => ?_
  split
  · next hinit =>
    refine Action.Safe.get_bind ?_
    -- the frame that the method was bound in has `this`
    obtain ⟨scope, outer, hscopes, hthis⟩ := hvisits.receiver (hkind hinit)
    have hgrows := hbecomes.grows.trans hbecomes'.grows
    obtain ⟨g, -, hg, -, -, hbound⟩ :=
      (hfits.mono hgrows).frame_of_scope (show ctx.scopes[0]? = some scope by rw [hscopes]; rfl)
    obtain hbound | ⟨-, hnone⟩ := hbound _ hthis
    · refine Action.safe_require hbecomes'.sound (fun v hv => ?_) (fun hnone => ?_)
      · obtain ⟨g', -, hv⟩ := Option.bind_eq_some_iff.mp hv
        exact hbecomes'.sound.store.values _ _ _ hv
      · simp [Store.getAt?, hg, Option.isSome_iff_ne_none.mp hbound] at hnone
    · cases hnone
  · exact .pure hbecomes'.sound hc.value

theorem safe_statement (hW : W.Accepted) {s : Stmt} (hm : m.Sound W) (hat : m.At W (.statement s))
    (hknown : Known W (n + 1) (.statement s) m) (hsub : Subtasks W host n (.statement s) m) :
    (execute host (n + 1) s).Safe W m fun c after => c.Sound W after ∧
      (c = .normal → ∀ name ∈ s.declared?, (after.binding? m.active name.lexeme).isSome) := by
  have hspelled : s.Spelled Token.IsName := hat.spelled hW
  have hnormal (m' : Machine) (hm' : m'.Sound W) (hnone : s.declared? = none) :
      Action.Safe W (pure .normal) m' fun (c : Completion) after => c.Sound W after ∧
        (c = .normal → ∀ name ∈ s.declared?, (after.binding? m.active name.lexeme).isSome) := by
    refine .pure hm' ⟨nofun, fun _ name hname => ?_⟩
    rw [hnone] at hname
    cases hname
  cases s with
  | expression e =>
    rw [execute]
    exact (hsub.evaluate .value).bind fun _ m' _ hbecomes _ => hnormal m' hbecomes.sound rfl
  | print e =>
    rw [execute]
    refine (hsub.evaluate .printed).bind fun v m' _ hbecomes _ => ?_
    exact (Action.safe_print hbecomes.sound v.text).bind fun _ m'' _ hbecomes' _ =>
      hnormal m'' hbecomes'.sound rfl
  | var name initial =>
    cases initial with
    | none =>
      obtain ⟨p, hp, ctx, os, hvisits, hfits⟩ := hat
      rw [execute]
      have hdefine := Action.safe_define (v := .null) hm hspelled (hfits.lt_size hm.store.globals) trivial
      refine hdefine.bind fun _ m' _ hbecomes ⟨hbound, _⟩ => ?_
      refine .pure hbecomes.sound ⟨nofun, fun _ => ?_⟩
      rintro _ ⟨⟩
      exact hbound
    | some e =>
      rw [execute]
      refine (hsub.evaluate .initial).bind fun v m' _ hbecomes hv => ?_
      obtain ⟨p, hp, ctx, os, hvisits, hfits⟩ := hat.becomes hbecomes
      have hdefine := Action.safe_define hbecomes.sound hspelled.1
        (hfits.lt_size hbecomes.sound.store.globals) (hv.mono (m'.store.grows_define _ _ _))
      refine hdefine.bind fun _ m'' _ hbecomes' ⟨hbound, _⟩ => ?_
      refine .pure hbecomes'.sound ⟨nofun, fun _ => ?_⟩
      rintro _ ⟨⟩
      rwa [hbecomes.active] at hbound
  | block ss =>
    rw [execute]
    refine Action.Safe.get_bind ?_
    have hbindings : Bindings.Sound W m.store ∅ := ⟨by simp, by simp, by simp⟩
    refine (Action.safe_newFrame hm hbindings m.active).bind fun frame m' hrun hbecomes _ => ?_
    refine (Action.Safe.inFrame (hsub.executeAll (.block hrun))).mono ?_
    exact fun c _ _ hc => ⟨hc, fun _ => nofun⟩
  | branch e s other =>
    rw [execute.eq_def]
    refine (hsub.evaluate .condition).bind fun v m' hrun hbecomes _ => ?_
    cases htruthy : v.isTruthy with
    | true =>
      refine (hsub.execute (.whenTrue hrun htruthy)).mono ?_
      exact fun c _ _ hc => ⟨hc.1, fun _ => nofun⟩
    | false =>
      cases other with
      | none => exact hnormal m' hbecomes.sound rfl
      | some other =>
        refine (hsub.execute (.whenFalse hrun htruthy)).mono ?_
        exact fun c _ _ hc => ⟨hc.1, fun _ => nofun⟩
  | loop e s =>
    rw [execute]
    refine (hsub.executeLoop .loop).mono ?_
    exact fun c _ _ hc => ⟨hc, fun _ => nofun⟩
  | function decl =>
    obtain ⟨p, hp, ctx, os, hvisits, hfits⟩ := hat
    have hname := (FunctionDecl.spelled_iff.mp hspelled).1
    rw [execute]
    refine Action.Safe.get_bind ?_
    refine (Action.safe_newClosure hm decl m.active false).bind fun f m' _ hbecomes hf => ?_
    obtain ⟨hs, rfl, hframe, hinit⟩ := hf
    have hactive : m'.active < m'.store.frames.size := by
      rw [hbecomes.active, hs]
      exact hfits.lt_size hm.store.globals
    have hclosure : (Value.function f).Sound W (m'.store.define m'.active f.decl.name.lexeme (.function f)) := by
      refine ⟨p, hp, _, _, os, hvisits.function, by simp [hinit], ?_⟩
      rw [hframe, hbecomes.active]
      refine (hfits.mono (hbecomes.grows.trans (m'.store.grows_define _ _ _))).define (.inl rfl) ?_
      rw [hbecomes.active] at hactive
      simp [Store.binding?_define_same hactive]
    refine (Action.safe_define hbecomes.sound hname hactive hclosure).bind
      fun _ m'' _ hbecomes' ⟨hbound, _⟩ => ?_
    refine .pure hbecomes'.sound ⟨nofun, fun _ => ?_⟩
    rintro _ ⟨⟩
    rwa [hbecomes.active] at hbound
  | giveBack word e? =>
    cases e? with
    | none =>
      rw [execute]
      exact .pure hm ⟨by rintro _ ⟨⟩; trivial, nofun⟩
    | some e =>
      rw [execute]
      refine (hsub.evaluate .givenBack).bind fun v m' _ hbecomes hv => ?_
      exact .pure hbecomes.sound ⟨by rintro _ ⟨⟩; exact hv, nofun⟩
  | classDecl name parent methods =>
    obtain ⟨p, hp, ctx, os, hvisits, hfits⟩ := hat
    rw [execute]
    have hdeclare := Action.safe_declareClass hm hp hvisits hfits hspelled.1
      (fun ref href => by simp [(hspelled.2.1 ref href).1]) fun ref href c hc => by
        obtain rfl := href
        exact hknown _ (.deeper (.subclass hc))
    refine hdeclare.bind fun _ m' _ hbecomes hbound => ?_
    refine .pure hbecomes.sound ⟨nofun, fun _ => ?_⟩
    rintro _ ⟨⟩
    exact hbound

theorem safe_statements {ss : List Stmt} (hm : m.Sound W)
    (hsub : Subtasks W host n (.statements ss) m) :
    (executeAll host (n + 1) ss).Safe W m fun c s => c.Sound W s := by
  cases ss with rw [executeAll]
  | nil => exact .pure hm nofun
  | cons s rest =>
    refine (hsub.execute .first).bind fun c m' hrun hbecomes hc => ?_
    cases c with
    | normal => exact hsub.executeAll (.rest hrun)
    | returned v => exact .pure hbecomes.sound hc.1

theorem safe_loop {s : Stmt} (hsub : Subtasks W host n (.loop e s) m) :
    (executeLoop host (n + 1) e s).Safe W m fun c s => c.Sound W s := by
  rw [executeLoop]
  refine (hsub.evaluate .loopCondition).bind fun v m' hrun hbecomes _ => ?_
  cases htruthy : v.isTruthy with
  | false => exact .pure hbecomes.sound nofun
  | true =>
    refine (hsub.execute (.loopBody hrun htruthy)).bind fun c m'' hrun' hbecomes' hc => ?_
    cases c with
    | normal => exact hsub.executeLoop (.again hrun htruthy hrun')
    | returned v => exact .pure hbecomes'.sound hc.1

theorem safe_bind {f : Closure} {i : Instance} (hm : m.Sound W) (ht : Fitting W m (.bind f i))
    (hknown : Known W n (.bind f i) m) : Safe W host n m (.bind f i) :=
  Action.safe_bindMethod hm ht.1 ht.2 fun _ hdecl => hknown _ (.bind hdecl)

theorem safe_write (hW : W.Accepted) {ref : Reference} {value : Expr} {v : Value} (hm : m.Sound W)
    (ht : Fitting W m (.write ref value v)) : Safe W host n m (.write ref value v) := by
  obtain ⟨⟨underway, hat⟩, hv⟩ := ht
  exact Action.safe_assign hm (hat.spelled hW).1 hv

/-- All frames that are made within a task are known. -/
def Covered (W : World) (host : Host) (n : Nat) (t : Task) (m : Machine) : Prop :=
  ∀ k t' m', Reaches host n t m k t' m' → t'.Known W k m'

theorem Covered.starts (h : Covered W host (n + 1) t m) (hstart : Starts host n t m t' m') :
    Covered W host n t' m' :=
  fun _ _ _ hreaches => h _ _ _ (.step hstart hreaches)

/-- What fits is safe. -/
theorem safe (hW : W.Accepted) (hhost : host.AnswersNumbers) (n : Nat) (t : Task) (m : Machine)
    (hm : m.Sound W) (ht : t.Fitting W m) (hcovered : t.Covered W host n m) :
    t.Safe W host n m := by
  induction n generalizing t m with
  | zero =>
    cases t with
    | bind f i => exact safe_bind hm ht (hcovered _ _ _ .self)
    | write ref value v => exact safe_write hW hm ht
    | _ => exact ⟨hm.becomes, trivial⟩
  | succ n ih =>
    have hknown : t.Known W (n + 1) m := hcovered _ t m .self
    have hsafe : t.Subsafe W host n m := fun t₁ m₁ hstart hm₁ ht₁ =>
      ih t₁ m₁ hm₁ ht₁ (hcovered.starts hstart)
    have hsub : Subtasks W host n t m := by
      refine ⟨fun t₁ m₁ hstart => ?_, fun t₁ m₁ hstart => hcovered.starts hstart _ _ _ .self⟩
      obtain ⟨hm₁, ht₁⟩ := hstart.fitting hW hm ht hknown hsafe
      exact hsafe t₁ m₁ hstart hm₁ ht₁
    cases t with
    | expression e => exact safe_expression hW hm ht hsub
    | expressions es => exact safe_expressions hm hsub
    | call f paren args => exact safe_call hhost hm ht.1 hsub
    | invoke f paren args => exact safe_invoke hW hm ht hsub
    | bind f i => exact safe_bind hm ht hknown
    | write ref value v => exact safe_write hW hm ht
    | statement s => exact safe_statement hW hm ht hknown hsub
    | statements ss => exact safe_statements hm hsub
    | loop e s => exact safe_loop hsub

/-- At every moment within a task that fits, the machine is sound and what it does fits. -/
theorem Within.fitting (h : Within host n t m t' m') (hW : W.Accepted)
    (hhost : host.AnswersNumbers) (hm : m.Sound W) (ht : t.Fitting W m)
    (hcovered : t.Covered W host n m) : m'.Sound W ∧ t'.Fitting W m' := by
  induction h with
  | self => exact ⟨hm, ht⟩
  | step hstart _ ih =>
    obtain ⟨hm₁, ht₁⟩ := hstart.fitting hW hm ht (hcovered _ _ _ .self) fun t₁ m₁ hstart hm₁ ht₁ =>
      safe hW hhost _ t₁ m₁ hm₁ ht₁ (hcovered.starts hstart)
    exact ih hm₁ ht₁ (hcovered.starts hstart)

end Task

end Treewalk
