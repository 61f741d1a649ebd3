import Treewalk.Proofs.Encapsulation.Actions

/-! Calls are encapsulated. Whatever is evaluated in a frame of a closed region stays in the region, and so
does a call of a value in it, wherever it is made. What a call can reach at its start is such a region, so
the call neither reads nor changes anything else. -/

namespace Treewalk

variable {K : Region} {R : Where} {host : Host} {n : Nat}

/-- What a completion returns lies in the region. -/
def Completion.Within (K : Region) (c : Completion) : Prop :=
  ∀ v, c = .returned v → v.Within K

theorem Completion.Within.normal : Completion.normal.Within K := by
  intro v h
  cases h

theorem Completion.Within.returned {v : Value} (h : v.Within K) : (Completion.returned v).Within K := by
  rintro _ ⟨⟩
  exact h

theorem Completion.Within.value {c : Completion} (h : c.Within K) : c.value.Within K := by
  cases c with
  | normal => trivial
  | returned v => exact h v rfl

open Treewalk.Action

/-- Within a depth, evaluation stays in the region. -/
structure EvaluatesIn (K : Region) (host : Host) (n : Nat) : Prop where
  expression : ∀ e, StaysIn K K.here (evaluate host n e) (Value.Within K)
  expressions : ∀ es, StaysIn K K.here (evaluateAll host n es) fun vs => ∀ v ∈ vs, v.Within K
  call : ∀ R f paren args, f.Within K → (∀ v ∈ args, v.Within K) →
    StaysIn K R (call host n f paren args) (Value.Within K)
  invoke : ∀ R f paren args, K.frame f.frame → (∀ v ∈ args, v.Within K) →
    StaysIn K R (invoke host n f paren args) (Value.Within K)
  statement : ∀ s, StaysIn K K.here (execute host n s) (Completion.Within K)
  statements : ∀ ss, StaysIn K K.here (executeAll host n ss) (Completion.Within K)
  loop : ∀ e s, StaysIn K K.here (executeLoop host n e s) (Completion.Within K)

namespace EvaluatesIn

variable (h : EvaluatesIn K host n)
include h

theorem evaluate_succ (e : Expr) : StaysIn K K.here (evaluate host (n + 1) e) (Value.Within K) := by
  cases e with rw [evaluate]
  | literal value => exact .pure (Value.isPlain_ofLiteral value).within
  | grouping inner => exact h.expression inner
  | unary op operand =>
    exact (h.expression operand).bind fun _ _ => staysIn_lift fun _ ha => (Value.isPlain_of_unary ha).within
  | binary left op right =>
    exact (h.expression left).bind fun _ _ => (h.expression right).bind fun _ _ =>
      staysIn_lift fun _ ha => (Value.isPlain_of_binary ha).within
  | logical left op right =>
    refine (h.expression left).bind fun a ha => ?_
    split
    · exact .pure ha
    · exact h.expression right
  | assign ref value =>
    exact (h.expression value).bind fun v hv => (staysIn_assign ref hv).bind fun _ _ => .pure hv
  | call callee paren arguments =>
    exact (h.expression callee).bind fun f hf => (h.expressions arguments).bind fun args hargs =>
      h.call _ f paren args hf hargs
  | get object name =>
    refine (h.expression object).bind fun v hv => ?_
    cases v with
    | instanceRef i => exact staysIn_getProperty hv name
    | _ => exact staysIn_fail _ _
  | set object name value =>
    refine (h.expression object).bind fun v hv => ?_
    cases v with
    | instanceRef i =>
      exact (h.expression value).bind fun w hw => (staysIn_setProperty hv name hw).bind fun _ _ =>
        .pure hw
    | _ => exact staysIn_fail _ _
  | parent keyword method => exact staysIn_getParentMethod keyword method
  | _ => exact staysIn_lookUp _

theorem call_succ (hhost : host.Discreet) {f : Value} {paren : Token} {args : List Value}
    (hf : f.Within K) (hargs : ∀ v ∈ args, v.Within K) :
    StaysIn K R (Treewalk.call host (n + 1) f paren args) (Value.Within K) := by
  cases f with simp only [Treewalk.call]
  | function f => exact (staysIn_checkCount _ _ _).bind fun _ _ => h.invoke R f paren args hf hargs
  | native f =>
    exact (staysIn_checkCount _ _ _).bind fun _ _ => staysIn_callHost hhost f paren hargs
  | classRef c =>
    refine (staysIn_checkCount _ _ _).bind fun _ _ => (staysIn_newInstance hf).bind fun made hmade => ?_
    cases hmethod : c.method? initializerName with
    | none => exact .pure hmade
    | some method =>
      exact (staysIn_bindMethod (hf.method hmethod) hmade).bind fun g hg =>
        (h.invoke R g paren args hg hargs).bind fun _ _ => .pure hmade
  | _ => exact staysIn_fail _ _

/-- A body is run in a frame of the region, wherever the function is called. -/
theorem invoke_succ {f : Closure} {paren : Token} {args : List Value} (hf : K.frame f.frame)
    (hargs : ∀ v ∈ args, v.Within K) :
    StaysIn K R (Treewalk.invoke host (n + 1) f paren args) (Value.Within K) := by
  rw [Treewalk.invoke]
  have hnew : StaysIn K R (newFrame (argumentBindings f.decl.params args) f.frame) K.frame :=
    staysIn_newFrame hf fun _ v hv => hargs v (mem_of_argumentBindings hv)
  refine hnew.bind fun frame hframe => ?_
  refine (StaysIn.inFrame hframe (h.statements f.decl.body)).bind fun c hc => ?_
  split
  · refine .get_bind fun m m' hm hsame _ => ⟨?_, ?_⟩
    · rw [hsame.store.getAt? hm.store hf]
    · exact staysIn_require fun v hv => hm.store.getAt? hf hv
  · exact .pure hc.value

theorem execute_succ (s : Stmt) :
    StaysIn K K.here (execute host (n + 1) s) (Completion.Within K) := by
  cases s with
  | expression e =>
    rw [execute]
    exact (h.expression e).bind fun _ _ => .pure .normal
  | print e =>
    rw [execute]
    exact (h.expression e).bind fun v _ => (staysIn_print v.text).bind fun _ _ => .pure .normal
  | var name initial =>
    cases initial with
    | none =>
      rw [execute]
      exact (staysIn_define (v := .null) trivial).bind fun _ _ => .pure .normal
    | some e =>
      rw [execute]
      exact (h.expression e).bind fun v hv => (staysIn_define hv).bind fun _ _ => .pure .normal
  | block ss =>
    rw [execute]
    refine .get_bind fun m m' _ _ hhere => ⟨by rw [hhere.1], ?_⟩
    exact (staysIn_newFrame hhere.2 (by simp)).bind fun frame hframe =>
      .inFrame hframe (h.statements ss)
  | branch e s other =>
    rw [execute.eq_def]
    refine (h.expression e).bind fun v _ => ?_
    split
    · exact h.statement s
    · cases other with
      | none => exact .pure .normal
      | some other => exact h.statement other
  | loop e s =>
    rw [execute]
    exact h.loop e s
  | function decl =>
    rw [execute]
    refine .get_bind fun m m' _ _ hhere => ⟨by rw [hhere.1], ?_⟩
    exact (staysIn_newClosure decl false hhere.2).bind fun f hf =>
      (staysIn_define (v := .function f) hf).bind fun _ _ => .pure .normal
  | giveBack word e? =>
    cases e? with
    | none =>
      rw [execute]
      exact .pure (.returned (v := .null) trivial)
    | some e =>
      rw [execute]
      exact (h.expression e).bind fun v hv => .pure (.returned hv)
  | classDecl name parent methods =>
    rw [execute]
    exact (staysIn_declareClass name parent methods).bind fun _ _ => .pure .normal

end EvaluatesIn

/-- Whatever is evaluated in a frame of a closed region stays in the region. -/
theorem evaluatesIn (K : Region) (hhost : host.Discreet) (n : Nat) : EvaluatesIn K host n := by
  induction n with
  | zero => constructor <;> intros <;> exact .throw _
  | succ n ih =>
    refine ⟨ih.evaluate_succ, fun es => ?_, fun R f paren args hf hargs => ih.call_succ hhost hf hargs,
      fun R f paren args hf hargs => ih.invoke_succ hf hargs, ih.execute_succ, fun ss => ?_,
      fun e s => ?_⟩
    · cases es with rw [evaluateAll]
      | nil => exact .pure (by simp)
      | cons e rest =>
        exact (ih.expression e).bind fun v hv => (ih.expressions rest).bind fun vs hvs =>
          .pure (List.forall_mem_cons.mpr ⟨hv, hvs⟩)
    · cases ss with rw [executeAll]
      | nil => exact .pure .normal
      | cons s rest =>
        refine (ih.statement s).bind fun c hc => ?_
        cases c with
        | normal => exact ih.statements rest
        | returned v => exact .pure hc
    · rw [executeLoop]
      refine (ih.expression e).bind fun v _ => ?_
      split
      · refine (ih.statement s).bind fun c hc => ?_
        cases c with
        | normal => exact ih.loop e s
        | returned v => exact .pure hc
      · exact .pure .normal

/-- What a call has in hand when it begins: the global frame, what is called, and the arguments. -/
def Machine.inHand (m : Machine) (f : Value) (args : List Value) : List Handle :=
  .frame m.globals :: (f :: args).map .value

/-- Calls are encapsulated. Of the frames and instances that are there when something is called, with any
arguments and in any machine, those that cannot be reached from what is called, the arguments or the global
frame are afterwards as they were, however the call ends. Nor does the call read them: on any other machine
that is the same where the call can reach, whatever its active frame is and whatever its other frames and
instances hold, the call ends alike, with a value that leads to nothing else than what could be reached or
is new, and with the machines being the same there again. -/
theorem calls_are_encapsulated (host : Host) (hhost : host.Discreet) (depth : Nat) (f : Value)
    (paren : Token) (args : List Value) (m : Machine) :
    let reach := m.store.Reachable (m.inHand f args)
    let region := m.store.region (m.inHand f args)
    let after := (call host depth f paren args).storeAfter m
    (∀ g < m.store.frames.size, ¬reach (.frame g) → after.frames[g]? = m.store.frames[g]?) ∧
    (∀ o < m.store.fields.size, (∀ c, ¬reach (.value (.instanceRef ⟨o, c⟩))) →
      after.fields[o]? = m.store.fields[o]?) ∧
    ∀ m', m.SameIn region m' →
      EndAlike (Value.Within region) (Machine.SameIn region) (call host depth f paren args m)
        (call host depth f paren args m') := by
  intro reach region after
  have hm : m.Closed region := ⟨m.store.closed_region _, fun _ => .root List.mem_cons_self⟩
  have hf : f.Within region := Store.Reachable.within (.root (by simp [Machine.inHand]))
  have hargs : ∀ v ∈ args, v.Within region := fun v hv =>
    Store.Reachable.within (.root (by simp [Machine.inHand, hv]))
  have hstays := (evaluatesIn region hhost depth).call (fun _ _ => True) f paren args hf hargs
  have houtside : m.store.KeepsOutside region after :=
    (hstays m m hm (.refl m) trivial).outside
  refine ⟨fun g hg hreach => ?_, fun o ho hreach => ?_, fun m' hsame => ?_⟩
  · exact houtside.frames g fun hregion => hreach (hregion hg)
  · refine houtside.fields o fun hregion => ?_
    obtain ⟨c, hc⟩ := hregion ho
    exact hreach c hc
  · exact (hstays m m' hm hsame trivial).imp fun _ _ hproceed => hproceed.same

/-- The frame of the caller is left alone by a function that was declared around it. -/
theorem calls_are_encapsulated_caller :
    let start := Machine.initial .unbounded
    let local' : Bindings := (∅ : Bindings).insert "x" (.bool true)
    let m : Machine := { start with store := (start.store.addFrame local' (some 0)).2, active := 1 }
    let decl : FunctionDecl := ⟨⟨.identifier, "f", 1⟩, [], [.var ⟨.identifier, "x", 1⟩ none]⟩
    let f : Value := .function ⟨1, decl, 0, false⟩
    let paren : Token := ⟨.punct .rightParen, ")", 1⟩
    (Host.reading fun _ => 0).Discreet ∧ ¬m.store.Reachable (m.inHand f []) (.frame 1) ∧
      ((call (.reading fun _ => 0) 9 f paren []).storeAfter m).frames[1]? = m.store.frames[1]? := by
  intro start local' m decl f paren
  have hhost : (Host.reading fun _ => 0).Discreet := (Host.answersNumbers_reading _).discreet
  -- all but the frame of the caller is a closed region that the call begins in
  let K : Region := ⟨(· ≠ 1), fun _ => True⟩
  have houter {g : FrameId} (hg : K.frame g) (hlt : g < m.store.frames.size) : g = 0 :=
    Nat.lt_one_iff.mp (Nat.lt_of_le_of_ne (Nat.le_of_lt_succ hlt) hg)
  have hclosed : m.store.Closed K := by
    refine ⟨fun g p hg hp => ?_, fun g name v hg hv => ?_, fun o name v _ hv => ?_, fun g hg => ?_,
      fun _ _ => trivial⟩
    · obtain rfl := houter hg (Store.lt_size_of_enclosing? hp)
      cases hp
    · obtain rfl := houter hg (Store.lt_size_of_binding? hv)
      have hstart : start.store.binding? 0 name = some v :=
        (Store.binding?_addFrame_of_lt Nat.zero_lt_one).symm.trans hv
      obtain ⟨-, rfl⟩ := Machine.binding?_initial hstart
      trivial
    · cases hv
    · exact Nat.ne_of_gt hg
  have hunreachable : ¬m.store.Reachable (m.inHand f []) (.frame 1) := by
    refine fun h => hclosed.reachable ?_ h rfl
    rintro root (_ | ⟨_, _ | ⟨_, ⟨⟩⟩⟩)
    · exact Nat.zero_ne_one
    · exact Nat.zero_ne_one
  exact ⟨hhost, hunreachable,
    (calls_are_encapsulated _ hhost 9 f paren [] m).1 1 (by decide) hunreachable⟩

end Treewalk
