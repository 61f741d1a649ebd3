import Treewalk.Proofs.Encapsulation.Regions
import Treewalk.Proofs.Evaluation.Steady

/-! Actions in a region. An action stays in a region if it does the same on any two machines that are the
same there, and changes nothing outside. All actions of the machine do, in a closed region that the active
frame lies in. -/

namespace Treewalk

/-- Two machines in the same state but for what is outside of the region, and for the active frame. -/
structure Machine.SameIn (K : Region) (m m' : Machine) : Prop where
  store : m.store.SameIn K m'.store
  nextIdentity : m'.nextIdentity = m.nextIdentity
  distances : m'.distances = m.distances
  globals : m'.globals = m.globals
  sink : m'.sink = m.sink
  hostCalls : m'.hostCalls = m.hostCalls

/-- Nothing leads out of the region, and the global frame lies in it. -/
structure Machine.Closed (K : Region) (m : Machine) : Prop where
  store : m.store.Closed K
  globals : K.frame m.globals

/-- What becomes of two machines that are the same in the region: they are the same there again, and
outside nothing has changed. -/
structure Machine.Proceed (K : Region) (m₁ m₂ m₁' m₂' : Machine) : Prop where
  same : m₁'.SameIn K m₂'
  closed : m₁'.Closed K
  outside : m₁.store.KeepsOutside K m₁'.store
  active : m₁'.active = m₁.active
  active' : m₂'.active = m₂.active

/-- Two actions end alike, with one value or halt, and with machines of which `S` holds. -/
inductive Action.EndAlike {α : Type} (P : α → Prop) (S : Machine → Machine → Prop) :
    EStateM.Result Halt Machine α → EStateM.Result Halt Machine α → Prop
  | ok {a m m'} : P a → S m m' → EndAlike P S (.ok a m) (.ok a m')
  | error {halt m m'} : S m m' → EndAlike P S (.error halt m) (.error halt m')

/-- In which active frames the two machines may be. -/
abbrev Where := FrameId → FrameId → Prop

/-- Both machines are in the same frame, and it lies in the region. -/
def Region.here (K : Region) : Where := fun f g => g = f ∧ K.frame f

/-- The action does the same on machines that are the same in the region, and changes nothing outside. -/
def Action.StaysIn {α : Type} (K : Region) (R : Where) (x : Action α) (P : α → Prop) : Prop :=
  ∀ m₁ m₂ : Machine, m₁.Closed K → m₁.SameIn K m₂ → R m₁.active m₂.active →
    EndAlike P (m₁.Proceed K m₂) (x m₁) (x m₂)

variable {K : Region} {R : Where}

namespace Machine

variable {m m' m₁ m₂ m₁' m₂' : Machine}

theorem Proceed.trans {m₁'' m₂'' : Machine} (h : m₁.Proceed K m₂ m₁' m₂')
    (h' : m₁'.Proceed K m₂' m₁'' m₂'') : m₁.Proceed K m₂ m₁'' m₂'' where
  same := h'.same
  closed := h'.closed
  outside := h.outside.trans h'.outside
  active := h'.active.trans h.active
  active' := h'.active'.trans h.active'

theorem SameIn.refl (m : Machine) : m.SameIn K m :=
  ⟨⟨rfl, rfl, fun _ _ => rfl, fun _ _ => rfl⟩, rfl, rfl, rfl, rfl, rfl⟩

/-- The machines change in nothing but their stores, and there in the same way. -/
theorem SameIn.proceed_apply (hm : m₁.Closed K) (h : m₁.SameIn K m₂) {c : Change} (hc : c.Within K) :
    m₁.Proceed K m₂ { m₁ with store := m₁.store.apply c } { m₂ with store := m₂.store.apply c } where
  same := ⟨h.store.apply c, h.nextIdentity, h.distances, h.globals, h.sink, h.hostCalls⟩
  closed := ⟨hm.store.apply hc, hm.globals⟩
  outside := hm.store.keepsOutside hc
  active := rfl
  active' := rfl

theorem SameIn.proceed (hm : m₁.Closed K) (h : m₁.SameIn K m₂) : m₁.Proceed K m₂ m₁ m₂ :=
  ⟨h, hm, .refl _, rfl, rfl⟩

theorem SameIn.value? (hm : m.Closed K) (h : m.SameIn K m') (hhere : K.here m.active m'.active)
    (ref : Reference) : m'.value? ref = m.value? ref := by
  unfold Machine.value?
  rw [h.distances, h.globals, hhere.1]
  split
  · exact h.store.getAt? hm.store hhere.2 _ _
  · exact h.store.get? hm.store hm.globals _

theorem SameIn.target? (hm : m.Closed K) (h : m.SameIn K m') (hhere : K.here m.active m'.active)
    (ref : Reference) : m'.target? ref = m.target? ref := by
  unfold Machine.target?
  rw [h.distances, h.globals, hhere.1]
  split
  · exact h.store.ancestor? hm.store hhere.2 _
  · exact h.store.holder? hm.store hm.globals _

theorem Closed.value? (hm : m.Closed K) (hhere : K.frame m.active) {ref : Reference} {v : Value}
    (hv : m.value? ref = some v) : v.Within K := by
  unfold Machine.value? at hv
  split at hv
  · exact hm.store.getAt? hhere hv
  · exact hm.store.get? hm.globals hv

theorem Closed.target? (hm : m.Closed K) (hhere : K.frame m.active) {ref : Reference} {f : FrameId}
    (hf : m.target? ref = some f) : K.frame f := by
  unfold Machine.target? at hf
  split at hf
  · exact hm.store.ancestor? hhere hf
  · exact hm.store.holder? hm.globals hf

end Machine

namespace Action

variable {α β : Type} {x : Action α} {f : α → Action β} {P : α → Prop} {Q : β → Prop}

theorem EndAlike.imp {S S' : Machine → Machine → Prop} {r r' : EStateM.Result Halt Machine α}
    (h : EndAlike P S r r') (hS : ∀ m m', S m m' → S' m m') : EndAlike P S' r r' := by
  cases h with
  | ok ha hm => exact .ok ha (hS _ _ hm)
  | error hm => exact .error (hS _ _ hm)

/-- However the first of the two actions ends, nothing has changed outside of the region. -/
theorem EndAlike.outside {m₁ m₂ : Machine} (h : EndAlike P (m₁.Proceed K m₂) (x m₁) (x m₂)) :
    m₁.store.KeepsOutside K (x.storeAfter m₁) := by
  unfold storeAfter
  generalize x m₁ = r, x m₂ = r' at h
  cases h with
  | ok _ hproceed => exact hproceed.outside
  | error hproceed => exact hproceed.outside

namespace StaysIn

theorem pure {a : α} (h : P a) : StaysIn K R (pure a : Action α) P :=
  fun _ _ hm hsame _ => .ok h (hsame.proceed hm)

theorem throw (halt : Halt) : StaysIn K R (throw halt : Action α) P :=
  fun _ _ hm hsame _ => .error (hsame.proceed hm)

/-- The rest of a sequence is done in the same frame as its first part. -/
theorem bind (hx : StaysIn K R x P) (hf : ∀ a, P a → StaysIn K R (f a) Q) :
    StaysIn K R (x >>= f) Q := by
  intro m₁ m₂ hm hsame hwhere
  have hfirst := hx m₁ m₂ hm hsame hwhere
  generalize hrun : x m₁ = r, hrun' : x m₂ = r' at hfirst
  cases hfirst with
  | ok ha hproceed =>
    rw [bind_of_ok hrun, bind_of_ok hrun']
    have hrest := hf _ ha _ _ hproceed.closed hproceed.same (by rwa [hproceed.active, hproceed.active'])
    exact hrest.imp fun _ _ => hproceed.trans
  | error hproceed =>
    rw [bind_of_error hrun, bind_of_error hrun']
    exact .error hproceed

/-- What an action does with the machine is settled by what it finds in the region. -/
theorem get_bind {f : Machine → Action β}
    (h : ∀ m m' : Machine, m.Closed K → m.SameIn K m' → R m.active m'.active →
      f m' = f m ∧ StaysIn K R (f m) Q) : StaysIn K R ((get : Action Machine) >>= f) Q := by
  intro m₁ m₂ hm hsame hwhere
  obtain ⟨hf, hstays⟩ := h m₁ m₂ hm hsame hwhere
  show EndAlike Q _ (f m₁ m₁) (f m₂ m₂)
  rw [hf]
  exact hstays m₁ m₂ hm hsame hwhere

/-- An action that makes one change. -/
theorem change (h : ∀ m m' : Machine, m.Closed K → m.SameIn K m' → R m.active m'.active →
    ∃ a c, P a ∧ c.Within K ∧ x m = .ok a { m with store := m.store.apply c } ∧
      x m' = .ok a { m' with store := m'.store.apply c }) : StaysIn K R x P := by
  intro m₁ m₂ hm hsame hwhere
  obtain ⟨a, c, ha, hc, hrun, hrun'⟩ := h m₁ m₂ hm hsame hwhere
  rw [hrun, hrun']
  exact .ok ha (hsame.proceed_apply hm hc)

/-- An action that changes neither the store nor where in it names are found. -/
theorem modifyGet {g : Machine → α × Machine}
    (hsame : ∀ m m' : Machine, m.SameIn K m' → (g m').1 = (g m).1 ∧ (g m).2.SameIn K (g m').2)
    (hstill : ∀ m, (g m).2.store = m.store ∧ (g m).2.globals = m.globals ∧ (g m).2.active = m.active) :
    StaysIn K R (MonadStateOf.modifyGet g : Action α) fun _ => True := by
  intro m₁ m₂ hm h _
  obtain ⟨hvalue, hafter⟩ := hsame m₁ m₂ h
  obtain ⟨hstore, hglobals, hactive⟩ := hstill m₁
  show EndAlike _ _ (.ok (g m₁).1 (g m₁).2) (.ok (g m₂).1 (g m₂).2)
  rw [hvalue]
  refine .ok trivial ⟨hafter, ⟨?_, ?_⟩, ?_, hactive, (hstill m₂).2.2⟩
  · rw [hstore]
    exact hm.store
  · rw [hglobals]
    exact hm.globals
  · rw [hstore]
    exact .refl _

/-- In a frame of the region, an action is done here. -/
theorem inFrame {frame : FrameId} (hframe : K.frame frame) (h : StaysIn K K.here x P) :
    StaysIn K R (inFrame frame x) P := by
  intro m₁ m₂ hm hsame _
  have hx := h { m₁ with active := frame } { m₂ with active := frame } ⟨hm.store, hm.globals⟩
    ⟨hsame.store, hsame.nextIdentity, hsame.distances, hsame.globals, hsame.sink, hsame.hostCalls⟩
    ⟨rfl, hframe⟩
  have hback {m₁' m₂' : Machine} (h : Machine.Proceed K { m₁ with active := frame }
      { m₂ with active := frame } m₁' m₂') : m₁.Proceed K m₂ { m₁' with active := m₁.active }
        { m₂' with active := m₂.active } :=
    ⟨⟨h.same.store, h.same.nextIdentity, h.same.distances, h.same.globals, h.same.sink,
      h.same.hostCalls⟩, ⟨h.closed.store, h.closed.globals⟩, h.outside, rfl, rfl⟩
  unfold Action.inFrame
  dsimp only
  generalize x { m₁ with active := frame } = r, x { m₂ with active := frame } = r' at hx
  cases hx with
  | ok ha hproceed => exact .ok ha (hback hproceed)
  | error hproceed => exact .error (hback hproceed)

end StaysIn

theorem staysIn_fail (token : Token) (fault : RuntimeFault) :
    StaysIn K R (fail token fault : Action α) P :=
  .throw _

theorem staysIn_lift {token : Token} {result : Except RuntimeFault α}
    (h : ∀ a, result = .ok a → P a) : StaysIn K R (lift token result) P := by
  cases result with
  | ok a => exact .pure (h a rfl)
  | error fault => exact staysIn_fail token fault

theorem staysIn_require {token : Token} {fault : RuntimeFault} {found : Option α}
    (h : ∀ a, found = some a → P a) : StaysIn K R (require token fault found) P := by
  cases found with
  | some a => exact .pure (h a rfl)
  | none => exact staysIn_fail token fault

theorem staysIn_newFrame {b : Bindings} {p : FrameId} (hp : K.frame p)
    (hb : ∀ (name : String) v, b[name]? = some v → v.Within K) : StaysIn K R (newFrame b p) K.frame := by
  refine .change fun m m' hm hsame _ => ⟨m.store.frames.size, .make [] b p, ?_, ⟨hp, hb⟩, rfl, ?_⟩
  · exact hm.store.newFrame _ (Nat.le_refl _)
  · rw [← hsame.store.framesSize]
    rfl

theorem staysIn_newIdentity : StaysIn K R newIdentity fun _ => True := by
  refine .modifyGet (fun m m' h => ⟨h.nextIdentity, ?_⟩) fun _ => ⟨rfl, rfl, rfl⟩
  exact ⟨h.store, congrArg (· + 1) h.nextIdentity, h.distances, h.globals, h.sink, h.hostCalls⟩

theorem staysIn_define {name : Token} {v : Value} (hv : v.Within K) :
    StaysIn K K.here (define name v) fun _ => True := by
  refine .change fun m m' _ _ hhere => ⟨(), .bind m.active name.lexeme v, trivial, ⟨hhere.2, hv⟩, rfl, ?_⟩
  rw [← hhere.1]
  rfl

theorem staysIn_write {frame? : Option FrameId} {name : Token} {v : Value}
    (hframe : ∀ f, frame? = some f → K.frame f) (hv : v.Within K) :
    StaysIn K R (write frame? name v) fun _ => True :=
  (staysIn_require hframe).bind fun f hf =>
    .change fun _ _ _ _ _ => ⟨(), .bind f name.lexeme v, trivial, ⟨hf, hv⟩, rfl, rfl⟩

theorem staysIn_lookUp (ref : Reference) : StaysIn K K.here (lookUp ref) (Value.Within K) := by
  refine .get_bind fun m m' hm hsame hhere => ⟨?_, ?_⟩
  · rw [hsame.value? hm hhere]
  · exact staysIn_require fun v hv => hm.value? hhere.2 hv

theorem staysIn_assign (ref : Reference) {v : Value} (hv : v.Within K) :
    StaysIn K K.here (assign ref v) fun _ => True := by
  refine .get_bind fun m m' hm hsame hhere => ⟨?_, ?_⟩
  · rw [hsame.target? hm hhere]
  · exact staysIn_write (fun f hf => hm.target? hhere.2 hf) hv

theorem staysIn_print (line : String) : StaysIn K R (print line) fun _ => True := by
  refine StaysIn.bind (.modifyGet (fun m m' h => ?_) fun _ => ⟨rfl, rfl, rfl⟩) fun taken _ => ?_
  · rw [h.sink]
    exact ⟨rfl, h.store, h.nextIdentity, h.distances, h.globals, rfl, h.hostCalls⟩
  · split
    · exact .throw _
    · exact .pure trivial

theorem staysIn_newClosure (decl : FunctionDecl) {frame : FrameId} (isInitializer : Bool)
    (hframe : K.frame frame) :
    StaysIn K R (newClosure decl frame isInitializer) fun f => K.frame f.frame :=
  staysIn_newIdentity.bind fun _ _ => .pure hframe

/-- A method is bound in a frame of the region, to an instance in it. -/
theorem staysIn_bindMethod {f : Closure} {i : Instance} (hf : K.frame f.frame)
    (hi : (Value.instanceRef i).Within K) :
    StaysIn K R (bindMethod f i) fun g => K.frame g.frame := by
  refine (staysIn_newFrame hf fun name v hv => ?_).bind fun frame hframe =>
    staysIn_newIdentity.bind fun _ _ => .pure hframe
  obtain ⟨-, rfl⟩ := Bindings.eq_of_single hv
  exact hi

theorem staysIn_newInstance {c : Class} (hc : c.Within K) :
    StaysIn K R (newInstance c) fun i => (Value.instanceRef i).Within K := by
  refine .change fun m m' hm hsame _ => ⟨⟨m.store.fields.size, c⟩, .object, ?_, trivial, rfl, ?_⟩
  · exact ⟨hm.store.newObject _ (Nat.le_refl _), hc⟩
  · rw [← hsame.store.fieldsSize]
    rfl

theorem staysIn_getProperty {i : Instance} (hi : (Value.instanceRef i).Within K) (name : Token) :
    StaysIn K R (getProperty i name) (Value.Within K) := by
  refine .get_bind fun m m' hm hsame _ => ⟨?_, ?_⟩
  · rw [hsame.store.field? hi.1]
  · cases hfield : m.store.field? i.identity name.lexeme with
    | some v => exact .pure (hm.store.fields _ _ _ hi.1 hfield)
    | none =>
      refine (staysIn_require fun f hf => hi.2.method hf).bind fun f hf => ?_
      exact (staysIn_bindMethod hf hi).bind fun g hg => .pure hg

theorem staysIn_setProperty {i : Instance} (hi : (Value.instanceRef i).Within K) (name : Token)
    {v : Value} (hv : v.Within K) : StaysIn K R (setProperty i name v) fun _ => True :=
  .change fun _ _ _ _ _ => ⟨(), .field i.identity name.lexeme v, trivial, ⟨hi.1, hv⟩, rfl, rfl⟩

theorem staysIn_getParentMethod (keyword : Reference) (method : Token) :
    StaysIn K K.here (getParentMethod keyword method) (Value.Within K) := by
  refine .get_bind fun m m' hm hsame hhere => ⟨?_, ?_⟩
  · simp only [hsame.distances, hhere.1, hsame.store.getAt? hm.store hhere.2]
  · refine (staysIn_require (P := fun _ => True) fun _ _ => trivial).bind fun d _ => ?_
    split
    · next c hc =>
      have hparent : c.Within K := hm.store.getAt? hhere.2 hc
      split
      · exact staysIn_fail _ _
      · split
        · next i hi =>
          have hi := hm.store.getAt? hhere.2 hi
          refine (staysIn_require fun f hf => hparent.method hf).bind fun f hf => ?_
          exact (staysIn_bindMethod hf hi).bind fun g hg => .pure hg
        · exact staysIn_fail _ _
    · exact staysIn_fail _ _

theorem staysIn_methodFrame {parent : Option Class} {frame : FrameId}
    (hparent : ∀ c ∈ parent, c.Within K) (hframe : K.frame frame) :
    StaysIn K R (methodFrame parent frame) K.frame := by
  cases parent with
  | none => exact .pure hframe
  | some c =>
    refine staysIn_newFrame hframe fun name v hv => ?_
    obtain ⟨-, rfl⟩ := Bindings.eq_of_single hv
    exact hparent c rfl

theorem staysIn_newMethods {frame : FrameId} (hframe : K.frame frame) (decls : List FunctionDecl) :
    StaysIn K R (newMethods frame decls) fun fs => ∀ f ∈ fs, K.frame f.frame := by
  induction decls with
  | nil => exact .pure (by simp)
  | cons decl rest ih =>
    exact (staysIn_newClosure decl _ hframe).bind fun f hf => ih.bind fun fs hfs =>
      .pure (List.forall_mem_cons.mpr ⟨hf, hfs⟩)

theorem staysIn_parentClass (parent : Option Reference) :
    StaysIn K K.here (parentClass parent) fun parent => ∀ c ∈ parent, c.Within K := by
  cases parent with
  | none => exact .pure (by simp)
  | some ref =>
    refine (staysIn_lookUp ref).bind fun v hv => ?_
    cases v with
    | classRef c => exact .pure (by rintro _ ⟨⟩; exact hv)
    | _ => exact staysIn_fail _ _

theorem staysIn_declareClass (name : Token) (parent : Option Reference) (methods : List FunctionDecl) :
    StaysIn K K.here (declareClass name parent methods) fun _ => True := by
  refine (staysIn_parentClass parent).bind fun parent hparent => ?_
  refine (staysIn_define (v := .null) trivial).bind fun _ _ => ?_
  refine .get_bind fun m m' _ _ hhere => ⟨by rw [hhere.1], ?_⟩
  refine (staysIn_methodFrame hparent hhere.2).bind fun frame hframe => ?_
  refine (staysIn_newMethods hframe methods).bind fun fs hfs => ?_
  refine staysIn_newIdentity.bind fun _ _ => .get_bind fun m₁ m₁' hm₁ hsame₁ _ => ⟨?_, ?_⟩
  · rw [hsame₁.store.holder? hm₁.store hhere.2]
  · exact staysIn_write (fun f hf => hm₁.store.holder? hhere.2 hf) (.extend hfs hparent)

theorem staysIn_callHost {host : Host} (hhost : host.Discreet) (native : Native) (paren : Token)
    {args : List Value} (hargs : ∀ v ∈ args, v.Within K) :
    StaysIn K R (callHost host native paren args) (Value.Within K) := by
  intro m₁ m₂ hm
  refine StaysIn.bind (.modifyGet (fun m m' h => ?_) fun _ => ⟨rfl, rfl, rfl⟩) (fun turn _ => ?_) m₁ m₂ hm
  · refine ⟨h.hostCalls, h.store, h.nextIdentity, h.distances, h.globals, h.sink, ?_⟩
    exact congrArg (· + 1) h.hostCalls
  · refine staysIn_lift fun v hv => ?_
    cases hanswer : host.answer turn native args with
    | ok w =>
      rw [hanswer] at hv
      cases hv
      exact hm.store.answer hhost hargs hanswer
    | error message =>
      rw [hanswer] at hv
      cases hv

theorem staysIn_checkCount (paren : Token) (expected given : Nat) :
    StaysIn K R (checkCount paren expected given) fun _ => True := by
  unfold checkCount
  split
  · exact .pure trivial
  · exact staysIn_fail _ _

end Action

end Treewalk
