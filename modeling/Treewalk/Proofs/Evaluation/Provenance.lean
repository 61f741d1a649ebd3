import Treewalk.Proofs.Evaluation.Preservation
import Treewalk.Proofs.Evaluation.Story

/-! Where values come from. A function is made by its declaration or by binding a method, a class by its
declaration, an instance by a call of its class. A value is traced if the moments at which its parts were
made are known; evaluation comes to traced values only, which is proved by induction on the depth, one
step for each task. -/

namespace Treewalk

/-- Moments of a run: with a depth left, a machine does a task. -/
abbrev Moments := Nat → Task → Machine → Prop

/-- The function that its declaration makes. -/
def FunctionDecl.madeOn (decl : FunctionDecl) (m : Machine) : Closure :=
  ⟨m.nextIdentity, decl, m.active, false⟩

/-- The method that is made of another one when that is bound to an instance. -/
def Closure.boundOn (f : Closure) (m : Machine) : Closure :=
  ⟨m.nextIdentity, f.decl, m.store.frames.size, f.isInitializer⟩

/-- The methods that declarations make in a frame, with identities from `first` on. -/
def FunctionDecl.methodsIn (frame : FrameId) : (first : Identity) → List FunctionDecl → List Closure
  | _, [] => []
  | first, decl :: rest =>
    ⟨first, decl, frame, decl.name.lexeme == initializerName⟩ :: methodsIn frame (first + 1) rest

/-- The frame for the methods of a class that is declared: a new one under a parent. -/
def Machine.methodFrame (m : Machine) : (parent : Option Class) → FrameId
  | some _ => m.store.frames.size
  | none => m.active

/-- What the declaration of a class adds to its parent. -/
def Machine.bodyOf (m : Machine) (name : Token) (methods : List FunctionDecl) (parent : Option Class) :
    ClassBody :=
  ⟨m.nextIdentity + methods.length, name.lexeme,
    FunctionDecl.methodsIn (m.methodFrame parent) m.nextIdentity methods⟩

/-- The declaration of a class is executed, and finds a parent for it if it names one. -/
inductive Moments.Declares (O : Moments) (m : Machine) (name : Token) (methods : List FunctionDecl) :
    (parent : Option Class) → Prop
  | plain {k} : O (k + 1) (.statement (.classDecl name none methods)) m → Declares O m name methods none
  | heir {k ref c} : O (k + 1) (.statement (.classDecl name (some ref) methods)) m →
    m.value? ref = some (.classRef c) → Declares O m name methods (some c)

/-- The class was made by its declaration, and its parent too. -/
inductive Class.Made (O : Moments) : Class → Prop
  | declared {m name methods parent} : O.Declares m name methods parent →
    (∀ c, parent = some c → Made O c) → Made O (.extend parent (m.bodyOf name methods parent))

/-- The function was made by its declaration or by binding a method. -/
inductive Closure.Made (O : Moments) : Closure → Prop
  | function {k decl m} : O (k + 1) (.statement (.function decl)) m → Made O (decl.madeOn m)
  | bound {k f i m} : O k (.bind f i) m → Made O (f.boundOn m)

/-- The method was made by the declaration of a class. -/
def Closure.MadeMethod (O : Moments) (f : Closure) : Prop :=
  ∃ m name methods parent, O.Declares m name methods parent ∧ f ∈ (m.bodyOf name methods parent).methods

/-- The instance was made by a call of its class. -/
structure Instance.Made (O : Moments) (s : Store) (i : Instance) : Prop where
  ofClass : i.ofClass.Made O
  lt_size : i.identity < s.fields.size

/-- The parts of a value were made at known moments. -/
def Value.Traced (O : Moments) (s : Store) : Value → Prop
  | .function f => f.Made O
  | .classRef c => c.Made O
  | .instanceRef i => i.Made O s
  | _ => True

/-- All values in a store are traced. -/
structure Store.Traced (O : Moments) (s : Store) : Prop where
  bound : ∀ f name v, s.binding? f name = some v → v.Traced O s
  fields : ∀ object name v, s.field? object name = some v → v.Traced O s

section
variable {O O' : Moments} {s s' : Store} {v : Value} {c : Class} {f : Closure} {name : String}

theorem Moments.Declares.mono {m : Machine} {name : Token} {methods : List FunctionDecl}
    {parent : Option Class} (h : O.Declares m name methods parent) (hO : ∀ k t m, O k t m → O' k t m) :
    Moments.Declares O' m name methods parent := by
  cases h with
  | plain h => exact .plain (hO _ _ _ h)
  | heir h hvalue => exact .heir (hO _ _ _ h) hvalue

theorem Class.Made.mono (h : c.Made O) (hO : ∀ k t m, O k t m → O' k t m) : c.Made O' := by
  induction h with
  | declared hdeclares _ ih => exact .declared (hdeclares.mono hO) ih

theorem Closure.Made.mono (h : f.Made O) (hO : ∀ k t m, O k t m → O' k t m) : f.Made O' := by
  cases h with
  | function h => exact .function (hO _ _ _ h)
  | bound h => exact .bound (hO _ _ _ h)

theorem Closure.MadeMethod.mono (h : f.MadeMethod O) (hO : ∀ k t m, O k t m → O' k t m) :
    f.MadeMethod O' := by
  obtain ⟨m, name, methods, parent, hdeclares, hf⟩ := h
  exact ⟨m, name, methods, parent, hdeclares.mono hO, hf⟩

theorem Value.IsPlain.traced (h : v.IsPlain) : v.Traced O s := by
  cases v <;> trivial

/-- A traced value stays so when instances are made. -/
theorem Value.Traced.grow (h : v.Traced O s) (hsize : s.fields.size ≤ s'.fields.size) :
    v.Traced O s' := by
  cases v with
  | instanceRef i => exact ⟨h.ofClass, Nat.lt_of_lt_of_le h.lt_size hsize⟩
  | _ => exact h

theorem Value.Traced.mono (h : v.Traced O s) (hO : ∀ k t m, O k t m → O' k t m) : v.Traced O' s := by
  cases v with
  | function f => exact Closure.Made.mono h hO
  | classRef c => exact Class.Made.mono h hO
  | instanceRef i => exact ⟨h.ofClass.mono hO, h.lt_size⟩
  | _ => trivial

/-- Each body of a class was made by a declaration. -/
theorem Class.Made.body (h : c.Made O) {body : ClassBody} (hbody : body ∈ c.bodies) :
    ∃ m name methods parent, O.Declares m name methods parent ∧ body = m.bodyOf name methods parent := by
  induction h with
  | @declared m name methods parent hdeclares _ ih =>
    obtain rfl | ⟨c, hc, hbody⟩ := mem_bodies_extend.mp hbody
    · exact ⟨m, name, methods, parent, hdeclares, rfl⟩
    · exact ih c hc hbody

theorem Class.Made.method (h : c.Made O) (hf : c.method? name = some f) : f.MadeMethod O := by
  obtain ⟨body, hbody, hf⟩ := mem_of_method? hf
  obtain ⟨m, name, methods, parent, hdeclares, rfl⟩ := h.body hbody
  exact ⟨m, name, methods, parent, hdeclares, hf⟩

/-- A method lies in the frame for its class, and its name says whether it is an initializer. -/
theorem FunctionDecl.of_mem_methodsIn {frame : FrameId} {first : Identity} {decls : List FunctionDecl}
    (hf : f ∈ methodsIn frame first decls) :
    f.decl ∈ decls ∧ f.frame = frame ∧ f.isInitializer = (f.name == initializerName) := by
  induction decls generalizing first with
  | nil => cases hf
  | cons decl rest ih =>
    obtain rfl | hf := List.mem_cons.mp hf
    · exact ⟨List.mem_cons_self, rfl, rfl⟩
    · obtain ⟨hdecl, hrest⟩ := ih hf
      exact ⟨List.mem_cons_of_mem _ hdecl, hrest⟩

theorem Closure.MadeMethod.isInitializer (h : f.MadeMethod O) :
    f.isInitializer = (f.name == initializerName) := by
  obtain ⟨m, name, methods, parent, -, hf⟩ := h
  exact (FunctionDecl.of_mem_methodsIn hf).2.2

namespace Store.Traced

theorem mono (h : s.Traced O) (hO : ∀ k t m, O k t m → O' k t m) : s.Traced O' :=
  ⟨fun f name v hv => (h.bound f name v hv).mono hO,
    fun object name v hv => (h.fields object name v hv).mono hO⟩

theorem define (h : s.Traced O) (hv : v.Traced O s) (g : FrameId) : (s.define g name v).Traced O := by
  have hsize : s.fields.size ≤ (s.define g name v).fields.size := Nat.le_refl _
  refine ⟨fun f other w hw => ?_, fun object other w hw => (h.fields object other w hw).grow hsize⟩
  refine Value.Traced.grow ?_ hsize
  rw [binding?_define] at hw
  split at hw
  · cases hw
    exact hv
  · exact h.bound f other w hw

theorem addFrame (h : s.Traced O) {b : Bindings} (hb : ∀ (name : String) v, b[name]? = some v →
    v.Traced O s) (around : Option FrameId) : (s.addFrame b around).2.Traced O := by
  have hsize : s.fields.size ≤ (s.addFrame b around).2.fields.size := Nat.le_refl _
  refine ⟨fun f other w hw => ?_, fun object other w hw => (h.fields object other w hw).grow hsize⟩
  refine Value.Traced.grow ?_ hsize
  have hlt := lt_size_of_binding? hw
  rw [show (s.addFrame b around).2.frames.size = s.frames.size + 1 by simp [Store.addFrame]] at hlt
  obtain hlt | rfl := Nat.lt_succ_iff_lt_or_eq.mp hlt
  · rw [binding?_addFrame_of_lt hlt] at hw
    exact h.bound f other w hw
  · rw [binding?_addFrame_self] at hw
    exact hb other w hw

theorem addObject (h : s.Traced O) : s.addObject.2.Traced O := by
  have hsize : s.fields.size ≤ s.addObject.2.fields.size :=
    fieldsSize_addObject s ▸ Nat.le_succ _
  refine ⟨fun f other w hw => (h.bound f other w hw).grow hsize, fun object other w hw => ?_⟩
  refine Value.Traced.grow ?_ hsize
  simp only [Store.addObject, Store.field?, Array.getElem?_push] at hw
  split at hw
  · simp at hw
  · exact h.fields object other w hw

theorem setField (h : s.Traced O) (hv : v.Traced O s) (object : Identity) :
    (s.setField object name v).Traced O := by
  have hsize : s.fields.size ≤ (s.setField object name v).fields.size := by simp [Store.setField]
  refine ⟨fun f other w hw => (h.bound f other w hw).grow hsize, fun object' other w hw => ?_⟩
  refine Value.Traced.grow ?_ hsize
  rw [field?_setField] at hw
  split at hw
  · cases hw
    exact hv
  · exact h.fields object' other w hw

end Store.Traced

end

/-- What may have become of a machine with traced values. -/
structure Machine.Continues (O : Moments) (m m' : Machine) : Prop where
  traced : m'.store.Traced O
  size : m.store.fields.size ≤ m'.store.fields.size

theorem Machine.Continues.trans {O : Moments} {m m' m'' : Machine} (h : m.Continues O m')
    (h' : m'.Continues O m'') : m.Continues O m'' :=
  ⟨h'.traced, Nat.le_trans h.size h'.size⟩

namespace Action

variable {O : Moments} {α β : Type} {m m' : Machine}

/-- However the action ends, all values in the store are traced, and its own value satisfies `P`. -/
def Traces (O : Moments) (x : Action α) (m : Machine) (P : α → Store → Prop) : Prop :=
  match x m with
  | .ok a m' => m.Continues O m' ∧ P a m'.store
  | .error _ m' => m.Continues O m'

theorem Traces.of_ok {x : Action α} {P : α → Store → Prop} (h : x.Traces O m P) {a : α}
    (hx : x m = .ok a m') : m.Continues O m' ∧ P a m'.store := by
  unfold Traces at h
  rwa [hx] at h

theorem Traces.of_error {x : Action α} {P : α → Store → Prop} (h : x.Traces O m P) {halt : Halt}
    (hx : x m = .error halt m') : m.Continues O m' := by
  unfold Traces at h
  rwa [hx] at h

theorem Traces.pure {a : α} {P : α → Store → Prop} (hm : m.store.Traced O) (h : P a m.store) :
    Traces O (pure a : Action α) m P :=
  ⟨⟨hm, Nat.le_refl _⟩, h⟩

/-- A sequence of tracing actions. -/
theorem Traces.bind {x : Action α} {f : α → Action β} {P : α → Store → Prop} {Q : β → Store → Prop}
    (hx : x.Traces O m P)
    (hf : ∀ a m', x m = .ok a m' → m.Continues O m' → P a m'.store → (f a).Traces O m' Q) :
    (x >>= f).Traces O m Q := by
  unfold Traces
  cases hrun : x m with
  | ok a m' =>
    obtain ⟨hgoes, ha⟩ := hx.of_ok hrun
    have hrest := hf a m' hrun hgoes ha
    rw [bind_of_ok hrun]
    unfold Traces at hrest
    split at hrest
    · exact ⟨hgoes.trans hrest.1, hrest.2⟩
    · exact hgoes.trans hrest
  | error halt m' =>
    rw [bind_of_error hrun]
    exact hx.of_error hrun

theorem Traces.get_bind {f : Machine → Action β} {Q : β → Store → Prop} (h : (f m).Traces O m Q) :
    ((get : Action Machine) >>= f).Traces O m Q :=
  h

/-- An action that succeeds with the store unchanged may be left out. -/
theorem Traces.of_run {x : Action α} {a : α} {P : α → Store → Prop} (hrun : x m = .ok a m')
    (hm : m'.store.Traced O) (hsize : m.store.fields.size ≤ m'.store.fields.size)
    (ha : P a m'.store) : x.Traces O m P := by
  unfold Traces
  rw [hrun]
  exact ⟨⟨hm, hsize⟩, ha⟩

theorem traces_fail {token : Token} {fault : RuntimeFault} {P : α → Store → Prop}
    (hm : m.store.Traced O) : Traces O (fail token fault : Action α) m P :=
  ⟨hm, Nat.le_refl _⟩

theorem traces_require {token : Token} {fault : RuntimeFault} {found : Option α}
    {P : α → Store → Prop} (hm : m.store.Traced O) (hsome : ∀ a, found = some a → P a m.store) :
    (require token fault found).Traces O m P := by
  cases found with
  | some a => exact .pure hm (hsome a rfl)
  | none => exact traces_fail hm

theorem traces_lift {token : Token} {result : Except RuntimeFault α} {P : α → Store → Prop}
    (hm : m.store.Traced O) (hok : ∀ a, result = .ok a → P a m.store) :
    (lift token result).Traces O m P := by
  cases result with
  | ok a => exact .pure hm (hok a rfl)
  | error fault => exact traces_fail hm

/-- Which frame is the active one makes no difference to what is traced. -/
theorem Traces.inFrame {x : Action α} {frame : FrameId} {P : α → Store → Prop}
    (h : x.Traces O { m with active := frame } P) : (inFrame frame x).Traces O m P := by
  unfold Traces Action.inFrame
  dsimp only
  cases hx : x { m with active := frame } with
  | ok a m' => exact ⟨⟨(h.of_ok hx).1.traced, (h.of_ok hx).1.size⟩, (h.of_ok hx).2⟩
  | error halt m' => exact ⟨(h.of_error hx).traced, (h.of_error hx).size⟩

theorem traced_of_value? {ref : Reference} {v : Value} (hm : m.store.Traced O)
    (h : m.value? ref = some v) : v.Traced O m.store := by
  unfold Machine.value? at h
  split at h
  · obtain ⟨frame, -, hv⟩ := Option.bind_eq_some_iff.mp h
    exact hm.bound frame _ v hv
  · obtain ⟨frame, -, hv⟩ := Option.bind_eq_some_iff.mp h
    exact hm.bound frame _ v hv

theorem traced_of_getAt? {f : FrameId} {d : Nat} {name : String} {v : Value}
    (hm : m.store.Traced O) (h : m.store.getAt? f d name = some v) : v.Traced O m.store := by
  obtain ⟨frame, -, hv⟩ := Option.bind_eq_some_iff.mp h
  exact hm.bound frame _ v hv

theorem traces_lookUp (hm : m.store.Traced O) (ref : Reference) :
    (lookUp ref).Traces O m fun v s => v.Traced O s :=
  .get_bind (traces_require hm fun _ hv => traced_of_value? hm hv)

theorem traces_define (hm : m.store.Traced O) {name : Token} {v : Value} (hv : v.Traced O m.store) :
    (define name v).Traces O m fun _ _ => True :=
  ⟨⟨hm.define hv _, Nat.le_refl _⟩, trivial⟩

theorem traces_write (hm : m.store.Traced O) {frame? : Option FrameId} {name : Token} {v : Value}
    (hv : v.Traced O m.store) : (write frame? name v).Traces O m fun _ _ => True := by
  unfold write
  cases frame? with
  | none => exact traces_fail hm
  | some frame => exact ⟨⟨hm.define hv frame, Nat.le_refl _⟩, trivial⟩

theorem traces_assign (hm : m.store.Traced O) {ref : Reference} {v : Value}
    (hv : v.Traced O m.store) : (assign ref v).Traces O m fun _ _ => True :=
  .get_bind (traces_write hm hv)

theorem traces_print (hm : m.store.Traced O) (line : String) :
    (print line).Traces O m fun _ _ => True := by
  unfold Traces
  cases hrun : print line m with
  | ok _ m' =>
    have hstore : m'.store = m.store := (storeAfter_of_ok hrun).symm.trans (still_print line m)
    exact ⟨⟨hstore ▸ hm, hstore ▸ Nat.le_refl _⟩, trivial⟩
  | error halt m' =>
    have hstore : m'.store = m.store := (storeAfter_of_error hrun).symm.trans (still_print line m)
    exact ⟨hstore ▸ hm, hstore ▸ Nat.le_refl _⟩

/-- A method that is bound to an instance is a function made then. -/
theorem bindMethod_eq (f : Closure) (i : Instance) (m : Machine) :
    bindMethod f i m = .ok (f.boundOn m) { m with
      store := (m.store.addFrame ((∅ : Bindings).insert "this" (.instanceRef i)) (some f.frame)).2
      nextIdentity := m.nextIdentity + 1 } := rfl

theorem traces_bindMethod (hm : m.store.Traced O) {k : Nat} {f : Closure} {i : Instance}
    (hi : i.Made O m.store) (hO : O k (.bind f i) m) :
    (bindMethod f i).Traces O m fun g _ => g.Made O := by
  refine .of_run (bindMethod_eq f i m) (hm.addFrame (fun name v hv => ?_) _) (Nat.le_refl _) (.bound hO)
  obtain ⟨-, rfl⟩ := Bindings.eq_of_single hv
  exact hi

theorem traces_newInstance (hm : m.store.Traced O) {c : Class} (hc : c.Made O) :
    (newInstance c).Traces O m fun i s => i.Made O s :=
  .of_run rfl hm.addObject (Store.fieldsSize_addObject _ ▸ Nat.le_succ _)
    ⟨hc, Store.fieldsSize_addObject _ ▸ Nat.lt_succ_self _⟩

theorem traces_callHost (hm : m.store.Traced O) {host : Host} (hhost : host.AnswersNumbers) (f : Native)
    (paren : Token) (args : List Value) :
    (callHost host f paren args).Traces O m fun v s => v.Traced O s := by
  refine Traces.bind (P := fun _ _ => True) (.of_run rfl hm (Nat.le_refl _) trivial) ?_
  intro turn m' _ hgoes _
  refine traces_lift hgoes.traced fun v hv => ?_
  cases hanswer : host.answer turn f args with
  | ok w =>
    obtain ⟨x, rfl⟩ := hhost turn f args w hanswer
    rw [hanswer] at hv
    cases hv
    trivial
  | error message =>
    rw [hanswer] at hv
    cases hv

theorem traces_getProperty (hm : m.store.Traced O) {i : Instance} {name : Token}
    (hi : i.Made O m.store)
    (hO : ∀ f, m.store.field? i.identity name.lexeme = none →
      i.ofClass.method? name.lexeme = some f → ∃ k, O k (.bind f i) m) :
    (getProperty i name).Traces O m fun v s => v.Traced O s := by
  refine .get_bind ?_
  cases hfield : m.store.field? i.identity name.lexeme with
  | some v => exact .pure hm (hm.fields _ _ v hfield)
  | none =>
    cases hmethod : i.ofClass.method? name.lexeme with
    | none => exact traces_fail hm
    | some f =>
      obtain ⟨k, hbind⟩ := hO f hfield hmethod
      refine Traces.bind (P := fun g s => g = f ∧ s = m.store) (.of_run rfl hm (Nat.le_refl _) ⟨rfl, rfl⟩) ?_
      rintro _ _ ⟨⟩ - -
      exact (traces_bindMethod hm hi hbind).bind fun g m' _ hgoes hg => .pure hgoes.traced hg

/-- The method that is found for the word `parent` is bound to the receiver. -/
theorem traces_getParentMethod (hm : m.store.Traced O) {ref : Reference} {method : Token}
    (hO : ∀ d c i f, m.distances[ref.id]? = some (d + 1) →
      m.store.getAt? m.active (d + 1) "parent" = some (.classRef c) →
      m.store.getAt? m.active d "this" = some (.instanceRef i) →
      c.method? method.lexeme = some f → ∃ k, O k (.bind f i) m) :
    (getParentMethod ref method).Traces O m fun v s => v.Traced O s := by
  refine .get_bind ?_
  cases hd : m.distances[ref.id]? with
  | none => exact traces_fail hm
  | some d =>
    simp only [require, pure_bind]
    split
    · next c hc =>
      cases d with
      | zero => exact traces_fail hm
      | succ d =>
        dsimp only
        split
        · next i hi =>
          cases hmethod : c.method? method.lexeme with
          | none => exact traces_fail hm
          | some f =>
            obtain ⟨k, hbind⟩ := hO d c i f hd hc hi hmethod
            exact (traces_bindMethod hm (traced_of_getAt? hm hi) hbind).bind
              fun g m' _ hgoes hg => .pure hgoes.traced hg
        · exact traces_fail hm
    · exact traces_fail hm

theorem newMethods_eq (frame : FrameId) (decls : List FunctionDecl) (m : Machine) :
    newMethods frame decls m = .ok (FunctionDecl.methodsIn frame m.nextIdentity decls)
      { m with nextIdentity := m.nextIdentity + decls.length } := by
  induction decls generalizing m with
  | nil => rfl
  | cons decl rest ih =>
    have hfirst : newClosure decl frame (decl.name.lexeme == initializerName) m =
      .ok ⟨m.nextIdentity, decl, frame, decl.name.lexeme == initializerName⟩
        { m with nextIdentity := m.nextIdentity + 1 } := rfl
    rw [newMethods, bind_of_ok hfirst, bind_of_ok (ih _), pure_apply, List.length_cons,
      Nat.add_assoc, Nat.add_comm 1]
    rfl

/-- The frame for the methods of a class. -/
theorem methodFrame_eq (parent : Option Class) (m : Machine) :
    methodFrame parent m.active m = .ok (m.methodFrame parent) { m with
      store := parent.elim m.store fun c =>
        (m.store.addFrame ((∅ : Bindings).insert "parent" (.classRef c)) (some m.active)).2 } := by
  cases parent <;> rfl

/-- The declaration of a class makes a class on the parent that it finds. -/
theorem traces_declareClass (hm : m.store.Traced O) {k : Nat} {name : Token} {parent : Option Reference}
    {methods : List FunctionDecl}
    (hO : O (k + 1) (.statement (.classDecl name parent methods)) m) :
    (declareClass name parent methods).Traces O m fun _ _ => True := by
  unfold declareClass
  have hparent : (parentClass parent).Traces O m fun _ _ => True := by
    cases parent with
    | none => exact .pure hm trivial
    | some ref =>
      refine (traces_lookUp hm ref).bind fun v m' _ hgoes _ => ?_
      split
      · exact .pure hgoes.traced trivial
      · exact traces_fail hgoes.traced
  refine hparent.bind fun found m₁ hrun _ _ => ?_
  obtain ⟨rfl, hfound⟩ := Task.parentClass_eq_ok.mp hrun
  have hdeclares : O.Declares m₁ name methods found ∧ ∀ c, found = some c → c.Made O := by
    obtain ⟨rfl, rfl⟩ | ⟨ref, c, rfl, rfl, hvalue⟩ := hfound
    · exact ⟨.plain hO, nofun⟩
    · refine ⟨.heir hO hvalue, ?_⟩
      rintro _ ⟨⟩
      exact traced_of_value? hm hvalue
  refine (traces_define (v := .null) hm trivial).bind fun _ m₂ hdefine hgoes₂ _ => ?_
  cases hdefine
  have hframe := methodFrame_eq found { m₁ with store := m₁.store.define m₁.active name.lexeme .null }
  have htraced : (methodFrame found m₁.active).Traces O
      { m₁ with store := m₁.store.define m₁.active name.lexeme .null } fun frame _ =>
        frame = m₁.methodFrame found := by
    refine .of_run hframe ?_ ?_ ?_
    · cases found with
      | none => exact hgoes₂.traced
      | some c =>
        refine hgoes₂.traced.addFrame (fun other v hv => ?_) _
        obtain ⟨-, rfl⟩ := Bindings.eq_of_single hv
        exact hdeclares.2 c rfl
    · cases found <;> exact Nat.le_refl _
    · cases found
      · rfl
      · exact Store.size_define _ _ _ _
  refine .get_bind (htraced.bind fun frame m₃ hrun₃ hgoes₃ hframe₃ => ?_)
  have hidentity : m₃.nextIdentity = m₁.nextIdentity := by
    cases hframe.symm.trans hrun₃
    rfl
  refine (Traces.of_run (P := fun closures _ => closures = FunctionDecl.methodsIn frame m₁.nextIdentity methods)
    (newMethods_eq frame methods m₃) hgoes₃.traced (Nat.le_refl _) (by rw [hidentity])).bind
      fun closures m₄ hrun₄ hgoes₄ hclosures => ?_
  have hidentity₄ : m₄.nextIdentity = m₁.nextIdentity + methods.length := by
    cases (newMethods_eq frame methods m₃).symm.trans hrun₄
    rw [hidentity]
  refine (Traces.of_run (P := fun identity _ => identity = m₁.nextIdentity + methods.length)
    (x := newIdentity) rfl hgoes₄.traced (Nat.le_refl _) hidentity₄).bind
      fun identity m₅ _ hgoes₅ hidentity₅ => .get_bind ?_
  refine traces_write hgoes₅.traced ?_
  rw [hidentity₅, hclosures, hframe₃]
  exact .declared hdeclares.1 hdeclares.2

end Action

end Treewalk
