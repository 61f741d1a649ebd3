import Treewalk.Proofs.Evaluation.Actions
import Treewalk.Proofs.Twins.Stores

/-! Actions that run alike. Two actions are alike on twin machines if both end in the same way, with
twin machines again; where one halts at a token, the other halts at the token that stands for it, for
the same cause. -/

namespace Treewalk

/-- The same halt, but for the disguise. What is no class may have another name. -/
inductive Halt.Twin (G : Disguise) : Halt → Halt → Prop
  | fault {t t' found} : G.token t t' → Twin G (.fault t found) (.fault t' found)
  | parentNotClass {chosen t t'} : G.Named chosen t t' →
    Twin G (.fault t .parentNotClass) (.fault t' .parentNotClass)
  | sink {found} : Twin G (.sink found) (.sink found)
  | exhausted : Twin G .exhausted .exhausted

/-- What may have become of twin machines. -/
structure Machine.Follows (G : Disguise) (K : Marks) (m : Machine) (K' : Marks) (m₁ m₁' : Machine) :
    Prop where
  twin : m₁.Twin G K' m₁'
  marks : K.Extends m.store.frames.size K' m₁.store.frames.size
  grows : m.store.Grows m₁.store
  active : m₁.active = m.active

section
variable {G : Disguise} {K K' K'' : Marks} {m m' m₁ m₁' m₂ m₂' : Machine}

theorem Machine.Twin.follows (h : m.Twin G K m') : m.Follows G K K m m' :=
  ⟨h, .refl _ _, .refl _, rfl⟩

theorem Machine.Follows.trans (h : m.Follows G K K' m₁ m₁') (h' : m₁.Follows G K' K'' m₂ m₂') :
    m.Follows G K K'' m₂ m₂' :=
  ⟨h'.twin, h.marks.trans h'.marks, h.grows.trans h'.grows, h'.active.trans h.active⟩

/-- The stores change, and nothing else does. -/
theorem Machine.Twin.withStore {s s' : Store} (hm : m.Twin G K m') (hs : s.Twin G K' s')
    (hK : K.Extends m.store.frames.size K' s.frames.size) (hgrows : m.store.Grows s) :
    m.Follows G K K' { m with store := s } { m' with store := s' } where
  twin := ⟨hs, hm.nextIdentity, hm.places, hm.globals, hm.active, hm.sink, hm.hostCalls,
    by rw [hK.same _ hm.globals_lt, hm.unmarked],
    by rw [hgrows.enclosing _ hm.globals_lt, hm.outermost],
    Nat.lt_of_lt_of_le hm.globals_lt hgrows.size, Nat.lt_of_lt_of_le hm.active_lt hgrows.size⟩
  marks := hK
  grows := hgrows
  active := rfl

/-- The mark of the active frame stays. -/
theorem Machine.Follows.mark (h : m.Follows G K K' m₁ m₁') (hm : m.Twin G K m') :
    K' m₁.active = K m.active := by
  rw [h.active, h.marks.same _ hm.active_lt]

end

/-- The host does not look at the arguments. -/
def Host.IgnoresArguments (host : Host) : Prop :=
  ∀ turn f args args', host.answer turn f args = host.answer turn f args'

theorem Host.ignoresArguments_reading (time : Nat → Float) : (Host.reading time).IgnoresArguments :=
  fun _ _ _ _ => rfl

/-- Values that are twins. -/
def Value.Twins (G : Disguise) (K : Marks) (s : Store) (v v' : Value) : Prop :=
  v.Twin G K s.frames.size v'

namespace Action

variable {G : Disguise} {K K' : Marks} {α β : Type} {m m' : Machine}

/-- The actions run alike on `m` and `m'`, and their values satisfy `Q`. -/
def Alike (G : Disguise) (K : Marks) (x x' : Action α) (m m' : Machine)
    (Q : Marks → Store → α → α → Prop) : Prop :=
  match x m, x' m' with
  | .ok a m₁, .ok a' m₁' => ∃ K', m.Follows G K K' m₁ m₁' ∧ Q K' m₁.store a a'
  | .error halt m₁, .error halt' m₁' => halt.Twin G halt' ∧ ∃ K', m.Follows G K K' m₁ m₁'
  | _, _ => False

namespace Alike

variable {x x' : Action α} {f f' : α → Action β} {P Q : Marks → Store → α → α → Prop}
  {S : Marks → Store → β → β → Prop}

theorem mono (h : Alike G K x x' m m' P)
    (hPQ : ∀ K' s a a', P K' s a a' → Q K' s a a') : Alike G K x x' m m' Q := by
  unfold Alike at h ⊢
  split at h
  · obtain ⟨K', hfollows, ha⟩ := h
    exact ⟨K', hfollows, hPQ _ _ _ _ ha⟩
  · exact h
  · exact h

theorem pure {a a' : α} (hm : m.Twin G K m') (h : Q K m.store a a') :
    Alike G K (pure a) (pure a') m m' Q :=
  ⟨K, hm.follows, h⟩

/-- Sequences of actions that run alike do so too. -/
theorem bind (hx : Alike G K x x' m m' P)
    (hf : ∀ K' a a' m₁ m₁', x m = .ok a m₁ → m.Follows G K K' m₁ m₁' → P K' m₁.store a a' →
      Alike G K' (f a) (f' a') m₁ m₁' S) : Alike G K (x >>= f) (x' >>= f') m m' S := by
  unfold Alike at hx
  cases hrun : x m with
  | ok a m₁ =>
    cases hrun' : x' m' with
    | ok a' m₁' =>
      rw [hrun, hrun'] at hx
      obtain ⟨K', hfollows, ha⟩ := hx
      have hrest := hf K' a a' m₁ m₁' hrun hfollows ha
      unfold Alike at hrest ⊢
      rw [bind_of_ok hrun, bind_of_ok hrun']
      split at hrest
      · obtain ⟨K'', hfollows', hb⟩ := hrest
        exact ⟨K'', hfollows.trans hfollows', hb⟩
      · obtain ⟨hhalt, K'', hfollows'⟩ := hrest
        exact ⟨hhalt, K'', hfollows.trans hfollows'⟩
      · exact hrest
    | error halt' m₁' => rw [hrun, hrun'] at hx; exact hx.elim
  | error halt m₁ =>
    cases hrun' : x' m' with
    | ok a' m₁' => rw [hrun, hrun'] at hx; exact hx.elim
    | error halt' m₁' =>
      rw [hrun, hrun'] at hx
      unfold Alike
      rw [bind_of_error hrun, bind_of_error hrun']
      exact hx

/-- Where the first action yields a value, so does the second one. -/
theorem of_ok (h : Alike G K x x' m m' P) {a : α} {m₁ : Machine} (hrun : x m = .ok a m₁) :
    ∃ a' m₁' K', x' m' = .ok a' m₁' ∧ m.Follows G K K' m₁ m₁' ∧ P K' m₁.store a a' := by
  unfold Alike at h
  rw [hrun] at h
  cases hrun' : x' m' with
  | ok a' m₁' =>
    rw [hrun'] at h
    obtain ⟨K', hfollows, ha⟩ := h
    exact ⟨a', m₁', K', rfl, hfollows, ha⟩
  | error halt' m₁' => rw [hrun'] at h; exact h.elim

/-- To look at the machines changes nothing. -/
theorem get_bind {g g' : Machine → Action β} (h : Alike G K (g m) (g' m') m m' S) :
    Alike G K ((get : Action Machine) >>= g) ((get : Action Machine) >>= g') m m' S :=
  h

theorem inFrame {frame frame' : FrameId}
    (h : Alike G K x x' { m with active := frame } { m' with active := frame' } Q)
    (hm : m.Twin G K m') : Alike G K (inFrame frame x) (inFrame frame' x') m m' Q := by
  have hback {K' : Marks} {m₁ m₁' : Machine}
      (hfollows : Machine.Follows G K { m with active := frame } K' m₁ m₁') :
      m.Follows G K K' { m₁ with active := m.active } { m₁' with active := m'.active } := by
    obtain ⟨htwin, hmarks, hgrows, -⟩ := hfollows
    refine ⟨?_, hmarks, hgrows, rfl⟩
    exact ⟨htwin.store, htwin.nextIdentity, htwin.places, htwin.globals, hm.active, htwin.sink,
      htwin.hostCalls, htwin.unmarked, htwin.outermost, htwin.globals_lt,
      Nat.lt_of_lt_of_le hm.active_lt hgrows.size⟩
  unfold Alike Action.inFrame at *
  dsimp only
  cases hrun : x { m with active := frame } with
  | ok a m₁ =>
    cases hrun' : x' { m' with active := frame' } with
    | ok a' m₁' =>
      rw [hrun, hrun'] at h
      obtain ⟨K', hfollows, ha⟩ := h
      exact ⟨K', hback hfollows, ha⟩
    | error halt' m₁' => rw [hrun, hrun'] at h; exact h
  | error halt m₁ =>
    cases hrun' : x' { m' with active := frame' } with
    | ok a' m₁' => rw [hrun, hrun'] at h; exact h
    | error halt' m₁' =>
      rw [hrun, hrun'] at h
      obtain ⟨hhalt, K', hfollows⟩ := h
      exact ⟨hhalt, K', hback hfollows⟩

end Alike

variable {Q : Marks → Store → α → α → Prop}

theorem alike_throw {halt halt' : Halt} (hm : m.Twin G K m') (h : halt.Twin G halt') :
    Alike G K (throw halt : Action α) (throw halt') m m' Q :=
  ⟨h, K, hm.follows⟩

variable {token token' : Token}

theorem alike_fail (hm : m.Twin G K m') (htoken : G.token token token') (fault : RuntimeFault) :
    Alike G K (fail token fault : Action α) (fail token' fault) m m' Q :=
  alike_throw hm (.fault htoken)

theorem alike_lift {result : Except RuntimeFault α} (hm : m.Twin G K m')
    (htoken : G.token token token') (h : ∀ a, result = .ok a → Q K m.store a a) :
    Alike G K (lift token result) (lift token' result) m m' Q := by
  cases result with
  | ok a => exact .pure hm (h a rfl)
  | error fault => exact alike_fail hm htoken fault

theorem alike_require {fault fault' : RuntimeFault} {found found' : Option α}
    {r : α → α → Prop} (hm : m.Twin G K m') (h : Option.Rel r found found')
    (hsome : ∀ a a', r a a' → Q K m.store a a')
    (hnone : found = none → (Halt.fault token fault).Twin G (.fault token' fault')) :
    Alike G K (require token fault found) (require token' fault' found') m m' Q := by
  cases h with
  | none => exact alike_throw hm (hnone rfl)
  | some h => exact .pure hm (hsome _ _ h)

theorem alike_modify (K' : Marks) {g g' : Machine → Machine}
    {Q : Marks → Store → Unit → Unit → Prop} (h : m.Follows G K K' (g m) (g' m'))
    (hQ : Q K' (g m).store () ()) :
    Alike G K (modify g : Action Unit) (modify g') m m' Q :=
  ⟨K', h, hQ⟩

theorem alike_modifyGet (K' : Marks) {g g' : Machine → α × Machine}
    (h : m.Follows G K K' (g m).2 (g' m').2) (hQ : Q K' (g m).2.store (g m).1 (g' m').1) :
    Alike G K (modifyGet g : Action α) (modifyGet g') m m' Q :=
  ⟨K', h, hQ⟩

variable {v v' : Value} {name name' : Token} {i i' : Instance} {f f' : Closure} {c c' : Class}

theorem follows_define (hm : m.Twin G K m') (frame : FrameId) (name : String)
    (hv : v.Twin G K m.store.frames.size v') :
    m.Follows G K K { m with store := m.store.define frame name v }
      { m' with store := m'.store.define frame (G.nameIf (K frame = some 0) name) v' } := by
  refine hm.withStore (hm.store.define frame name hv) ?_ (m.store.grows_define frame name v)
  rw [Store.size_define]
  exact .refl _ _

theorem alike_define (hm : m.Twin G K m')
    (hname : name'.lexeme = G.nameIf (K m.active = some 0) name.lexeme)
    (hv : v.Twin G K m.store.frames.size v') :
    Alike G K (define name v) (define name' v') m m' fun _ _ _ _ => True := by
  have hdefine : m'.store.define m'.active name'.lexeme v' =
      m'.store.define m.active (G.nameIf (K m.active = some 0) name.lexeme) v' := by
    rw [hname, hm.active]
  refine alike_modify K ?_ trivial
  rw [hdefine]
  exact follows_define hm m.active name.lexeme hv

theorem alike_write {frame? : Option FrameId} (hm : m.Twin G K m')
    (hname : ∀ frame, frame? = some frame →
      name'.lexeme = G.nameIf (K frame = some 0) name.lexeme)
    (hnone : frame? = none → G.token name name') (hv : v.Twin G K m.store.frames.size v') :
    Alike G K (write frame? name v) (write frame? name' v') m m' fun _ _ _ _ => True := by
  cases frame? with
  | none =>
    have htoken := hnone rfl
    refine alike_throw hm ?_
    rw [Disguise.lexeme_eq htoken]
    exact .fault htoken
  | some frame =>
    refine alike_modify K ?_ trivial
    rw [hname frame rfl]
    exact follows_define hm frame name.lexeme hv

/-- An occurrence whose name is global, or does not change, stands for itself. -/
theorem token_of_clear {ref ref' : Reference} {found : Prop} (hm : m.Twin G K m')
    (href : G.Refers (K m.active) ref ref')
    (hclear : (∀ d, m.distances[ref.id]? = some d → found) ∨ G.Keeps ref.name) (hnone : ¬found) :
    G.token ref.name ref'.name := by
  obtain ⟨d, hplace, hname⟩ := href
  obtain hfound | hkeeps := hclear
  · obtain ⟨rfl, -⟩ := hm.places _ _ _ hplace
    have hglobal : m.distances[ref.id]? = none :=
      Option.eq_none_iff_forall_ne_some.mpr fun d hd => hnone (hfound d hd)
    rw [hglobal] at hname
    cases hk : K m.active <;> simpa [hk] using hname
  · exact hname.token_of_keeps hkeeps

variable {ref ref' : Reference}

/-- An occurrence is read alike, unless its name changes and it has a distance but no value. -/
theorem alike_lookUp (hm : m.Twin G K m') (href : G.Refers (K m.active) ref ref')
    (hclear : (∀ d, m.distances[ref.id]? = some d → (m.value? ref).isSome) ∨ G.Keeps ref.name) :
    Alike G K (lookUp ref) (lookUp ref') m m' (Value.Twins G) := by
  refine Alike.get_bind (alike_require hm (hm.value? href) (fun _ _ => id) fun hnone => ?_)
  have htoken := token_of_clear hm href hclear (by simp [hnone])
  rw [Disguise.lexeme_eq htoken]
  exact .fault htoken

/-- An occurrence is written to alike, unless its name changes and it has a distance but no frame. -/
theorem alike_assign (hm : m.Twin G K m') (href : G.Refers (K m.active) ref ref')
    (hclear : (∀ d, m.distances[ref.id]? = some d → (m.target? ref).isSome) ∨ G.Keeps ref.name)
    (hv : v.Twin G K m.store.frames.size v') :
    Alike G K (assign ref v) (assign ref' v') m m' fun _ _ _ _ => True := by
  obtain ⟨htarget, hname⟩ := hm.target? href
  refine Alike.get_bind ?_
  rw [htarget]
  exact alike_write hm hname (fun hnone => token_of_clear hm href hclear (by simp [hnone])) hv

/-- A frame is made, for the chosen scope or for another one. -/
theorem alike_newFrame {b b' : Bindings} {p : FrameId} {k : Option Nat} (hm : m.Twin G K m')
    (hp : p < m.store.frames.size) (hk : Inward (K p) k)
    (hb : ∀ name : String, Option.Rel (Value.Twin G K m.store.frames.size) b[name]?
      b'[G.nameIf (k = some 0) name]?) :
    Alike G K (newFrame b p) (newFrame b' p) m m' fun K' s frame frame' =>
      frame' = frame ∧ K' frame = k ∧ frame < s.frames.size := by
  have hsize : (m.store.addFrame b (some p)).2.frames.size = m.store.frames.size + 1 := by
    simp [Store.addFrame]
  refine alike_modifyGet (Function.update K m.store.frames.size k) ?_ ?_
  · refine hm.withStore (hm.store.addFrame hp hk hb) ?_ (m.store.grows_addFrame b _)
    rw [hsize]
    exact K.extends_update _ k
  · refine ⟨hm.store.size, Function.update_self _ _ _, ?_⟩
    show m.store.frames.size < (m.store.addFrame b (some p)).2.frames.size
    rw [hsize]
    exact Nat.lt_succ_self _

theorem alike_newIdentity (hm : m.Twin G K m') :
    Alike G K newIdentity newIdentity m m' fun _ _ identity identity' => identity' = identity := by
  refine alike_modifyGet K ⟨?_, .refl _ _, .refl _, rfl⟩ hm.nextIdentity
  exact ⟨hm.store, congrArg (· + 1) hm.nextIdentity, hm.places, hm.globals, hm.active, hm.sink,
    hm.hostCalls, hm.unmarked, hm.outermost, hm.globals_lt, hm.active_lt⟩

theorem alike_print (hm : m.Twin G K m') (line : String) :
    Alike G K (print line) (print line) m m' fun _ _ _ _ => True := by
  have hwrite : Alike G K
      (modifyGet fun m : Machine =>
        ((m.sink.write (line ++ "\n").toUTF8).2,
          { m with sink := (m.sink.write (line ++ "\n").toUTF8).1 }))
      (modifyGet fun m : Machine =>
        ((m.sink.write (line ++ "\n").toUTF8).2,
          { m with sink := (m.sink.write (line ++ "\n").toUTF8).1 })) m m'
      fun _ _ taken taken' => taken' = taken := by
    refine alike_modifyGet K ⟨?_, .refl _ _, .refl _, rfl⟩ (by rw [hm.sink])
    exact ⟨hm.store, hm.nextIdentity, hm.places, hm.globals, hm.active, by rw [hm.sink],
      hm.hostCalls, hm.unmarked, hm.outermost, hm.globals_lt, hm.active_lt⟩
  refine hwrite.bind ?_
  rintro K' _ taken m₁ m₁' - hfollows rfl
  split
  · exact alike_throw hfollows.twin .sink
  · exact .pure hfollows.twin trivial

theorem alike_flush (hm : m.Twin G K m') : Alike G K flush flush m m' fun _ _ _ _ => True := by
  refine Alike.get_bind ?_
  rw [hm.sink]
  split
  · exact alike_throw hm .sink
  · exact .pure hm trivial

/-- A function that is declared in twin machines is twins. -/
theorem alike_newClosure {decl decl' : FunctionDecl} {frame : FrameId} {j : Nat}
    (hm : m.Twin G K m') (hframe : frame < m.store.frames.size)
    (hdecl : decl.Like G ((K frame).map (· + j)) decl') (isInitializer : Bool) :
    Alike G K (newClosure decl frame isInitializer) (newClosure decl' frame isInitializer) m m'
      fun K' s f f' => f.Twin G K' s.frames.size j f' := by
  refine (alike_newIdentity hm).bind ?_
  rintro K' _ identity m₁ m₁' - hfollows rfl
  refine .pure hfollows.twin ⟨rfl, rfl, rfl, Nat.lt_of_lt_of_le hframe hfollows.marks.le, ?_⟩
  rwa [hfollows.marks.same frame hframe]

/-- The frame for a receiver or a parent does not belong to the chosen scope. -/
theorem alike_newFrame_word {p : FrameId} (word : Keyword) (hm : m.Twin G K m')
    (hp : p < m.store.frames.size) (hv : v.Twin G K m.store.frames.size v') :
    Alike G K (newFrame ((∅ : Bindings).insert word.spelling v) p)
      (newFrame ((∅ : Bindings).insert word.spelling v') p) m m' fun K' s frame frame' =>
        frame' = frame ∧ K' frame = (K p).map (· + 1) ∧ frame < s.frames.size := by
  refine alike_newFrame hm hp (.self _) fun name => ?_
  have hzero : (K p).map (· + 1) ≠ some 0 := by cases K p <;> simp
  rw [decide_eq_false hzero, Disguise.nameIf_false, Std.TreeMap.getElem?_insert,
    Std.TreeMap.getElem?_insert]
  split
  · exact .some hv
  · simp

/-- A method that is bound to twins is twins. -/
theorem alike_bindMethod (hm : m.Twin G K m') (hf : f.Twin G K m.store.frames.size 1 f')
    (hi : (Value.instanceRef i).Twin G K m.store.frames.size (.instanceRef i')) :
    Alike G K (bindMethod f i) (bindMethod f' i') m m'
      fun K' s g g' => g.Twin G K' s.frames.size 0 g' := by
  unfold bindMethod
  rw [hf.frame]
  refine (alike_newFrame_word .thisWord hm hf.lt hi).bind ?_
  rintro K₁ _ frame m₁ m₁' - hfollows₁ ⟨rfl, hmark, hframe⟩
  refine (alike_newIdentity hfollows₁.twin).bind ?_
  rintro K₂ _ identity m₂ m₂' - hfollows₂ rfl
  refine .pure hfollows₂.twin
    ⟨rfl, rfl, hf.isInitializer, Nat.lt_of_lt_of_le hframe hfollows₂.marks.le, ?_⟩
  dsimp only
  rw [hfollows₂.marks.same frame hframe, hmark, Option.map_map]
  exact hf.decl

theorem alike_newInstance (hm : m.Twin G K m') (hc : c.Twin G K m.store.frames.size c') :
    Alike G K (newInstance c) (newInstance c') m m' fun K' s i i' =>
      (Value.instanceRef i).Twin G K' s.frames.size (.instanceRef i') := by
  refine alike_modifyGet K ?_ ?_
  · exact hm.withStore hm.store.addObject (.refl _ _) m.store.grows_addObject
  · show Value.Twin G K m.store.frames.size (.instanceRef ⟨m.store.fields.size, c⟩)
      (.instanceRef ⟨m'.store.fields.size, c'⟩)
    rw [hm.store.objects]
    exact .instanceRef hc

theorem alike_callHost {host : Host} (hm : m.Twin G K m') (hhost : host.AnswersNumbers)
    (hdeaf : host.IgnoresArguments) (native : Native) (htoken : G.token token token')
    (args args' : List Value) :
    Alike G K (callHost host native token args) (callHost host native token' args') m m'
      (Value.Twins G) := by
  have hturn : Alike G K
      (modifyGet fun m : Machine => (m.hostCalls, { m with hostCalls := m.hostCalls + 1 }))
      (modifyGet fun m : Machine => (m.hostCalls, { m with hostCalls := m.hostCalls + 1 })) m m'
      fun _ _ turn turn' => turn' = turn := by
    refine alike_modifyGet K ⟨?_, .refl _ _, .refl _, rfl⟩ hm.hostCalls
    exact ⟨hm.store, hm.nextIdentity, hm.places, hm.globals, hm.active, hm.sink,
      congrArg (· + 1) hm.hostCalls, hm.unmarked, hm.outermost, hm.globals_lt,
      hm.active_lt⟩
  refine hturn.bind ?_
  rintro K' _ turn m₁ m₁' - hfollows rfl
  rw [hdeaf turn native args args']
  refine alike_lift hfollows.twin htoken fun v hv => ?_
  cases hanswer : host.answer turn native args' with
  | ok w =>
    obtain ⟨x, rfl⟩ := hhost turn native args' w hanswer
    rw [hanswer] at hv
    cases hv
    exact .number
  | error message =>
    rw [hanswer] at hv
    cases hv

/-- A method of twin classes is bound to twins. -/
theorem alike_boundMethod (hm : m.Twin G K m') (hc : c.Twin G K m.store.frames.size c')
    (hi : (Value.instanceRef i).Twin G K m.store.frames.size (.instanceRef i'))
    (hname : G.token name name') :
    Alike G K
      (do
        let f ← require name (.undefinedProperty name.lexeme) (c.method? name.lexeme)
        return .function (← bindMethod f i))
      (do
        let f ← require name' (.undefinedProperty name'.lexeme) (c'.method? name'.lexeme)
        return .function (← bindMethod f i')) m m' (Value.Twins G) := by
  rw [Disguise.lexeme_eq hname]
  refine (alike_require (Q := fun K s => Closure.Twin G K s.frames.size 1) hm
    (hc.method? name.lexeme) (fun _ _ => id) fun _ => .fault hname).bind ?_
  rintro K₁ f f' m₁ m₁' - hfollows hf
  refine (alike_bindMethod hfollows.twin hf (hi.mono hfollows.marks)).bind ?_
  rintro K₂ g g' m₂ m₂' - hfollows' hg
  exact .pure hfollows'.twin (.function hg)

theorem alike_getProperty (hm : m.Twin G K m')
    (hi : (Value.instanceRef i).Twin G K m.store.frames.size (.instanceRef i'))
    (hname : G.token name name') :
    Alike G K (getProperty i name) (getProperty i' name') m m' (Value.Twins G) := by
  refine Alike.get_bind ?_
  rw [Disguise.lexeme_eq hname]
  have hreceiver := hi
  cases hi with
  | @instanceRef identity c c' hc =>
    have hfield := hm.store.fields identity name.lexeme
    generalize m.store.field? identity name.lexeme = v, m'.store.field? identity name.lexeme = v'
      at hfield ⊢
    cases hfield with
    | some hv => exact .pure hm hv
    | none =>
      have hbound := alike_boundMethod hm hc hreceiver hname
      rwa [Disguise.lexeme_eq hname] at hbound

theorem alike_setProperty (hm : m.Twin G K m')
    (hi : (Value.instanceRef i).Twin G K m.store.frames.size (.instanceRef i'))
    (hname : G.token name name') (hv : v.Twin G K m.store.frames.size v') :
    Alike G K (setProperty i name v) (setProperty i' name' v') m m' fun _ _ _ _ => True := by
  cases hi with
  | instanceRef _ =>
    refine alike_modify K ?_ trivial
    rw [Disguise.lexeme_eq hname]
    exact hm.withStore (hm.store.setField _ _ hv) (.refl _ _) (m.store.grows_setField _ _ _)

theorem alike_getParentMethod (hm : m.Twin G K m') (href : G.Refers none ref ref')
    (hname : G.token name name') :
    Alike G K (getParentMethod ref name) (getParentMethod ref' name') m m' (Value.Twins G) := by
  obtain ⟨d, hplace, hword⟩ := href
  obtain ⟨hd, hd'⟩ := hm.places _ _ _ hplace
  have htoken : G.token ref.name ref'.name := by simpa using hword
  refine Alike.get_bind ?_
  rw [hd, hd', hm.active]
  cases d with
  | none => exact alike_fail hm htoken .unresolvedParent
  | some d =>
    simp only [require, pure_bind]
    have hparent := hm.store.getAt?_word m.active d .parentWord
    simp only [Keyword.spelling] at hparent
    generalize m.store.getAt? m.active d "parent" = parent,
      m'.store.getAt? m.active d "parent" = parent' at hparent ⊢
    cases hparent with
    | none => exact alike_fail hm htoken _
    | some hparent =>
      cases hparent with
      | classRef hc =>
        cases d with
        | zero => exact alike_fail hm htoken _
        | succ d =>
          have hthis := hm.store.getAt?_word m.active d .thisWord
          simp only [Keyword.spelling] at hthis
          dsimp only
          generalize m.store.getAt? m.active d "this" = receiver,
            m'.store.getAt? m.active d "this" = receiver' at hthis ⊢
          cases hthis with
          | none => exact alike_fail hm htoken _
          | some hthis =>
            cases hthis with
            | instanceRef hi => exact alike_boundMethod hm hc (.instanceRef hi) hname
            | _ => exact alike_fail hm htoken _
      | _ => exact alike_fail hm htoken _

/-- The methods of twin classes are twins. -/
theorem alike_newMethods {frame : FrameId} {decls decls' : List FunctionDecl} (hm : m.Twin G K m')
    (hframe : frame < m.store.frames.size)
    (hdecls : FunctionDecl.AllLike G ((K frame).map (· + 1)) decls decls') :
    Alike G K (newMethods frame decls) (newMethods frame decls') m m'
      fun K' s => List.Forall₂ (Closure.Twin G K' s.frames.size 1) := by
  induction decls generalizing decls' K m m' with
  | nil =>
    cases hdecls
    exact .pure hm .nil
  | cons decl rest ih =>
    obtain _ | ⟨hdecl, hrest⟩ := hdecls
    rw [newMethods, newMethods, Disguise.lexeme_eq hdecl.name]
    refine (alike_newClosure hm hframe hdecl _).bind ?_
    rintro K₁ f f' m₁ m₁' - hfollows₁ hf
    have hrest₁ := ih hfollows₁.twin (Nat.lt_of_lt_of_le hframe hfollows₁.marks.le)
      (by rwa [hfollows₁.marks.same frame hframe])
    refine hrest₁.bind ?_
    rintro K₂ fs fs' m₂ m₂' - hfollows₂ hfs
    exact .pure hfollows₂.twin (.cons (hf.mono hfollows₂.marks) hfs)

/-- The frame for the methods of a class is followed by as many scopes as lie around a method. -/
theorem alike_methodFrame {parent parent' : Option Class} {frame : FrameId} (hm : m.Twin G K m')
    (hframe : frame < m.store.frames.size)
    (hparent : Option.Rel (Class.Twin G K m.store.frames.size) parent parent') :
    Alike G K (methodFrame parent frame) (methodFrame parent' frame) m m' fun K' s g g' =>
      g' = g ∧ g < s.frames.size ∧
        K' g = if parent.isSome then (K frame).map (· + 1) else K frame := by
  cases hparent with
  | none => exact .pure hm ⟨rfl, hframe, rfl⟩
  | some hc =>
    refine (alike_newFrame_word .parentWord hm hframe (.classRef hc)).mono ?_
    rintro K' s g _ ⟨rfl, hmark, hg⟩
    exact ⟨rfl, hg, hmark⟩

/-- What is named as a parent is a class in both machines, or in neither. -/
theorem alike_parentClass {parent parent' : Option Reference} (hm : m.Twin G K m')
    (hparent : Option.Rel (G.Refers (K m.active)) parent parent')
    (hclear : ∀ ref ∈ parent,
      (∀ d, m.distances[ref.id]? = some d → (m.value? ref).isSome) ∨ G.Keeps ref.name) :
    Alike G K (parentClass parent) (parentClass parent') m m' fun K' s c c' =>
      Option.Rel (Class.Twin G K' s.frames.size) c c' ∧ c.isSome = parent.isSome := by
  cases hparent with
  | none => exact .pure hm ⟨.none, rfl⟩
  | some href =>
    refine (alike_lookUp hm href (hclear _ rfl)).bind ?_
    rintro K' v v' m₁ m₁' - hfollows hv
    obtain ⟨d, -, hname⟩ := href
    cases hv with
    | classRef hc => exact .pure hfollows.twin ⟨.some hc, rfl⟩
    | _ => exact alike_throw hfollows.twin (.parentNotClass hname)

/-- A class is declared alike, its name not being changed. -/
theorem alike_declareClass {parent parent' : Option Reference} {methods methods' : List FunctionDecl}
    (hm : m.Twin G K m') (hname : G.token name name') (hkeeps : K m.active = some 0 → G.Keeps name)
    (hparent : Option.Rel (G.Refers (K m.active)) parent parent')
    (hclear : ∀ ref ∈ parent,
      (∀ d, m.distances[ref.id]? = some d → (m.value? ref).isSome) ∨ G.Keeps ref.name)
    (hmethods : FunctionDecl.AllLike G ((K m.active).map (· + methodScopes parent)) methods methods') :
    Alike G K (declareClass name parent methods) (declareClass name' parent' methods') m m'
      fun _ _ _ _ => True := by
  have hkept : name.lexeme = G.nameIf (K m.active = some 0) name.lexeme := by
    by_cases hk : K m.active = some 0
    · simp [hk, show G.name name.lexeme = name.lexeme from hkeeps hk]
    · simp [hk]
  unfold declareClass
  rw [Disguise.lexeme_eq hname]
  refine (alike_parentClass hm hparent hclear).bind ?_
  rintro K₁ c c' m₁ m₁' - hfollows₁ ⟨hc, hsome⟩
  have hmark₁ := hfollows₁.mark hm
  -- the name is bound before there are any methods
  refine (alike_define hfollows₁.twin (by rw [hmark₁, ← hkept, Disguise.lexeme_eq hname])
    Value.Twin.null).bind ?_
  rintro K₂ _ _ m₂ m₂' hdefine hfollows₂ -
  have hall₂ := hfollows₁.trans hfollows₂
  have hmark₂ := hall₂.mark hm
  have hbound : (m₂.store.binding? m₂.active name.lexeme).isSome := by
    cases hdefine
    simp [Store.binding?_define_same hfollows₁.twin.active_lt]
  refine Alike.get_bind ?_
  rw [hfollows₂.twin.active]
  refine (alike_methodFrame hfollows₂.twin hfollows₂.twin.active_lt
    (hc.imp fun _ _ => .mono hfollows₂.marks)).bind ?_
  rintro K₃ _ frame m₃ m₃' - hfollows₃ ⟨rfl, hframe, hmark⟩
  have hmethods₃ : FunctionDecl.AllLike G ((K₃ frame).map (· + 1)) methods methods' := by
    rw [hmark, hsome, hmark₂]
    cases parent with
    | none => exact hmethods
    | some ref =>
      rw [Option.isSome_some, if_pos rfl, Option.map_map]
      exact hmethods
  refine (alike_newMethods hfollows₃.twin hframe hmethods₃).bind ?_
  rintro K₄ fs fs' m₄ m₄' - hfollows₄ hfs
  refine (alike_newIdentity hfollows₄.twin).bind ?_
  rintro K₅ _ identity m₅ m₅' - hfollows₅ rfl
  refine Alike.get_bind ?_
  have hlater := hfollows₃.trans (hfollows₄.trans hfollows₅)
  have hmark₅ : K₅ m₂.active = K m.active := by
    rw [hlater.marks.same _ hfollows₂.twin.active_lt, hmark₂]
  have hbound₅ : (m₅.store.binding? m₂.active name.lexeme).isSome := hlater.grows.bound _ _ hbound
  have hbound₅' : (m₅'.store.binding? m₂.active name.lexeme).isSome := by
    have hbinding := hfollows₅.twin.store.bindings m₂.active name.lexeme
    rw [hmark₅, ← hkept] at hbinding
    generalize m₅.store.binding? m₂.active name.lexeme = v,
      m₅'.store.binding? m₂.active name.lexeme = v' at hbinding hbound₅ ⊢
    cases hbinding with
    | none => exact hbound₅
    | some _ => rfl
  rw [Store.holder?_of_bound hbound₅, Store.holder?_of_bound hbound₅']
  refine alike_write hfollows₅.twin ?_ nofun (.classRef (.extend ?_ ⟨rfl, rfl, ?_⟩))
  · rintro _ ⟨⟩
    rw [hmark₅, ← hkept, Disguise.lexeme_eq hname]
  · exact hc.imp fun _ _ => .mono (hfollows₂.trans hlater).marks
  · exact hfs.imp fun _ _ => .mono hfollows₅.marks

end Action

end Treewalk
