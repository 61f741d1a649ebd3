import Treewalk.Proofs.Direct.Stores
import Treewalk.Proofs.Twins.Actions

/-! Actions with nodes and without. One action mirrors another on machines of which one mirrors the
other if both end in the same way, at the same token and for the same cause if they halt, on machines
of which one mirrors the other again. -/

namespace Treewalk

/-- The stores change, and nothing else does. -/
theorem Machine.Mirrors.withStores {W : Setting} {S S' : Seating} {π : Layers} {m m' : Machine}
    (h : m.Mirrors W S π m') (hS : S.Extends S') (hstores : S'.Mirrors W) :
    Machine.Mirrors W S' π { m with store := S'.direct } { m' with store := S'.unfolded } where
  direct := rfl
  unfolded := rfl
  stores := hstores
  nextIdentity := h.nextIdentity
  distances := h.distances
  globals := h.globals
  outermost := by
    rw [← h.outermost]
    exact hS.direct.enclosing _ (Nat.lt_of_lt_of_le h.globals_lt h.stores.base.1)
  globals_lt := h.globals_lt
  active := h.active.mono hS
  sink := h.sink
  hostCalls := h.hostCalls

theorem Machine.Mirrors.withActive {W : Setting} {S : Seating} {π π' : Layers} {m m' : Machine}
    {f f' : FrameId} (h : m.Mirrors W S π m') (hf : π'.Aligned W S f f') :
    Machine.Mirrors W S π' { m with active := f } { m' with active := f' } :=
  ⟨h.direct, h.unfolded, h.stores, h.nextIdentity, h.distances, h.globals, h.outermost, h.globals_lt,
    hf, h.sink, h.hostCalls⟩

/-- What may have become of a machine and of one that mirrors it. -/
structure Machine.MirrorsLater (W : Setting) (S : Seating) (π : Layers) (m : Machine) (S' : Seating)
    (m₁ m₁' : Machine) : Prop where
  seating : S.Extends S'
  mirrors : m₁.Mirrors W S' π m₁'
  active : m₁.active = m.active

theorem Machine.Mirrors.refl {W : Setting} {S : Seating} {π : Layers} {m m' : Machine}
    (h : m.Mirrors W S π m') : m.MirrorsLater W S π S m m' :=
  ⟨.refl S, h, rfl⟩

theorem Machine.MirrorsLater.trans {W : Setting} {S S' S'' : Seating} {π : Layers}
    {m m₁ m₁' m₂ m₂' : Machine} (h : m.MirrorsLater W S π S' m₁ m₁')
    (h' : m₁.MirrorsLater W S' π S'' m₂ m₂') : m.MirrorsLater W S π S'' m₂ m₂' :=
  ⟨h.seating.trans h'.seating, h'.mirrors, h'.active.trans h.active⟩

namespace Action

variable {W : Setting} {S S' : Seating} {π π' : Layers} {α β : Type} {m m' : Machine}

/-- On `m` and `m'` the second action mirrors the first one, and their values satisfy `Q`. -/
def Mirrored (W : Setting) (S : Seating) (π : Layers) (x x' : Action α) (m m' : Machine)
    (Q : Seating → α → α → Prop) : Prop :=
  match x m, x' m' with
  | .ok a m₁, .ok a' m₁' => ∃ S', m.MirrorsLater W S π S' m₁ m₁' ∧ Q S' a a'
  | .error halt m₁, .error halt' m₁' => halt' = halt ∧ ∃ S', m.MirrorsLater W S π S' m₁ m₁'
  | _, _ => False

namespace Mirrored

variable {x x' : Action α} {f f' : α → Action β} {P Q : Seating → α → α → Prop}
  {R : Seating → β → β → Prop}

theorem mono (h : Mirrored W S π x x' m m' P) (hPQ : ∀ S' a a', P S' a a' → Q S' a a') :
    Mirrored W S π x x' m m' Q := by
  unfold Mirrored at h ⊢
  split at h
  · obtain ⟨S', hm, ha⟩ := h
    exact ⟨S', hm, hPQ _ _ _ ha⟩
  · exact h
  · exact h

theorem pure {a a' : α} (hm : m.Mirrors W S π m') (h : Q S a a') :
    Mirrored W S π (pure a) (pure a') m m' Q :=
  ⟨S, hm.refl, h⟩

/-- Sequences of actions mirror each other if their actions do. -/
theorem bind (hx : Mirrored W S π x x' m m' P)
    (hf : ∀ S' a a' m₁ m₁', x m = .ok a m₁ → m.MirrorsLater W S π S' m₁ m₁' → P S' a a' →
      Mirrored W S' π (f a) (f' a') m₁ m₁' R) : Mirrored W S π (x >>= f) (x' >>= f') m m' R := by
  unfold Mirrored at hx
  cases hrun : x m with
  | ok a m₁ =>
    cases hrun' : x' m' with
    | ok a' m₁' =>
      rw [hrun, hrun'] at hx
      obtain ⟨S', hlater, ha⟩ := hx
      have hrest := hf S' a a' m₁ m₁' hrun hlater ha
      unfold Mirrored at hrest ⊢
      rw [bind_of_ok hrun, bind_of_ok hrun']
      split at hrest
      · obtain ⟨S'', hlater', hb⟩ := hrest
        exact ⟨S'', hlater.trans hlater', hb⟩
      · obtain ⟨hhalt, S'', hlater'⟩ := hrest
        exact ⟨hhalt, S'', hlater.trans hlater'⟩
      · exact hrest
    | error halt' m₁' => rw [hrun, hrun'] at hx; exact hx.elim
  | error halt m₁ =>
    cases hrun' : x' m' with
    | ok a' m₁' => rw [hrun, hrun'] at hx; exact hx.elim
    | error halt' m₁' =>
      rw [hrun, hrun'] at hx
      unfold Mirrored
      rw [bind_of_error hrun, bind_of_error hrun']
      exact hx

/-- To look at the machines changes nothing. -/
theorem get_bind {g g' : Machine → Action β} (h : Mirrored W S π (g m) (g' m') m m' R) :
    Mirrored W S π ((get : Action Machine) >>= g) ((get : Action Machine) >>= g') m m' R :=
  h

theorem inFrame {frame frame' : FrameId}
    (h : Mirrored W S π' x x' { m with active := frame } { m' with active := frame' } Q)
    (hm : m.Mirrors W S π m') :
    Mirrored W S π (inFrame frame x) (inFrame frame' x') m m' Q := by
  have hback {S' : Seating} {m₁ m₁' : Machine}
      (hlater : Machine.MirrorsLater W S π' { m with active := frame } S' m₁ m₁') :
      m.MirrorsLater W S π S' { m₁ with active := m.active } { m₁' with active := m'.active } :=
    ⟨hlater.seating, hlater.mirrors.withActive (hm.active.mono hlater.seating), rfl⟩
  unfold Mirrored Action.inFrame at *
  dsimp only
  cases hrun : x { m with active := frame } with
  | ok a m₁ =>
    cases hrun' : x' { m' with active := frame' } with
    | ok a' m₁' =>
      rw [hrun, hrun'] at h
      obtain ⟨S', hlater, ha⟩ := h
      exact ⟨S', hback hlater, ha⟩
    | error halt' m₁' => rw [hrun, hrun'] at h; exact h
  | error halt m₁ =>
    cases hrun' : x' { m' with active := frame' } with
    | ok a' m₁' => rw [hrun, hrun'] at h; exact h
    | error halt' m₁' =>
      rw [hrun, hrun'] at h
      obtain ⟨hhalt, S', hlater⟩ := h
      exact ⟨hhalt, S', hback hlater⟩

/-- An action in a scope that is added mirrors one that runs where it is. -/
theorem inScope (hm : m.Mirrors W S π m')
    (h : ∀ S' m₁', S.Extends S' → m.Mirrors W S' (.added :: π) m₁' →
      Mirrored W S' (.added :: π) x x' m m₁' Q) :
    Mirrored W S π x (do
      let frame ← newFrame ∅ (← get).active
      Action.inFrame frame x') m m' Q := by
  obtain ⟨store', nextIdentity', distances', globals', active', sink', hostCalls'⟩ := m'
  obtain rfl : store' = S.unfolded := hm.unfolded
  have hextends : S.Extends (S.addScope active') := Seating.extends_addScope
  have hscope := (hm.withStores hextends hm.stores.addScope).withActive
    (Seating.aligned_addScope hm.active hm.stores)
  have hstore : ({ m with store := S.direct, active := m.active } : Machine) = m := by
    rw [← hm.direct]
  rw [show (S.addScope active').direct = S.direct from rfl, hstore] at hscope
  have hrun := h _ _ hextends hscope
  have hback {S' : Seating} {m₁ m₁' : Machine}
      (hlater : m.MirrorsLater W (S.addScope active') (.added :: π) S' m₁ m₁') :
      m.MirrorsLater W S π S' m₁ { m₁' with active := active' } := by
    have hall := hextends.trans hlater.seating
    have hactive := hm.active.mono hall
    rw [← hlater.active] at hactive
    exact ⟨hall, hlater.mirrors.withActive hactive, hlater.active⟩
  unfold Mirrored at hrun ⊢
  show match x m, Action.inFrame S.unfolded.frames.size x' ⟨(S.addScope active').unfolded,
    nextIdentity', distances', globals', active', sink', hostCalls'⟩ with
    | .ok a m₁, .ok a' m₁' => ∃ S', m.MirrorsLater W S π S' m₁ m₁' ∧ Q S' a a'
    | .error halt m₁, .error halt' m₁' => halt' = halt ∧ ∃ S', m.MirrorsLater W S π S' m₁ m₁'
    | _, _ => False
  unfold Action.inFrame
  dsimp only
  generalize x m = result, x' ⟨(S.addScope active').unfolded, nextIdentity', distances', globals',
    S.unfolded.frames.size, sink', hostCalls'⟩ = result' at hrun ⊢
  cases result with
  | ok a m₁ =>
    cases result' with
    | ok a' m₁' =>
      obtain ⟨S', hlater, ha⟩ := hrun
      exact ⟨S', hback hlater, ha⟩
    | error halt' m₁' => exact hrun
  | error halt m₁ =>
    cases result' with
    | ok a' m₁' => exact hrun
    | error halt' m₁' =>
      obtain ⟨hhalt, S', hlater⟩ := hrun
      exact ⟨hhalt, S', hback hlater⟩

end Mirrored

variable {Q : Seating → α → α → Prop}

theorem mirrored_throw (hm : m.Mirrors W S π m') (halt : Halt) :
    Mirrored W S π (throw halt : Action α) (throw halt) m m' Q :=
  ⟨rfl, S, hm.refl⟩

theorem mirrored_fail (hm : m.Mirrors W S π m') (token : Token) (fault : RuntimeFault) :
    Mirrored W S π (fail token fault : Action α) (fail token fault) m m' Q :=
  mirrored_throw hm _

theorem mirrored_lift {result : Except RuntimeFault α} (hm : m.Mirrors W S π m') (token : Token)
    (h : ∀ a, result = .ok a → Q S a a) :
    Mirrored W S π (lift token result) (lift token result) m m' Q := by
  cases result with
  | ok a => exact .pure hm (h a rfl)
  | error fault => exact mirrored_fail hm token fault

theorem mirrored_require {found found' : Option α} (hm : m.Mirrors W S π m')
    (h : Option.Rel (Q S) found found') (token : Token) (fault : RuntimeFault) :
    Mirrored W S π (require token fault found) (require token fault found') m m' Q := by
  cases h with
  | none => exact mirrored_fail hm token fault
  | some h => exact .pure hm h

/-- The stores are changed. -/
theorem mirrored_stores (S' : Seating) {g g' : Machine → α × Machine} (hm : m.Mirrors W S π m')
    (hS : S.Extends S') (hstores : S'.Mirrors W) (hg : (g m).2 = { m with store := S'.direct })
    (hg' : (g' m').2 = { m' with store := S'.unfolded }) (hQ : Q S' (g m).1 (g' m').1) :
    Mirrored W S π (modifyGet g : Action α) (modifyGet g') m m' Q := by
  refine ⟨S', ⟨hS, ?_, ?_⟩, hQ⟩
  · rw [hg, hg']
    exact hm.withStores hS hstores
  · rw [hg]

variable {v v' : Value} {name : Token} {i i' : Instance} {f f' : Closure} {c c' : Class}
  {ref : Reference}

/-- A name is bound in a frame and in its seat. -/
theorem mirrored_bind {frame frame' : FrameId} (hm : m.Mirrors W S π m')
    (hframe : frame < S.direct.frames.size) (hseat : frame' = S.seat frame) {name : String}
    (hname : name ≠ "this") (hv : v.Mirrors W S v') :
    Mirrored W S π (modify fun m => { m with store := m.store.define frame name v })
      (modify fun m => { m with store := m.store.define frame' name v' }) m m'
      fun _ _ _ => True := by
  subst hseat
  refine mirrored_stores (S.define frame name v v') hm Seating.extends_define 
    (hm.stores.define hframe hname hv) ?_ ?_ trivial
  · simp only [Seating.define, hm.direct]
  · simp only [Seating.define, hm.unfolded]

theorem mirrored_define (hm : m.Mirrors W S π m') (hπ : π.Declares) (hname : name.IsName)
    (hv : v.Mirrors W S v') :
    Mirrored W S π (define name v) (define name v') m m' fun _ _ _ => True :=
  mirrored_bind hm (hm.active.lt hm.stores).1 (hm.active.seat hm.stores hπ) hname.ne_this hv

theorem mirrored_write {frame? frame?' : Option FrameId} (hm : m.Mirrors W S π m')
    (hframe : Option.Rel (fun f f' => f < S.direct.frames.size ∧ f' = S.seat f) frame? frame?')
    (hname : name.IsName) (hv : v.Mirrors W S v') :
    Mirrored W S π (write frame? name v) (write frame?' name v') m m' fun _ _ _ => True := by
  cases hframe with
  | none => exact mirrored_fail hm name _
  | some hframe => exact mirrored_bind hm hframe.1 hframe.2 hname.ne_this hv

theorem mirrored_lookUp (hm : m.Mirrors W S π m') (href : W.Lies π ref.id) :
    Mirrored W S π (lookUp ref) (lookUp ref) m m' (Value.Mirrors W) :=
  Mirrored.get_bind (mirrored_require hm (hm.value? href) _ _)

theorem mirrored_assign (hm : m.Mirrors W S π m') (href : W.Lies π ref.id)
    (hname : ref.name.IsName) (hv : v.Mirrors W S v') :
    Mirrored W S π (assign ref v) (assign ref v') m m' fun _ _ _ => True :=
  Mirrored.get_bind (mirrored_write hm (hm.target? href) hname hv)

/-- A frame is made, and one that is its seat. One for a receiver is made where names are declared. -/
theorem mirrored_newFrame {b b' : Bindings} {p p' : FrameId} (hm : m.Mirrors W S π m')
    (hp : π'.Aligned W S p p')
    (hb : ∀ name : String, Option.Rel (Value.Mirrors W S) b[name]? b'[name]?)
    (hthis : b["this"]?.isSome → π'.Declares) :
    Mirrored W S π (newFrame b p) (newFrame b' p') m m'
      fun S' frame frame' => Layers.Aligned W S' (.shared :: π') frame frame' := by
  have hstores := hm.stores.addFrame (hp.lt hm.stores).1 (hp.lt hm.stores).2 hb
    fun hbound => hp.seat hm.stores (hthis hbound)
  refine mirrored_stores (S.addFrame b b' p p') hm Seating.extends_addFrame hstores ?_ ?_ ?_
  · simp only [Seating.addFrame, hm.direct]
  · simp only [Seating.addFrame, hm.unfolded]
  · simp only [Store.addFrame, hm.direct, hm.unfolded]
    exact Seating.aligned_addFrame hp hm.stores

/-- A frame with one name is made. -/
theorem mirrored_newFrame_single {p p' : FrameId} (hm : m.Mirrors W S π m')
    (hp : π'.Aligned W S p p') (hπ : π'.Declares) (word : String) (hv : v.Mirrors W S v') :
    Mirrored W S π (newFrame ((∅ : Bindings).insert word v) p)
      (newFrame ((∅ : Bindings).insert word v') p') m m'
      fun S' frame frame' => Layers.Aligned W S' (.shared :: π') frame frame' := by
  refine mirrored_newFrame hm hp (fun name => ?_) fun _ => hπ
  rw [Std.TreeMap.getElem?_insert, Std.TreeMap.getElem?_insert]
  split
  · exact .some hv
  · simp

theorem mirrored_newIdentity (hm : m.Mirrors W S π m') :
    Mirrored W S π newIdentity newIdentity m m' fun _ identity identity' => identity' = identity := by
  refine ⟨S, ⟨.refl S, ?_, rfl⟩, hm.nextIdentity⟩
  exact ⟨hm.direct, hm.unfolded, hm.stores, congrArg (· + 1) hm.nextIdentity, hm.distances,
    hm.globals, hm.outermost, hm.globals_lt, hm.active, hm.sink, hm.hostCalls⟩

theorem mirrored_print (hm : m.Mirrors W S π m') (line : String) :
    Mirrored W S π (print line) (print line) m m' fun _ _ _ => True := by
  have hwrite : Mirrored W S π
      (modifyGet fun m : Machine =>
        ((m.sink.write (line ++ "\n").toUTF8).2,
          { m with sink := (m.sink.write (line ++ "\n").toUTF8).1 }))
      (modifyGet fun m : Machine =>
        ((m.sink.write (line ++ "\n").toUTF8).2,
          { m with sink := (m.sink.write (line ++ "\n").toUTF8).1 })) m m'
      fun _ taken taken' => taken' = taken := by
    refine ⟨S, ⟨.refl S, ?_, rfl⟩, by rw [hm.sink]⟩
    exact ⟨hm.direct, hm.unfolded, hm.stores, hm.nextIdentity, hm.distances, hm.globals,
      hm.outermost, hm.globals_lt, hm.active, by rw [hm.sink], hm.hostCalls⟩
  refine hwrite.bind ?_
  rintro S' _ taken m₁ m₁' - hlater rfl
  split
  · exact mirrored_throw hlater.mirrors _
  · exact .pure hlater.mirrors trivial

theorem mirrored_flush (hm : m.Mirrors W S π m') :
    Mirrored W S π flush flush m m' fun _ _ _ => True := by
  refine Mirrored.get_bind ?_
  rw [hm.sink]
  split
  · exact mirrored_throw hm _
  · exact .pure hm trivial

/-- A function that is declared with nodes is mirrored by one that is declared without. -/
theorem mirrored_newClosure (inner : Layers) {decl decl' : FunctionDecl} {frame frame' : FrameId}
    (hm : m.Mirrors W S π m') (hπ : π'.Declares) (hframe : π'.Aligned W S frame frame')
    (hdecl : decl.Unfolds W.Lies (inner ++ π') decl') (hspelled : decl'.Spelled Token.IsName)
    (isInitializer : Bool) :
    Mirrored W S π (newClosure decl frame isInitializer) (newClosure decl' frame' isInitializer)
      m m' fun S' f f' => f.Mirrors W S' inner f' := by
  refine (mirrored_newIdentity hm).bind ?_
  rintro S' _ identity m₁ m₁' - hlater rfl
  exact .pure hlater.mirrors 
    ⟨rfl, rfl, hspelled, π', hπ, hframe.mono hlater.seating, hdecl⟩

/-- A method that is bound to an instance has a frame for it. -/
theorem mirrored_bindMethod (hm : m.Mirrors W S π m') (hf : f.Mirrors W S [.shared] f')
    (hi : Value.Mirrors W S (.instanceRef i) (.instanceRef i')) :
    Mirrored W S π (bindMethod f i) (bindMethod f' i') m m'
      fun S' g g' => g.Mirrors W S' [] g' := by
  obtain ⟨π', hπ, haligned, hdecl⟩ := hf.placed
  refine (mirrored_newFrame_single hm haligned hπ "this" hi).bind ?_
  rintro S₁ frame frame' m₁ m₁' - hlater₁ hframe
  refine (mirrored_newIdentity hlater₁.mirrors).bind ?_
  rintro S₂ _ identity m₂ m₂' - hlater₂ rfl
  exact .pure hlater₂.mirrors
    ⟨rfl, hf.isInitializer, hf.spelled, .shared :: π', trivial, hframe.mono hlater₂.seating, hdecl⟩

theorem mirrored_newInstance (hm : m.Mirrors W S π m') (hc : c.Mirrors W S c') :
    Mirrored W S π (newInstance c) (newInstance c') m m' fun S' i i' =>
      Value.Mirrors W S' (.instanceRef i) (.instanceRef i') := by
  refine mirrored_stores S.addObject hm Seating.extends_addObject hm.stores.addObject
    ?_ ?_ ?_
  · simp only [Seating.addObject, hm.direct]
  · simp only [Seating.addObject, hm.unfolded]
  · simp only [Store.addObject, hm.direct, hm.unfolded, hm.stores.objects]
    exact .instanceRef (hc.mono Seating.extends_addObject)

theorem mirrored_callHost {host : Host} (hm : m.Mirrors W S π m') (hhost : host.AnswersNumbers)
    (hdeaf : host.IgnoresArguments) (native : Native) (token : Token) (args args' : List Value) :
    Mirrored W S π (callHost host native token args) (callHost host native token args') m m'
      (Value.Mirrors W) := by
  have hturn : Mirrored W S π
      (modifyGet fun m : Machine => (m.hostCalls, { m with hostCalls := m.hostCalls + 1 }))
      (modifyGet fun m : Machine => (m.hostCalls, { m with hostCalls := m.hostCalls + 1 })) m m'
      fun _ turn turn' => turn' = turn := by
    refine ⟨S, ⟨.refl S, ?_, rfl⟩, hm.hostCalls⟩
    exact ⟨hm.direct, hm.unfolded, hm.stores, hm.nextIdentity, hm.distances, hm.globals,
      hm.outermost, hm.globals_lt, hm.active, hm.sink, congrArg (· + 1) hm.hostCalls⟩
  refine hturn.bind ?_
  rintro S' _ turn m₁ m₁' - hlater rfl
  rw [hdeaf turn native args args']
  refine mirrored_lift hlater.mirrors token fun v hv => ?_
  cases hanswer : host.answer turn native args' with
  | ok w =>
    obtain ⟨x, rfl⟩ := hhost turn native args' w hanswer
    rw [hanswer] at hv
    cases hv
    exact .number
  | error message =>
    rw [hanswer] at hv
    cases hv

/-- A method of classes of which one mirrors the other is bound. -/
theorem mirrored_boundMethod (hm : m.Mirrors W S π m') (hc : c.Mirrors W S c')
    (hi : Value.Mirrors W S (.instanceRef i) (.instanceRef i')) (name : Token) :
    Mirrored W S π
      (do
        let f ← require name (.undefinedProperty name.lexeme) (c.method? name.lexeme)
        return .function (← bindMethod f i))
      (do
        let f ← require name (.undefinedProperty name.lexeme) (c'.method? name.lexeme)
        return .function (← bindMethod f i')) m m' (Value.Mirrors W) := by
  have hmethod := Class.Corresponds.method? Closure.indistinct_mirrors hc name.lexeme
  refine (mirrored_require (Q := fun S => Closure.Mirrors W S [.shared]) hm hmethod _ _).bind ?_
  rintro S₁ f f' m₁ m₁' - hlater hf
  refine (mirrored_bindMethod hlater.mirrors hf (hi.mono hlater.seating)).bind ?_
  rintro S₂ g g' m₂ m₂' - hlater' hg
  exact .pure hlater'.mirrors (.function hg)

theorem mirrored_getProperty (hm : m.Mirrors W S π m')
    (hi : Value.Mirrors W S (.instanceRef i) (.instanceRef i')) (name : Token) :
    Mirrored W S π (getProperty i name) (getProperty i' name) m m' (Value.Mirrors W) := by
  refine Mirrored.get_bind ?_
  have hreceiver := hi
  cases hi with
  | @instanceRef identity c c' hc =>
    have hfield := hm.stores.fields identity name.lexeme
    rw [← hm.direct, ← hm.unfolded] at hfield
    generalize m.store.field? identity name.lexeme = v, m'.store.field? identity name.lexeme = v'
      at hfield ⊢
    cases hfield with
    | some hv => exact .pure hm hv
    | none => exact mirrored_boundMethod hm hc hreceiver name

theorem mirrored_setProperty (hm : m.Mirrors W S π m')
    (hi : Value.Mirrors W S (.instanceRef i) (.instanceRef i')) (name : Token)
    (hv : v.Mirrors W S v') :
    Mirrored W S π (setProperty i name v) (setProperty i' name v') m m' fun _ _ _ => True := by
  cases hi with
  | @instanceRef identity c c' _ =>
    refine mirrored_stores (S.setField identity name.lexeme v v') hm Seating.extends_setField
      (hm.stores.setField identity hv) ?_ ?_ trivial
    · simp only [Seating.setField, hm.direct]
    · simp only [Seating.setField, hm.unfolded]

theorem mirrored_getParentMethod (hm : m.Mirrors W S π m') (href : W.Lies π ref.id) (name : Token) :
    Mirrored W S π (getParentMethod ref name) (getParentMethod ref name) m m' (Value.Mirrors W) := by
  refine Mirrored.get_bind ?_
  rw [hm.distances.1, hm.distances.2, href]
  cases W.direct[ref.id]? with
  | none => exact mirrored_fail hm _ _
  | some d =>
    simp only [Option.map_some, require, pure_bind]
    have hparent := hm.active.getAt? hm.stores d "parent"
    rw [← hm.direct, ← hm.unfolded] at hparent
    generalize m.store.getAt? m.active d "parent" = parent,
      m'.store.getAt? m'.active (π.lift d) "parent" = parent' at hparent ⊢
    cases hparent with
    | none => exact mirrored_fail hm _ _
    | some hparent =>
      cases hparent with
      | classRef hc =>
        cases d with
        | zero =>
          -- between a place and the innermost shared scope there is no receiver
          cases hk : π.lift 0 with
          | zero => exact mirrored_fail hm _ _
          | succ k =>
            have hzero : π.lift 0 ≠ 0 := by simp [hk]
            have hnone := hm.active.getAt?_added hm.stores hzero "this"
            rw [← hm.unfolded, hk, Nat.succ_sub_one] at hnone
            dsimp only
            rw [hnone]
            exact mirrored_fail hm _ _
        | succ d =>
          have hthis := hm.active.receiver? hm.stores d
          obtain ⟨k, hk⟩ := Nat.exists_eq_succ_of_ne_zero (π.lift_succ_ne_zero d)
          rw [← hm.direct, ← hm.unfolded, hk, Nat.succ_sub_one] at hthis
          rw [hk]
          dsimp only
          generalize m.store.getAt? m.active d "this" = receiver,
            m'.store.getAt? m'.active k "this" = receiver' at hthis ⊢
          cases hthis with
          | none => exact mirrored_fail hm _ _
          | some hthis =>
            cases hthis with
            | instanceRef hi => exact mirrored_boundMethod hm hc (.instanceRef hi) name
            | _ => exact mirrored_fail hm _ _
      | _ => exact mirrored_fail hm _ _

/-- The methods of a class are mirrored one by one. -/
theorem mirrored_newMethods {frame frame' : FrameId} {decls decls' : List FunctionDecl}
    (hm : m.Mirrors W S π m') (hπ : π'.Declares) (hframe : π'.Aligned W S frame frame')
    (hdecls : FunctionDecl.AllUnfold W.Lies (.shared :: π') decls decls')
    (hspelled : FunctionDecl.AllSpelled Token.IsName decls') :
    Mirrored W S π (newMethods frame decls) (newMethods frame' decls') m m'
      fun S' => List.Forall₂ (Closure.Mirrors W S' [.shared]) := by
  induction decls generalizing decls' S m m' with
  | nil =>
    cases hdecls
    exact .pure hm .nil
  | cons decl rest ih =>
    obtain _ | ⟨hdecl, hrest⟩ := hdecls
    rw [newMethods, newMethods, hdecl.name]
    refine (mirrored_newClosure [.shared] hm hπ hframe hdecl hspelled.1 _).bind ?_
    rintro S₁ f f' m₁ m₁' - hlater₁ hf
    refine (ih hlater₁.mirrors (hframe.mono hlater₁.seating) hrest hspelled.2).bind ?_
    rintro S₂ fs fs' m₂ m₂' - hlater₂ hfs
    exact .pure hlater₂.mirrors (.cons (hf.mono hlater₂.seating) hfs)

/-- The frame for the methods of a class. -/
theorem mirrored_methodFrame {parent parent' : Option Class} {frame frame' : FrameId}
    (hm : m.Mirrors W S π m') (hπ : π'.Declares) (hframe : π'.Aligned W S frame frame')
    (hparent : Option.Rel (Class.Mirrors W S) parent parent') :
    Mirrored W S π (methodFrame parent frame) (methodFrame parent' frame') m m' fun S' g g' =>
      Layers.Aligned W S' (if parent.isSome then .shared :: π' else π') g g' := by
  cases hparent with
  | none => exact .pure hm hframe
  | some hc => exact mirrored_newFrame_single hm hframe hπ "parent" (.classRef hc)

/-- What is named as a parent is a class with nodes and without, or in neither case. -/
theorem mirrored_parentClass {parent : Option Reference} (hm : m.Mirrors W S π m')
    (hparent : ∀ id ∈ (parent.map Reference.id).toList, W.Lies π id) :
    Mirrored W S π (parentClass parent) (parentClass parent) m m' fun S' c c' =>
      Option.Rel (Class.Mirrors W S') c c' ∧ c.isSome = parent.isSome := by
  cases parent with
  | none => exact .pure hm ⟨.none, rfl⟩
  | some ref =>
    refine (mirrored_lookUp hm (hparent ref.id (by simp))).bind ?_
    rintro S' v v' m₁ m₁' - hlater hv
    cases hv with
    | classRef hc => exact .pure hlater.mirrors ⟨.some hc, rfl⟩
    | _ => exact mirrored_fail hlater.mirrors _ _

theorem mirrored_declareClass {parent : Option Reference} {methods methods' : List FunctionDecl}
    (hm : m.Mirrors W S π m') (hπ : π.Declares) (hname : name.IsName)
    (hparent : ∀ id ∈ (parent.map Reference.id).toList, W.Lies π id)
    (hmethods : FunctionDecl.AllUnfold W.Lies (.ofMethods parent π) methods methods')
    (hspelled : FunctionDecl.AllSpelled Token.IsName methods') :
    Mirrored W S π (declareClass name parent methods) (declareClass name parent methods') m m'
      fun _ _ _ => True := by
  unfold declareClass
  refine (mirrored_parentClass hm hparent).bind ?_
  rintro S₁ c c' m₁ m₁' - hlater₁ ⟨hc, hsome⟩
  -- the name is bound before there are any methods
  refine (mirrored_define hlater₁.mirrors hπ hname .null).bind ?_
  rintro S₂ _ _ m₂ m₂' hdefine hlater₂ -
  have hactive := hlater₂.mirrors.active
  have hlt := (hactive.lt hlater₂.mirrors.stores).1
  have hbound : (S₂.direct.binding? m₂.active name.lexeme).isSome := by
    rw [← hlater₂.mirrors.direct]
    cases hdefine
    have hlt₁ := (hlater₁.mirrors.active.lt hlater₁.mirrors.stores).1
    rw [← hlater₁.mirrors.direct] at hlt₁
    simp [Store.binding?_define_same hlt₁]
  refine Mirrored.get_bind ?_
  refine (mirrored_methodFrame hlater₂.mirrors hπ hactive
    (hc.imp fun _ _ => .mono hlater₂.seating)).bind ?_
  rintro S₃ frame frame' m₃ m₃' - hlater₃ hframe
  have hmethods₃ : ∃ π' : Layers, π'.Declares ∧ π'.Aligned W S₃ frame frame' ∧
      FunctionDecl.AllUnfold W.Lies (.shared :: π') methods methods' := by
    rw [hsome] at hframe
    cases parent with
    | none => exact ⟨π, hπ, hframe, hmethods⟩
    | some ref => exact ⟨.shared :: π, trivial, hframe, hmethods⟩
  obtain ⟨π', hπ', hframe, hmethods⟩ := hmethods₃
  refine (mirrored_newMethods hlater₃.mirrors hπ' hframe hmethods hspelled).bind ?_
  rintro S₄ fs fs' m₄ m₄' - hlater₄ hfs
  refine (mirrored_newIdentity hlater₄.mirrors).bind ?_
  rintro S₅ _ identity m₅ m₅' - hlater₅ rfl
  refine Mirrored.get_bind ?_
  have hlater := hlater₃.trans (hlater₄.trans hlater₅)
  have hbound₅ := hlater.seating.direct.bound _ _ hbound
  have hactive₅ := hactive.mono hlater.seating
  have hlt₅ := (hactive₅.lt hlater₅.mirrors.stores).1
  have hseat₅ := hactive₅.seat hlater₅.mirrors.stores hπ
  have hbound₅' : (S₅.unfolded.binding? m₂'.active name.lexeme).isSome := by
    have hbinding := hlater₅.mirrors.stores.bindings m₂.active hlt₅ name.lexeme
    rw [← hseat₅] at hbinding
    generalize S₅.direct.binding? m₂.active name.lexeme = v,
      S₅.unfolded.binding? m₂'.active name.lexeme = v' at hbinding hbound₅ ⊢
    cases hbinding with
    | none => exact hbound₅
    | some _ => rfl
  rw [← hlater₅.mirrors.direct] at hbound₅
  rw [← hlater₅.mirrors.unfolded] at hbound₅'
  rw [Store.holder?_of_bound hbound₅, Store.holder?_of_bound hbound₅']
  refine mirrored_write hlater₅.mirrors (.some ⟨hlt₅, hseat₅⟩) hname
    (.classRef (.extend ?_ ⟨rfl, rfl, ?_⟩))
  · exact hc.imp fun _ _ hparent => Class.Mirrors.mono (hlater₂.trans hlater).seating hparent
  · exact hfs.imp fun _ _ hf => hf.mono hlater₅.seating

end Action

end Treewalk
