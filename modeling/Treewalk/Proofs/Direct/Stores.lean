import Mathlib.Logic.Function.Basic
import Treewalk.Proofs.Direct.Frames
import Treewalk.Proofs.Twins.Stores

/-! Stores and machines with nodes and without. What a frame binds with nodes, its seat binds
without them, but for what functions unfold to. -/

namespace Treewalk

/-- What the first store of a seating holds, the second one mirrors. The frames that there were before
are the same in both, frames of added scopes bind nothing, and none of them lies directly around the
frame of a receiver. -/
structure Seating.Mirrors (W : Setting) (S : Seating) : Prop where
  base : W.base ≤ S.direct.frames.size ∧ W.base ≤ S.unfolded.frames.size
  own : ∀ f < W.base, S.seat f = f
  enclosing : ∀ f < W.base, S.unfolded.enclosing? f = S.direct.enclosing? f
  seated : ∀ f < S.direct.frames.size, S.seat f < S.unfolded.frames.size
  injective : ∀ f g, f < S.direct.frames.size → g < S.direct.frames.size → S.seat f = S.seat g →
    f = g
  bindings : ∀ f < S.direct.frames.size, ∀ name,
    Option.Rel (Value.Mirrors W S) (S.direct.binding? f name) (S.unfolded.binding? (S.seat f) name)
  unseated : ∀ f', S.Unseated f' → ∀ name, S.unfolded.binding? f' name = none
  receivers : ∀ f p, S.direct.enclosing? f = some p → (S.direct.binding? f "this").isSome →
    S.unfolded.enclosing? (S.seat f) = some (S.seat p)
  objects : S.unfolded.fields.size = S.direct.fields.size
  fields : ∀ object name, Option.Rel (Value.Mirrors W S) (S.direct.field? object name)
    (S.unfolded.field? object name)

/-- A new frame leaves every other one as it is. -/
theorem Store.binding?_addFrame_of_ne {s : Store} {f : FrameId} {bindings : Bindings}
    {around : Option FrameId} {name : String} (h : f ≠ s.frames.size) :
    (s.addFrame bindings around).2.binding? f name = s.binding? f name := by
  obtain hlt | hgt := Nat.lt_or_gt_of_ne h
  · exact Store.binding?_addFrame_of_lt hlt
  · simp [Store.addFrame, Store.binding?, Array.getElem?_push, h, Nat.le_of_lt hgt]

namespace Layers.Aligned

variable {W : Setting} {S : Seating} {π : Layers} {f f' : FrameId}

theorem lt (h : π.Aligned W S f f') (hS : S.Mirrors W) :
    f < S.direct.frames.size ∧ f' < S.unfolded.frames.size := by
  induction h with
  | base hf => exact ⟨Nat.lt_of_lt_of_le hf hS.base.1, Nat.lt_of_lt_of_le hf hS.base.2⟩
  | shared hf hf' => exact ⟨hf, hf'⟩
  | added hf' _ _ _ ih => exact ⟨ih.1, hf'⟩

/-- Where names are declared, the one frame is the seat of the other. -/
theorem seat (h : π.Aligned W S f f') (hS : S.Mirrors W) (hπ : π.Declares) : f' = S.seat f := by
  cases h with
  | base hf => exact (hS.own f hf).symm
  | shared => rfl
  | added => exact hπ.elim

/-- The frame at a distance is the seat of the one at the distance with nodes. -/
theorem ancestor? (h : π.Aligned W S f f') (hS : S.Mirrors W) (d : Nat) :
    Option.Rel (fun g g' => g < S.direct.frames.size ∧ g' = S.seat g) (S.direct.ancestor? f d)
      (S.unfolded.ancestor? f' (π.lift d)) := by
  induction h generalizing d with
  | @base f hf =>
    rw [Layers.lift]
    induction d generalizing f with
    | zero =>
      have hlt := Nat.lt_of_lt_of_le hf hS.base.1
      rw [Store.ancestor?_zero hlt, Store.ancestor?_zero (Nat.lt_of_lt_of_le hf hS.base.2)]
      exact .some ⟨hlt, (hS.own f hf).symm⟩
    | succ d ih =>
      rw [Store.ancestor?, Store.ancestor?, hS.enclosing f hf]
      cases hp : S.direct.enclosing? f with
      | none => exact .none
      | some p => exact ih ((Store.lt_of_enclosing? hp).trans hf)
  | shared hf hf' hp hp' _ ih =>
    cases d with
    | zero =>
      rw [Layers.lift, Store.ancestor?_zero hf, Store.ancestor?_zero hf']
      exact .some ⟨hf, rfl⟩
    | succ d =>
      rw [Layers.lift, Store.ancestor?_succ hp, Store.ancestor?_succ hp']
      exact ih d
  | added _ _ hp' _ ih =>
    rw [Layers.lift, Store.ancestor?_succ hp']
    exact ih d

theorem getAt? (h : π.Aligned W S f f') (hS : S.Mirrors W) (d : Nat) (name : String) :
    Option.Rel (Value.Mirrors W S) (S.direct.getAt? f d name)
      (S.unfolded.getAt? f' (π.lift d) name) := by
  have hancestor := h.ancestor? hS d
  unfold Store.getAt?
  generalize S.direct.ancestor? f d = g, S.unfolded.ancestor? f' (π.lift d) = g' at hancestor ⊢
  cases hancestor with
  | none => exact .none
  | some hg =>
    obtain ⟨hlt, rfl⟩ := hg
    exact hS.bindings _ hlt name

/-- Nothing is found between a place and the innermost shared scope. -/
theorem getAt?_added (h : π.Aligned W S f f') (hS : S.Mirrors W) (hπ : π.lift 0 ≠ 0)
    (name : String) : S.unfolded.getAt? f' (π.lift 0 - 1) name = none := by
  induction h with
  | base => exact absurd rfl hπ
  | shared => exact absurd rfl hπ
  | @added π f f' p' hf' hnone hp' _ ih =>
    rw [Layers.lift, Nat.add_sub_cancel]
    by_cases hzero : π.lift 0 = 0
    · rw [hzero, Store.getAt?, Store.ancestor?_zero hf']
      exact hS.unseated f' hnone name
    · obtain ⟨k, hk⟩ := Nat.exists_eq_succ_of_ne_zero hzero
      have hrest := ih hzero
      rw [hk, Nat.succ_sub_one, Store.getAt?] at hrest
      rw [hk, Store.getAt?, Store.ancestor?_succ hp']
      exact hrest

/-- The receiver that stands one frame nearer than another one does so with nodes and without. -/
theorem receiver? (h : π.Aligned W S f f') (hS : S.Mirrors W) (d : Nat) :
    Option.Rel (Value.Mirrors W S) (S.direct.getAt? f d "this")
      (S.unfolded.getAt? f' (π.lift (d + 1) - 1) "this") := by
  induction h generalizing d with
  | base hf => exact getAt? (.base hf) hS d "this"
  | @shared π f p p' hf hf' hp hp' hrest ih =>
    rw [Layers.lift, Nat.add_sub_cancel]
    cases d with
    | zero =>
      by_cases hzero : π.lift 0 = 0
      · rw [hzero]
        exact getAt? (.shared hf hf' hp hp' hrest) hS 0 "this"
      · obtain ⟨k, hk⟩ := Nat.exists_eq_succ_of_ne_zero hzero
        have hnone := hrest.getAt?_added hS hzero "this"
        rw [hk, Nat.succ_sub_one, Store.getAt?] at hnone
        rw [hk, Store.getAt?, Store.getAt?, Store.ancestor?_succ hp', hnone,
          Store.ancestor?_zero hf]
        cases hthis : S.direct.binding? f "this" with
        | none => simp [hthis]
        | some v =>
          -- the frame around that of a receiver is a seat
          have hseat := hS.receivers f p hp (by rw [hthis]; rfl)
          cases hrest with
          | added _ hunseated =>
            rw [hp', Option.some.injEq] at hseat
            exact absurd hseat.symm (hunseated p (Nat.lt_trans (Store.lt_of_enclosing? hp) hf))
          | _ => exact absurd rfl hzero
    | succ d =>
      obtain ⟨k, hk⟩ := Nat.exists_eq_succ_of_ne_zero (π.lift_succ_ne_zero d)
      have hrest := ih d
      rw [hk, Nat.succ_sub_one, Store.getAt?, Store.getAt?] at hrest
      rw [hk, Store.getAt?, Store.getAt?, Store.ancestor?_succ hp, Store.ancestor?_succ hp']
      exact hrest
  | @added π f f' p' _ _ hp' _ ih =>
    obtain ⟨k, hk⟩ := Nat.exists_eq_succ_of_ne_zero (π.lift_succ_ne_zero d)
    have hrest := ih d
    rw [hk, Nat.succ_sub_one] at hrest
    rw [Layers.lift, Nat.add_sub_cancel, hk]
    simp only [Store.getAt?, Store.ancestor?_succ hp'] at hrest ⊢
    exact hrest

end Layers.Aligned

namespace Seating

variable {W : Setting} {S : Seating} {f p p' : FrameId} {name : String} {v v' : Value}
  {b b' : Bindings}

/-- A name is bound in a frame and in its seat. -/
def define (S : Seating) (f : FrameId) (name : String) (v v' : Value) : Seating where
  seat := S.seat
  direct := S.direct.define f name v
  unfolded := S.unfolded.define (S.seat f) name v'

/-- A frame is made, and one that is its seat. -/
def addFrame (S : Seating) (b b' : Bindings) (p p' : FrameId) : Seating where
  seat := Function.update S.seat S.direct.frames.size S.unfolded.frames.size
  direct := (S.direct.addFrame b (some p)).2
  unfolded := (S.unfolded.addFrame b' (some p')).2

/-- A frame is made for a scope that is added. -/
def addScope (S : Seating) (p' : FrameId) : Seating where
  seat := S.seat
  direct := S.direct
  unfolded := (S.unfolded.addFrame ∅ (some p')).2

/-- An object is made in both stores. -/
def addObject (S : Seating) : Seating where
  seat := S.seat
  direct := S.direct.addObject.2
  unfolded := S.unfolded.addObject.2

/-- A field is written to in both stores. -/
def setField (S : Seating) (object : Identity) (name : String) (v v' : Value) : Seating where
  seat := S.seat
  direct := S.direct.setField object name v
  unfolded := S.unfolded.setField object name v'

theorem size_addFrame (s : Store) (b : Bindings) (around : Option FrameId) :
    (s.addFrame b around).2.frames.size = s.frames.size + 1 := by
  simp [Store.addFrame]

theorem extends_define : S.Extends (S.define f name v v') :=
  .of_size (S.direct.grows_define f name v) (S.unfolded.grows_define _ name v') rfl
    (Store.size_define ..)

theorem extends_addFrame : S.Extends (S.addFrame b b' p p') where
  direct := S.direct.grows_addFrame b _
  unfolded := S.unfolded.grows_addFrame b' _
  seat _ hf := Function.update_of_ne (Nat.ne_of_lt hf) _ _
  fresh f hf hnew := by
    simp only [addFrame, size_addFrame] at hf ⊢
    rw [Nat.le_antisymm (Nat.le_of_lt_succ hf) hnew, Function.update_self]

theorem extends_addScope : S.Extends (S.addScope p') :=
  .of_size (.refl _) (S.unfolded.grows_addFrame ∅ _) rfl rfl

theorem extends_addObject : S.Extends S.addObject :=
  .of_size S.direct.grows_addObject S.unfolded.grows_addObject rfl rfl

theorem extends_setField {object : Identity} : S.Extends (S.setField object name v v') :=
  .of_size (S.direct.grows_setField object name v) (S.unfolded.grows_setField object name v') rfl rfl

namespace Mirrors

variable (hS : S.Mirrors W)
include hS

theorem define (hf : f < S.direct.frames.size) (hname : name ≠ "this") (hv : v.Mirrors W S v') :
    (S.define f name v v').Mirrors W where
  base := by simpa [Seating.define] using hS.base
  own := hS.own
  enclosing g hg := by
    rw [Seating.define, Store.enclosing?_define, Store.enclosing?_define, hS.enclosing g hg]
  seated g hg := by
    simp only [Seating.define, Store.size_define] at hg ⊢
    exact hS.seated g hg
  injective g g' hg hg' := by
    simp only [Seating.define, Store.size_define] at hg hg' ⊢
    exact hS.injective g g' hg hg'
  bindings g hg other := by
    have hmono {w w' : Value} (hw : w.Mirrors W S w') : w.Mirrors W (S.define f name v v') w' :=
      hw.mono extends_define
    simp only [Seating.define, Store.size_define] at hg
    simp only [Seating.define, Store.binding?_define, hf, hS.seated f hf, and_true]
    by_cases hfg : f = g
    · subst hfg
      by_cases hname : name = other
      · subst hname
        simp only [and_self, if_true]
        exact .some (hmono hv)
      · simp only [hname, and_false, if_false]
        exact (hS.bindings f hf other).imp fun _ _ => hmono
    · have hseat : S.seat f ≠ S.seat g := fun heq => hfg (hS.injective f g hf hg heq)
      simp only [hfg, hseat, false_and, if_false]
      exact (hS.bindings g hg other).imp fun _ _ => hmono
  unseated g hg other := by
    have hg : S.Unseated g := fun g' hg' => hg g' (by rwa [Seating.define, Store.size_define])
    rw [Seating.define, Store.binding?_define, if_neg (fun h => hg f hf h.1)]
    exact hS.unseated g hg other
  receivers g q hq hthis := by
    simp only [Seating.define, Store.enclosing?_define, Store.binding?_define, hname, false_and,
      and_false, if_false] at hq hthis ⊢
    exact hS.receivers g q hq hthis
  objects := hS.objects
  fields object other := (hS.fields object other).imp fun _ _ hw => hw.mono extends_define

/-- Frames are made for the same scope. One for a receiver is made where names are declared. -/
theorem addFrame (hp : p < S.direct.frames.size) (hp' : p' < S.unfolded.frames.size)
    (hb : ∀ name : String, Option.Rel (Value.Mirrors W S) b[name]? b'[name]?)
    (hthis : b["this"]?.isSome → p' = S.seat p) : (S.addFrame b b' p p').Mirrors W := by
  have hS' : S.Extends (S.addFrame b b' p p') := extends_addFrame
  have hcases {f : FrameId} (hf : f < (S.addFrame b b' p p').direct.frames.size) :
      f < S.direct.frames.size ∨ f = S.direct.frames.size := by
    simp only [Seating.addFrame, size_addFrame] at hf
    exact Nat.lt_succ_iff_lt_or_eq.mp hf
  have hnew : (S.addFrame b b' p p').seat S.direct.frames.size = S.unfolded.frames.size :=
    Function.update_self _ _ _
  refine ⟨⟨Nat.le_trans hS.base.1 hS'.direct.size, Nat.le_trans hS.base.2 hS'.unfolded.size⟩,
    fun f hf => ?_, fun f hf => ?_, fun f hf => ?_, fun f g hf hg heq => ?_, fun f hf name => ?_,
    fun f hf name => ?_, fun f q hq hbound => ?_, hS.objects, fun object name => ?_⟩
  · rw [hS'.seat f (Nat.lt_of_lt_of_le hf hS.base.1), hS.own f hf]
  · rw [hS'.unfolded.enclosing f (Nat.lt_of_lt_of_le hf hS.base.2), hS.enclosing f hf,
      hS'.direct.enclosing f (Nat.lt_of_lt_of_le hf hS.base.1)]
  · simp only [Seating.addFrame, size_addFrame]
    obtain hf | rfl := hcases hf
    · rw [Function.update_of_ne (Nat.ne_of_lt hf)]
      exact (hS.seated f hf).trans (Nat.lt_succ_self _)
    · rw [Function.update_self]
      exact Nat.lt_succ_self _
  · obtain hf | rfl := hcases hf
    · obtain hg | rfl := hcases hg
      · rw [hS'.seat f hf, hS'.seat g hg] at heq
        exact hS.injective f g hf hg heq
      · rw [hS'.seat f hf, hnew] at heq
        exact absurd heq (Nat.ne_of_lt (hS.seated f hf))
    · obtain hg | rfl := hcases hg
      · rw [hS'.seat g hg, hnew] at heq
        exact absurd heq.symm (Nat.ne_of_lt (hS.seated g hg))
      · rfl
  · obtain hf | rfl := hcases hf
    · rw [hS'.seat f hf]
      simp only [Seating.addFrame]
      rw [Store.binding?_addFrame_of_lt hf, Store.binding?_addFrame_of_lt (hS.seated f hf)]
      exact (hS.bindings f hf name).imp fun _ _ hv => hv.mono hS'
    · rw [hnew]
      simp only [Seating.addFrame]
      rw [Store.binding?_addFrame_self, Store.binding?_addFrame_self]
      exact (hb name).imp fun _ _ hv => hv.mono hS'
  · have hold : S.Unseated f := fun g hg heq =>
      hf g (Nat.lt_of_lt_of_le hg hS'.direct.size) (by rw [hS'.seat g hg, heq])
    have hne : f ≠ S.unfolded.frames.size := fun heq =>
      hf S.direct.frames.size (by simp only [Seating.addFrame, size_addFrame, Nat.lt_succ_self])
        (by rw [hnew, heq])
    simp only [Seating.addFrame]
    rw [Store.binding?_addFrame_of_ne hne]
    exact hS.unseated f hold name
  · obtain hlt | rfl := hcases (Store.lt_size_of_enclosing? hq)
    · have hlt' := hS.seated f hlt
      rw [hS'.seat f hlt]
      rw [hS'.direct.enclosing f hlt] at hq
      rw [Seating.addFrame, Store.binding?_addFrame_of_lt hlt] at hbound
      rw [hS'.seat q (Nat.lt_trans (Store.lt_of_enclosing? hq) hlt), hS'.unfolded.enclosing _ hlt']
      exact hS.receivers f q hq hbound
    · rw [Seating.addFrame, Store.enclosing?_addFrame_self hp, Option.some.injEq] at hq
      rw [Seating.addFrame, Store.binding?_addFrame_self] at hbound
      rw [hnew, ← hq, hS'.seat p hp, ← hthis hbound]
      exact Store.enclosing?_addFrame_self hp'
  · exact (hS.fields object name).imp fun _ _ hv => hv.mono hS'

theorem addScope : (S.addScope p').Mirrors W where
  base := ⟨hS.base.1, Nat.le_trans hS.base.2 extends_addScope.unfolded.size⟩
  own := hS.own
  enclosing f hf := by
    rw [extends_addScope.unfolded.enclosing f (Nat.lt_of_lt_of_le hf hS.base.2)]
    exact hS.enclosing f hf
  seated f hf := Nat.lt_of_lt_of_le (hS.seated f hf) extends_addScope.unfolded.size
  injective := hS.injective
  bindings f hf name := by
    simp only [Seating.addScope]
    rw [Store.binding?_addFrame_of_lt (hS.seated f hf)]
    exact (hS.bindings f hf name).imp fun _ _ hv => hv.mono extends_addScope
  unseated f hf name := by
    simp only [Seating.addScope]
    by_cases heq : f = S.unfolded.frames.size
    · rw [heq, Store.binding?_addFrame_self]
      simp
    · rw [Store.binding?_addFrame_of_ne heq]
      exact hS.unseated f hf name
  receivers f p hp hthis := by
    have hlt := hS.seated f (Store.lt_size_of_enclosing? hp)
    exact (extends_addScope.unfolded.enclosing _ hlt).trans (hS.receivers f p hp hthis)
  objects := hS.objects
  fields object name := (hS.fields object name).imp fun _ _ hv => hv.mono extends_addScope

theorem addObject : S.addObject.Mirrors W where
  base := hS.base
  own := hS.own
  enclosing := hS.enclosing
  seated := hS.seated
  injective := hS.injective
  bindings f hf name := (hS.bindings f hf name).imp fun _ _ hv => hv.mono extends_addObject
  unseated := hS.unseated
  receivers := hS.receivers
  objects := by simp [Seating.addObject, hS.objects]
  fields object name := by
    have hfield := hS.fields object name
    unfold Store.field? at hfield
    simp only [Seating.addObject, Store.addObject, Store.field?, Array.getElem?_push, hS.objects]
    split
    · simp
    · exact hfield.imp fun _ _ hv => hv.mono extends_addObject

theorem setField (object : Identity) (hv : v.Mirrors W S v') :
    (S.setField object name v v').Mirrors W where
  base := hS.base
  own := hS.own
  enclosing := hS.enclosing
  seated := hS.seated
  injective := hS.injective
  bindings f hf other := (hS.bindings f hf other).imp fun _ _ hw => hw.mono extends_setField
  unseated := hS.unseated
  receivers := hS.receivers
  objects := by simp [Seating.setField, Store.setField, hS.objects]
  fields other key := by
    simp only [Seating.setField]
    rw [Store.field?_setField, Store.field?_setField, hS.objects]
    split
    · exact .some (hv.mono extends_setField)
    · exact (hS.fields other key).imp fun _ _ hw => hw.mono extends_setField

end Mirrors

/-- New frames around which aligned ones lie are aligned. -/
theorem aligned_addFrame {π : Layers} (h : π.Aligned W S p p') (hS : S.Mirrors W) :
    Layers.Aligned W (S.addFrame b b' p p') (.shared :: π) S.direct.frames.size
      S.unfolded.frames.size := by
  obtain ⟨hp, hp'⟩ := h.lt hS
  have hnew : (S.addFrame b b' p p').seat S.direct.frames.size = S.unfolded.frames.size :=
    Function.update_self _ _ _
  rw [← hnew]
  refine .shared ?_ ?_ (Store.enclosing?_addFrame_self hp) ?_ (h.mono extends_addFrame)
  · simp only [addFrame, size_addFrame, Nat.lt_succ_self]
  · rw [hnew]
    simp only [addFrame, size_addFrame, Nat.lt_succ_self]
  · rw [hnew]
    exact Store.enclosing?_addFrame_self hp'

/-- The frame of a scope that is added is aligned with the one around it. -/
theorem aligned_addScope {π : Layers} (h : π.Aligned W S p p') (hS : S.Mirrors W) :
    Layers.Aligned W (S.addScope p') (.added :: π) p S.unfolded.frames.size := by
  refine .added ?_ (fun f hf => Nat.ne_of_lt (hS.seated f hf))
    (Store.enclosing?_addFrame_self (h.lt hS).2) (h.mono extends_addScope)
  simp only [addScope, size_addFrame, Nat.lt_succ_self]

end Seating

/-- The second machine is what the first one is without nodes, `π` being the scopes around the place
at which they are. -/
structure Machine.Mirrors (W : Setting) (S : Seating) (π : Layers) (m m' : Machine) : Prop where
  direct : m.store = S.direct
  unfolded : m'.store = S.unfolded
  stores : S.Mirrors W
  nextIdentity : m'.nextIdentity = m.nextIdentity
  distances : m.distances = W.direct ∧ m'.distances = W.unfolded
  globals : m'.globals = m.globals
  outermost : S.direct.enclosing? m.globals = none
  globals_lt : m.globals < W.base
  active : π.Aligned W S m.active m'.active
  sink : m'.sink = m.sink
  hostCalls : m'.hostCalls = m.hostCalls

namespace Machine.Mirrors

variable {W : Setting} {S : Seating} {π : Layers} {m m' : Machine} {ref : Reference}

theorem global (h : m.Mirrors W S π m') (name : String) :
    Option.Rel (Value.Mirrors W S) (m.store.binding? m.globals name)
      (m'.store.binding? m.globals name) := by
  have hbinding := h.stores.bindings m.globals
    (Nat.lt_of_lt_of_le h.globals_lt h.stores.base.1) name
  rwa [h.stores.own _ h.globals_lt, ← h.direct, ← h.unfolded] at hbinding

theorem outermost' (h : m.Mirrors W S π m') :
    m.store.enclosing? m.globals = none ∧ m'.store.enclosing? m.globals = none := by
  rw [h.direct, h.unfolded, h.stores.enclosing _ h.globals_lt, h.outermost]
  exact ⟨rfl, rfl⟩

/-- An occurrence has the same value with nodes and without. -/
theorem value? (h : m.Mirrors W S π m') (href : W.Lies π ref.id) :
    Option.Rel (Value.Mirrors W S) (m.value? ref) (m'.value? ref) := by
  unfold Machine.value?
  rw [h.distances.1, h.distances.2, href]
  cases W.direct[ref.id]? with
  | none =>
    simp only [Option.map_none]
    rw [h.globals, Store.get?_of_outermost h.outermost'.1, Store.get?_of_outermost h.outermost'.2]
    exact h.global _
  | some d =>
    simp only [Option.map_some]
    rw [h.direct, h.unfolded]
    exact h.active.getAt? h.stores d _

/-- An occurrence is written to in a frame and in its seat. -/
theorem target? (h : m.Mirrors W S π m') (href : W.Lies π ref.id) :
    Option.Rel (fun f f' => f < S.direct.frames.size ∧ f' = S.seat f) (m.target? ref)
      (m'.target? ref) := by
  unfold Machine.target?
  rw [h.distances.1, h.distances.2, href]
  cases W.direct[ref.id]? with
  | none =>
    have hbound := h.global ref.name.lexeme
    simp only [Option.map_none]
    rw [h.globals, Store.holder?_of_outermost h.outermost'.1,
      Store.holder?_of_outermost h.outermost'.2]
    generalize m.store.binding? m.globals ref.name.lexeme = v,
      m'.store.binding? m.globals ref.name.lexeme = v' at hbound ⊢
    cases hbound with
    | none => exact .none
    | some _ =>
      exact .some ⟨Nat.lt_of_lt_of_le h.globals_lt h.stores.base.1,
        (h.stores.own _ h.globals_lt).symm⟩
  | some d =>
    simp only [Option.map_some]
    rw [h.direct, h.unfolded]
    exact h.active.ancestor? h.stores d

/-- What is displayed of the globals is the same with nodes and without. -/
theorem display (h : m.Mirrors W S π m') :
    (m'.store.bindings m'.globals).map (fun binding => (binding.1, binding.2.text)) =
      (m.store.bindings m.globals).map fun binding => (binding.1, binding.2.text) := by
  have hlt : m.globals < m.store.frames.size :=
    h.direct ▸ Nat.lt_of_lt_of_le h.globals_lt h.stores.base.1
  have hlt' : m.globals < m'.store.frames.size :=
    h.unfolded ▸ Nat.lt_of_lt_of_le h.globals_lt h.stores.base.2
  rw [h.globals]
  exact Store.bindings_map_text hlt hlt' fun name =>
    (h.global name).imp fun _ _ hv => hv.text Closure.indistinct_mirrors

end Machine.Mirrors

end Treewalk
