import Treewalk.Machine
import Treewalk.Proofs.Evaluation.Frames
import Treewalk.Proofs.Twins.Values

/-! Twin stores and machines. Two stores are twins if they have the same frames, one around the
other, which hold twins under the same names, or under the renamed ones in a frame of the chosen
scope. -/

namespace Treewalk

variable (G : Disguise) (K : Marks)

/-- What a store holds under a name, the other one holds a twin of. -/
structure Store.Twin (s s' : Store) : Prop where
  size : s'.frames.size = s.frames.size
  enclosing : ∀ f, s'.enclosing? f = s.enclosing? f
  marks : ∀ f p, s.enclosing? f = some p → Inward (K p) (K f)
  bindings : ∀ f name, Option.Rel (Value.Twin G K s.frames.size) (s.binding? f name)
    (s'.binding? f (G.nameIf (K f = some 0) name))
  objects : s'.fields.size = s.fields.size
  fields : ∀ object name,
    Option.Rel (Value.Twin G K s.frames.size) (s.field? object name) (s'.field? object name)

/-- Two machines in the same state but for the disguise. No name outside of all local scopes is
changed. -/
structure Machine.Twin (m m' : Machine) : Prop where
  store : m.store.Twin G K m'.store
  nextIdentity : m'.nextIdentity = m.nextIdentity
  places : ∀ id id' d, G.place id id' d → m.distances[id]? = d ∧ m'.distances[id']? = d
  globals : m'.globals = m.globals
  active : m'.active = m.active
  sink : m'.sink = m.sink
  hostCalls : m'.hostCalls = m.hostCalls
  unmarked : K m.globals = none
  outermost : m.store.enclosing? m.globals = none
  globals_lt : m.globals < m.store.frames.size
  active_lt : m.active < m.store.frames.size

variable {G K}

namespace Store.Twin

variable {s s' : Store} {f g p : FrameId} {d : Nat} {name : String} {v v' : Value}

/-- Frames lie in each other in twin stores alike. -/
theorem ancestor? (h : s.Twin G K s') (f : FrameId) (d : Nat) :
    s'.ancestor? f d = s.ancestor? f d := by
  induction d generalizing f with
  | zero => rw [Store.ancestor?, h.size, Store.ancestor?]
  | succ d ih =>
    rw [Store.ancestor?, h.enclosing, Store.ancestor?]
    cases s.enclosing? f with
    | none => rfl
    | some p => exact ih p

/-- The frame at a distance is one of the chosen scope if the mark says so. -/
theorem mark_ancestor? (h : s.Twin G K s') (hg : s.ancestor? f d = some g) :
    K g = some 0 ↔ K f = some d := by
  induction d generalizing f with
  | zero =>
    rw [Store.ancestor?] at hg
    split at hg <;> cases hg
    rfl
  | succ d ih =>
    rw [Store.ancestor?] at hg
    cases hp : s.enclosing? f with
    | none => simp [hp] at hg
    | some p =>
      rw [hp] at hg
      rw [ih hg]
      obtain hmark | ⟨hnone, hzero⟩ := h.marks f p hp
      · rw [hmark]
        cases K p <;> simp
      · simp [hnone, hzero]

/-- Some frame outward holds twins under the names. -/
theorem getAt? (h : s.Twin G K s') (f : FrameId) (d : Nat) (name : String) :
    Option.Rel (Value.Twin G K s.frames.size) (s.getAt? f d name)
      (s'.getAt? f d (G.nameIf (K f = some d) name)) := by
  unfold Store.getAt?
  rw [h.ancestor?]
  cases hg : s.ancestor? f d with
  | none => exact .none
  | some g =>
    have hmark : (K f = some d) = (K g = some 0) := propext (h.mark_ancestor? hg).symm
    simp only [hmark]
    exact h.bindings g name

/-- `this` and `parent` are never renamed. -/
theorem getAt?_word (h : s.Twin G K s') (f : FrameId) (d : Nat) (word : Keyword) :
    Option.Rel (Value.Twin G K s.frames.size) (s.getAt? f d word.spelling)
      (s'.getAt? f d word.spelling) := by
  have hget := h.getAt? f d word.spelling
  rwa [Disguise.nameIf_spelling] at hget

/-- Twins are written under a name and the renamed one. -/
theorem define (h : s.Twin G K s') (f : FrameId) (name : String)
    (hv : v.Twin G K s.frames.size v') :
    (s.define f name v).Twin G K (s'.define f (G.nameIf (K f = some 0) name) v') where
  size := by simp [h.size]
  enclosing g := by rw [enclosing?_define, enclosing?_define, h.enclosing]
  marks g p := by
    rw [enclosing?_define]
    exact h.marks g p
  bindings g other := by
    rw [binding?_define, binding?_define, h.size, size_define]
    by_cases hg : f = g
    · subst hg
      simp only [Disguise.nameIf_inj]
      split
      · exact .some hv
      · exact h.bindings f other
    · simp only [hg, false_and, if_false]
      exact h.bindings g other
  objects := h.objects
  fields object other := by
    rw [size_define]
    exact h.fields object other

/-- A frame is added, for the chosen scope or for another one. -/
theorem addFrame {b b' : Bindings} {k : Option Nat} (h : s.Twin G K s') (hp : p < s.frames.size)
    (hk : Inward (K p) k)
    (hb : ∀ name : String, Option.Rel (Value.Twin G K s.frames.size) b[name]?
      b'[G.nameIf (k = some 0) name]?) :
    (s.addFrame b (some p)).2.Twin G (Function.update K s.frames.size k)
      (s'.addFrame b' (some p)).2 := by
  have hK : K.Extends s.frames.size (Function.update K s.frames.size k) (s.frames.size + 1) :=
    K.extends_update s.frames.size k
  have hsize (s : Store) (b : Bindings) :
      (s.addFrame b (some p)).2.frames.size = s.frames.size + 1 := by simp [Store.addFrame]
  refine ⟨?_, fun f => ?_, fun f q hq => ?_, fun f name => ?_, h.objects, fun object name => ?_⟩
  · rw [hsize, hsize, h.size]
  · by_cases hf : f < s.frames.size
    · rw [enclosing?_addFrame_of_lt hf, enclosing?_addFrame_of_lt (by rwa [h.size]), h.enclosing]
    · simp only [Store.addFrame, Store.enclosing?, Array.getElem?_push, h.size]
      split
      · rfl
      · rw [Array.getElem?_eq_none (Nat.le_of_not_lt hf),
          Array.getElem?_eq_none (by rw [h.size]; exact Nat.le_of_not_lt hf)]
  · obtain hf | rfl := Nat.lt_succ_iff_lt_or_eq.mp (hsize s b ▸ lt_size_of_enclosing? hq)
    · rw [enclosing?_addFrame_of_lt hf] at hq
      rw [hK.same f hf, hK.same q ((lt_of_enclosing? hq).trans hf)]
      exact h.marks f q hq
    · rw [enclosing?_addFrame_self hp] at hq
      cases hq
      rw [Function.update_self, hK.same p hp]
      exact hk
  · rw [hsize]
    by_cases hf : f < s.frames.size
    · rw [binding?_addFrame_of_lt hf, binding?_addFrame_of_lt (by rwa [h.size]), hK.same f hf]
      exact (h.bindings f name).imp fun _ _ => .mono hK
    · by_cases heq : f = s.frames.size
      · subst heq
        rw [binding?_addFrame_self, Function.update_self, ← h.size, binding?_addFrame_self, h.size]
        exact (hb name).imp fun _ _ => .mono hK
      · have hnone (s : Store) (b : Bindings) (name : String) (hf : s.frames.size < f) :
            (s.addFrame b (some p)).2.binding? f name = none := by
          simp [Store.addFrame, Store.binding?, Array.getElem?_push, Nat.ne_of_gt hf, Nat.le_of_lt hf]
        have hlt : s.frames.size < f := Nat.lt_of_le_of_ne (Nat.le_of_not_lt hf) (Ne.symm heq)
        rw [hnone s b name hlt, hnone s' b' _ (by rwa [h.size])]
        exact .none
  · rw [hsize]
    exact (h.fields object name).imp fun _ _ => .mono hK

theorem addObject (h : s.Twin G K s') : s.addObject.2.Twin G K s'.addObject.2 where
  size := h.size
  enclosing := h.enclosing
  marks := h.marks
  bindings := h.bindings
  objects := by simp [Store.addObject, h.objects]
  fields object name := by
    have hfield := h.fields object name
    unfold Store.field? at hfield
    simp only [Store.addObject, Store.field?, Array.getElem?_push, h.objects]
    split
    · simp
    · exact hfield

theorem setField (h : s.Twin G K s') (object : Identity) (name : String)
    (hv : v.Twin G K s.frames.size v') :
    (s.setField object name v).Twin G K (s'.setField object name v') where
  size := h.size
  enclosing := h.enclosing
  marks := h.marks
  bindings := h.bindings
  objects := by simp [Store.setField, h.objects]
  fields other key := by
    rw [field?_setField, field?_setField, h.objects]
    split
    · exact .some hv
    · exact h.fields other key

/-- Twin stores are twins under a disguise that allows more and changes the same names. -/
theorem within {G' : Disguise} (h : s.Twin G K s') (hG : G.Within G' fun _ => True)
    (hname : G'.name = G.name) : s.Twin G' K s' where
  size := h.size
  enclosing := h.enclosing
  marks := h.marks
  bindings f name := by
    rw [Disguise.nameIf, hname]
    exact (h.bindings f name).imp fun _ _ => .within hG
  objects := h.objects
  fields object name := (h.fields object name).imp fun _ _ => .within hG

end Store.Twin

/-- Frames that show the same under every name show the same. -/
theorem Bindings.toList_map_text {b b' : Bindings}
    (h : ∀ name : String, (b'[name]?).map Value.text = (b[name]?).map Value.text) :
    (b'.toList.map fun binding => (binding.1, binding.2.text)) =
      b.toList.map fun binding => (binding.1, binding.2.text) := by
  have hequiv : (b'.map fun _ v => v.text).Equiv (b.map fun _ v => v.text) :=
    .of_forall_constGet?_eq fun name => by
      rw [Std.TreeMap.getElem?_map, Std.TreeMap.getElem?_map]
      exact h name
  have hlists := hequiv.toList_eq
  rwa [Std.TreeMap.toList_map, Std.TreeMap.toList_map] at hlists

/-- Frames that show the same under every name are displayed alike. -/
theorem Store.bindings_map_text {s s' : Store} {f : FrameId} (hf : f < s.frames.size)
    (hf' : f < s'.frames.size)
    (h : ∀ name, Option.Rel (fun v v' => v'.text = v.text) (s.binding? f name)
      (s'.binding? f name)) :
    (s'.bindings f).map (fun binding => (binding.1, binding.2.text)) =
      (s.bindings f).map fun binding => (binding.1, binding.2.text) := by
  have hlookup (name : String) :
      (s'.binding? f name).map Value.text = (s.binding? f name).map Value.text := by
    have hshown := h name
    generalize s.binding? f name = v, s'.binding? f name = v' at hshown ⊢
    cases hshown with
    | none => rfl
    | some hv => exact congrArg some hv
  simp only [Store.bindings, Store.binding?, Array.getElem?_eq_getElem hf,
    Array.getElem?_eq_getElem hf', Option.map_some, Option.getD_some, Option.bind_some] at hlookup ⊢
  exact Bindings.toList_map_text hlookup

namespace Machine.Twin

variable {m m' : Machine} {ref ref' : Reference}

/-- Distances may be added if those of occurrences that stand for each other are the same. -/
theorem withDistances {G' : Disguise} {D D' : Distances} (h : m.Twin G K m')
    (hG : G.Within G' fun _ => True) (hname : G'.name = G.name)
    (hplaces : ∀ id id' d, G'.place id id' d → D[id]? = d ∧ D'[id']? = d) :
    Machine.Twin G' K { m with distances := D } { m' with distances := D' } :=
  ⟨h.store.within hG hname, h.nextIdentity, hplaces, h.globals, h.active, h.sink, h.hostCalls,
    h.unmarked, h.outermost, h.globals_lt, h.active_lt⟩

/-- The globals are not renamed. -/
theorem global (h : m.Twin G K m') (name : String) :
    Option.Rel (Value.Twin G K m.store.frames.size) (m.store.binding? m.globals name)
      (m'.store.binding? m.globals name) := by
  have hbinding := h.store.bindings m.globals name
  rwa [h.unmarked, decide_eq_false (by simp), Disguise.nameIf_false] at hbinding

/-- The distance of an occurrence is that of the one that stands for it, which has the name that the
frame at this distance gives it. -/
theorem refers (h : m.Twin G K m') (href : G.Refers (K m.active) ref ref') :
    m'.distances[ref'.id]? = m.distances[ref.id]? ∧ ref'.name.lexeme =
      G.nameIf ((K m.active).isSome ∧ m.distances[ref.id]? = K m.active) ref.name.lexeme := by
  obtain ⟨d, hplace, hname⟩ := href
  obtain ⟨rfl, hd'⟩ := h.places _ _ _ hplace
  exact ⟨hd', hname.lexeme⟩

/-- An occurrence without a distance keeps its name. -/
theorem lexeme_of_global (h : m.Twin G K m') (href : G.Refers (K m.active) ref ref')
    (hd : m.distances[ref.id]? = none) : ref'.name.lexeme = ref.name.lexeme := by
  rw [(h.refers href).2, hd]
  cases K m.active <;> simp

/-- An occurrence with a distance has another name if the chosen scope lies there. -/
theorem lexeme_of_distance {d : Nat} (h : m.Twin G K m') (href : G.Refers (K m.active) ref ref')
    (hd : m.distances[ref.id]? = some d) :
    ref'.name.lexeme = G.nameIf (K m.active = some d) ref.name.lexeme := by
  rw [(h.refers href).2, hd]
  cases K m.active <;> simp [eq_comm]

/-- Occurrences of which one stands for the other have twin values. -/
theorem value? (h : m.Twin G K m') (href : G.Refers (K m.active) ref ref') :
    Option.Rel (Value.Twin G K m.store.frames.size) (m.value? ref) (m'.value? ref') := by
  unfold Machine.value?
  rw [(h.refers href).1]
  cases hd : m.distances[ref.id]? with
  | none =>
    dsimp only
    rw [h.lexeme_of_global href hd, h.globals, Store.get?_of_outermost h.outermost,
      Store.get?_of_outermost (by rw [h.store.enclosing, h.outermost])]
    exact h.global _
  | some d =>
    dsimp only
    rw [h.lexeme_of_distance href hd, h.active]
    exact h.store.getAt? m.active d _

/-- Occurrences of which one stands for the other are written to in the same frame, each under the
name that the frame gives it. -/
theorem target? (h : m.Twin G K m') (href : G.Refers (K m.active) ref ref') :
    m'.target? ref' = m.target? ref ∧ ∀ f, m.target? ref = some f →
      ref'.name.lexeme = G.nameIf (K f = some 0) ref.name.lexeme := by
  unfold Machine.target?
  rw [(h.refers href).1]
  cases hd : m.distances[ref.id]? with
  | none =>
    have hbound := h.global ref.name.lexeme
    dsimp only
    rw [h.lexeme_of_global href hd, h.globals, Store.holder?_of_outermost h.outermost,
      Store.holder?_of_outermost (by rw [h.store.enclosing, h.outermost])]
    refine ⟨?_, fun f hf => ?_⟩
    · generalize m.store.binding? m.globals ref.name.lexeme = v,
        m'.store.binding? m.globals ref.name.lexeme = v' at hbound ⊢
      cases hbound <;> rfl
    · split at hf <;> cases hf
      rw [h.unmarked, decide_eq_false (by simp), Disguise.nameIf_false]
  | some d =>
    dsimp only
    refine ⟨by rw [h.active, h.store.ancestor?], fun f hf => ?_⟩
    have hmark : (K m.active = some d) = (K f = some 0) := propext (h.store.mark_ancestor? hf).symm
    rw [h.lexeme_of_distance href hd]
    simp only [hmark]

/-- What is displayed of the globals of twin machines is the same. -/
theorem display (h : m.Twin G K m') :
    (m'.store.bindings m'.globals).map (fun binding => (binding.1, binding.2.text)) =
      (m.store.bindings m.globals).map fun binding => (binding.1, binding.2.text) := by
  have hlt' : m.globals < m'.store.frames.size := by
    rw [h.store.size]
    exact h.globals_lt
  rw [h.globals]
  exact Store.bindings_map_text h.globals_lt hlt' fun name =>
    (h.global name).imp fun _ _ hv => hv.text

end Machine.Twin

end Treewalk
