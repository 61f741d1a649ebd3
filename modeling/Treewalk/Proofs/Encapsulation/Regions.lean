import Mathlib.Logic.Relation
import Treewalk.Proofs.Evaluation.Changes
import Treewalk.Proofs.Evaluation.Places

/-! Regions of a store. Whoever has a frame or a value in hand can reach others from it: a frame leads to
the one around it and to what it binds, and a value to the frames and fields that it knows of. A region is
closed if nothing leads out of it. What is found from inside does not depend on what is outside then, and
a change inside leaves everything outside as it is. -/

namespace Treewalk

/-- What someone can have in hand: a frame, or a value. -/
inductive Handle
  | frame (f : FrameId)
  | value (v : Value)

namespace Store

/-- What one has in hand leads to something else in a single step. The bodies of a class are its own and
those of its ancestors. -/
inductive Leads (s : Store) : Handle → Handle → Prop
  | enclosing {f p} : s.enclosing? f = some p → Leads s (.frame f) (.frame p)
  | bound {f name v} : s.binding? f name = some v → Leads s (.frame f) (.value v)
  | closure {f : Closure} : Leads s (.value (.function f)) (.frame f.frame)
  | method {c : Class} {body f} : body ∈ c.bodies → f ∈ body.methods →
    Leads s (.value (.classRef c)) (.value (.function f))
  | ofClass {i : Instance} : Leads s (.value (.instanceRef i)) (.value (.classRef i.ofClass))
  | field {i : Instance} {name v} : s.field? i.identity name = some v →
    Leads s (.value (.instanceRef i)) (.value v)

/-- Some root leads there in any number of steps. -/
def Reachable (s : Store) (roots : List Handle) (x : Handle) : Prop :=
  ∃ root ∈ roots, Relation.ReflTransGen s.Leads root x

end Store

/-- What a host answers leads to no frame and to no instance that the arguments do not lead to. -/
def Host.Discreet (host : Host) : Prop :=
  ∀ turn native args v, host.answer turn native args = .ok v → ∀ s : Store,
    (∀ f, s.Reachable [.value v] (.frame f) → s.Reachable (args.map .value) (.frame f)) ∧
    ∀ i, s.Reachable [.value v] (.value (.instanceRef i)) →
      s.Reachable (args.map .value) (.value (.instanceRef i))

/-- Some of all frames and objects, those that may be made later included. -/
structure Region where
  frame : FrameId → Prop
  object : Identity → Prop

variable {K : Region}

/-- All methods of the class and of its ancestors were declared in the region. -/
def Class.Within (K : Region) (c : Class) : Prop :=
  ∀ body ∈ c.bodies, ∀ f ∈ body.methods, K.frame f.frame

/-- The value leads to nothing outside of the region in a single step. -/
def Value.Within (K : Region) : Value → Prop
  | .function f => K.frame f.frame
  | .classRef c => c.Within K
  | .instanceRef i => K.object i.identity ∧ i.ofClass.Within K
  | _ => True

/-- What is in hand lies in the region. -/
def Handle.Within (K : Region) : Handle → Prop
  | .frame f => K.frame f
  | .value v => v.Within K

/-- The change is made in the region, and to nothing that leads out of it. -/
def Change.Within (K : Region) : Change → Prop
  | .bind f _ v => K.frame f ∧ v.Within K
  | .make _ bindings around => K.frame around ∧ ∀ (name : String) v, bindings[name]? = some v → v.Within K
  | .object => True
  | .field o _ v => K.object o ∧ v.Within K

/-- Nothing leads out of the region, and whatever is made next lies in it. -/
structure Store.Closed (K : Region) (s : Store) : Prop where
  enclosing : ∀ f p, K.frame f → s.enclosing? f = some p → K.frame p
  bound : ∀ f name v, K.frame f → s.binding? f name = some v → v.Within K
  fields : ∀ object name v, K.object object → s.field? object name = some v → v.Within K
  newFrame : ∀ f, s.frames.size ≤ f → K.frame f
  newObject : ∀ object, s.fields.size ≤ object → K.object object

/-- The two stores have as many frames and objects, and those in the region hold the same. -/
structure Store.SameIn (K : Region) (s s' : Store) : Prop where
  framesSize : s'.frames.size = s.frames.size
  fieldsSize : s'.fields.size = s.fields.size
  frames : ∀ f, K.frame f → s'.frames[f]? = s.frames[f]?
  fields : ∀ object, K.object object → s'.fields[object]? = s.fields[object]?

/-- Outside of the region nothing has changed. -/
structure Store.KeepsOutside (K : Region) (s s' : Store) : Prop where
  frames : ∀ f, ¬K.frame f → s'.frames[f]? = s.frames[f]?
  fields : ∀ object, ¬K.object object → s'.fields[object]? = s.fields[object]?

theorem Class.Within.method {c : Class} {f : Closure} {name : String} (h : c.Within K)
    (hf : c.method? name = some f) : K.frame f.frame := by
  obtain ⟨body, hbody, hf⟩ := mem_of_method? hf
  exact h body hbody f hf

/-- A class lies in the region if its own methods and its parent do. -/
theorem Class.Within.extend {parent : Option Class} {own : ClassBody}
    (hown : ∀ f ∈ own.methods, K.frame f.frame) (hparent : ∀ c ∈ parent, c.Within K) :
    (Class.extend parent own).Within K := by
  intro body hbody
  obtain rfl | ⟨c, hc, hbody⟩ := mem_bodies_extend.mp hbody
  · exact hown
  · exact hparent c hc body hbody

theorem Value.IsPlain.within {v : Value} (h : v.IsPlain) : v.Within K := by
  cases v <;> trivial

namespace Store

variable {s s' s'' : Store} {c : Change} {f g p : FrameId} {d : Nat} {name : String} {v : Value}
  {x y : Handle} {roots : List Handle}

theorem KeepsOutside.refl (s : Store) : s.KeepsOutside K s := ⟨fun _ _ => rfl, fun _ _ => rfl⟩

theorem KeepsOutside.trans (h : s.KeepsOutside K s') (h' : s'.KeepsOutside K s'') :
    s.KeepsOutside K s'' :=
  ⟨fun f hf => (h'.frames f hf).trans (h.frames f hf),
    fun object ho => (h'.fields object ho).trans (h.fields object ho)⟩

/-! ### What can be reached -/

theorem Reachable.root (h : x ∈ roots) : s.Reachable roots x := ⟨x, h, .refl⟩

theorem Reachable.step (h : s.Reachable roots x) (hstep : s.Leads x y) : s.Reachable roots y := by
  obtain ⟨root, hroot, hpath⟩ := h
  exact ⟨root, hroot, hpath.tail hstep⟩

/-- From plain values nothing else can be reached. -/
theorem Reachable.eq_of_isPlain (hv : v.IsPlain) (h : s.Reachable [.value v] x) : x = .value v := by
  obtain ⟨root, hroot, hpath⟩ := h
  obtain rfl := List.mem_singleton.mp hroot
  obtain rfl | ⟨y, hstep, -⟩ := hpath.cases_head
  · rfl
  · cases hstep <;> exact hv.elim

/-- Nothing outside of a closed region can be reached from inside. -/
theorem Closed.leads (h : s.Closed K) (hx : x.Within K) (hstep : s.Leads x y) : y.Within K := by
  cases hstep with
  | enclosing hp => exact h.enclosing _ _ hx hp
  | bound hv => exact h.bound _ _ _ hx hv
  | closure => exact hx
  | method hbody hf => exact hx _ hbody _ hf
  | ofClass => exact hx.2
  | field hv => exact h.fields _ _ _ hx.1 hv

theorem Closed.reachable (h : s.Closed K) (hroots : ∀ root ∈ roots, root.Within K)
    (hx : s.Reachable roots x) : x.Within K := by
  obtain ⟨root, hroot, hpath⟩ := hx
  induction hpath with
  | refl => exact hroots root hroot
  | tail _ hstep ih => exact h.leads ih hstep

/-- What a host answers to arguments in a closed region lies in it, too. -/
theorem Closed.answer (h : s.Closed K) {host : Host} (hhost : host.Discreet) {turn : Nat}
    {native : Native} {args : List Value} (hargs : ∀ a ∈ args, a.Within K)
    (hv : host.answer turn native args = .ok v) : v.Within K := by
  obtain ⟨hframes, hinstances⟩ := hhost turn native args v hv s
  have hroots : ∀ root ∈ args.map Handle.value, root.Within K := List.forall_mem_map.mpr hargs
  have hself : s.Reachable [.value v] (.value v) := .root List.mem_cons_self
  cases v with
  | function f => exact h.reachable hroots (hframes _ (hself.step .closure))
  | classRef c =>
    intro body hbody f hf
    exact h.reachable hroots (hframes _ ((hself.step (.method hbody hf)).step .closure))
  | instanceRef i => exact h.reachable hroots (hinstances i hself)
  | _ => trivial

/-- What can be reached from the roots, and whatever is made later. -/
def region (s : Store) (roots : List Handle) : Region where
  frame f := f < s.frames.size → s.Reachable roots (.frame f)
  object o := o < s.fields.size → ∃ c, s.Reachable roots (.value (.instanceRef ⟨o, c⟩))

theorem Reachable.within (h : s.Reachable roots (.value v)) : v.Within (s.region roots) := by
  cases v with
  | function f => exact fun _ => h.step .closure
  | classRef c => exact fun body hbody f hf _ => (h.step (.method hbody hf)).step .closure
  | instanceRef i =>
    exact ⟨fun _ => ⟨i.ofClass, h⟩, fun body hbody f hf _ =>
      ((h.step .ofClass).step (.method hbody hf)).step .closure⟩
  | _ => trivial

/-- The region of what can be reached is closed. -/
theorem closed_region (s : Store) (roots : List Handle) : s.Closed (s.region roots) where
  enclosing _ _ hf hp _ := (hf (lt_size_of_enclosing? hp)).step (.enclosing hp)
  bound _ _ _ hf hv := ((hf (lt_size_of_binding? hv)).step (.bound hv)).within
  fields _ _ _ ho hv := by
    obtain ⟨c, hreachable⟩ := ho (lt_size_of_field? hv)
    exact (hreachable.step (.field hv)).within
  newFrame _ hsize hlt := absurd hlt (Nat.not_lt_of_le hsize)
  newObject _ hsize hlt := absurd hlt (Nat.not_lt_of_le hsize)

/-! ### What is found in stores that are the same in a closed region -/

theorem Closed.ancestor? (hs : s.Closed K) (hf : K.frame f) (hg : s.ancestor? f d = some g) :
    K.frame g := by
  induction d generalizing f with
  | zero =>
    rw [Store.ancestor?] at hg
    split at hg
    · cases hg
      exact hf
    · cases hg
  | succ d ih =>
    rw [Store.ancestor?] at hg
    split at hg
    · next p hp => exact ih (hs.enclosing f p hf hp) hg
    · cases hg

theorem Closed.holder? (hs : s.Closed K) (hf : K.frame f) (hg : s.holder? f name = some g) :
    K.frame g := by
  induction f using Nat.strongRecOn with
  | _ f ih =>
    rw [Store.holder?] at hg
    split at hg
    · cases hg
      exact hf
    · split at hg
      · next p hp => exact ih p (lt_of_enclosing? hp) (hs.enclosing f p hf hp) hg
      · cases hg

theorem Closed.getAt? (hs : s.Closed K) (hf : K.frame f) (hv : s.getAt? f d name = some v) :
    v.Within K := by
  obtain ⟨g, hg, hv⟩ := Option.bind_eq_some_iff.mp hv
  exact hs.bound g name v (hs.ancestor? hf hg) hv

theorem Closed.get? (hs : s.Closed K) (hf : K.frame f) (hv : s.get? f name = some v) : v.Within K := by
  obtain ⟨g, hg, hv⟩ := Option.bind_eq_some_iff.mp hv
  exact hs.bound g name v (hs.holder? hf hg) hv

section
variable (h : s.SameIn K s')
include h

theorem SameIn.binding? (hf : K.frame f) (name : String) : s'.binding? f name = s.binding? f name := by
  rw [Store.binding?, h.frames f hf, Store.binding?]

theorem SameIn.enclosing? (hf : K.frame f) : s'.enclosing? f = s.enclosing? f := by
  rw [Store.enclosing?, h.frames f hf, Store.enclosing?]

theorem SameIn.field? {object : Identity} (ho : K.object object) (name : String) :
    s'.field? object name = s.field? object name := by
  rw [Store.field?, h.fields object ho, Store.field?]

/-- From a frame in the region, the same frames lie outward. -/
theorem SameIn.ancestor? (hs : s.Closed K) (hf : K.frame f) (d : Nat) :
    s'.ancestor? f d = s.ancestor? f d := by
  induction d generalizing f with
  | zero => rw [Store.ancestor?, h.framesSize, Store.ancestor?]
  | succ d ih =>
    rw [Store.ancestor?, h.enclosing? hf, Store.ancestor?]
    cases hp : s.enclosing? f with
    | none => rfl
    | some p => exact ih (hs.enclosing f p hf hp)

/-- From a frame in the region, the same frame outward is the nearest one that binds a name. -/
theorem SameIn.holder? (hs : s.Closed K) (hf : K.frame f) (name : String) :
    s'.holder? f name = s.holder? f name := by
  induction f using Nat.strongRecOn with
  | _ f ih =>
    have hsame := h.binding? hf name
    by_cases hbound : (s.binding? f name).isSome
    · rw [holder?_of_bound (hsame ▸ hbound), holder?_of_bound hbound]
    · cases hp : s.enclosing? f with
      | none =>
        rw [holder?_of_outermost ((h.enclosing? hf).trans hp), holder?_of_outermost hp, hsame]
      | some p =>
        rw [holder?_of_enclosing? (hsame ▸ hbound) ((h.enclosing? hf).trans hp),
          holder?_of_enclosing? hbound hp]
        exact ih p (lt_of_enclosing? hp) (hs.enclosing f p hf hp)

theorem SameIn.getAt? (hs : s.Closed K) (hf : K.frame f) (d : Nat) (name : String) :
    s'.getAt? f d name = s.getAt? f d name := by
  rw [Store.getAt?, h.ancestor? hs hf, Store.getAt?]
  exact Option.bind_congr fun g hg => h.binding? (hs.ancestor? hf hg) name

theorem SameIn.get? (hs : s.Closed K) (hf : K.frame f) (name : String) :
    s'.get? f name = s.get? f name := by
  rw [Store.get?, h.holder? hs hf, Store.get?]
  exact Option.bind_congr fun g hg => h.binding? (hs.holder? hf hg) name

end

/-! ### Changes in a closed region -/

/-- After a change, a frame lies in another one if it did so before or if it was made there. -/
theorem enclosing?_apply (h : (s.apply c).enclosing? f = some p) :
    s.enclosing? f = some p ∨ ∃ names b, c = .make names b p := by
  obtain hlt | ⟨names, b, q, rfl, rfl⟩ := old_or_made (lt_size_of_enclosing? h)
  · exact .inl ((s.grows_apply c).enclosing f hlt ▸ h)
  · obtain rfl : q = p := by
      simpa [Store.apply, addFrame] using (Option.filter_eq_some_iff.mp h).1
    exact .inr ⟨names, b, rfl⟩

/-- After a change, a field has a value if it had it before or if the value was written to it. -/
theorem field?_apply {object : Identity} (h : (s.apply c).field? object name = some v) :
    s.field? object name = some v ∨ c = .field object name v := by
  cases c with
  | bind => exact .inl h
  | make => exact .inl h
  | object =>
    simp only [Store.apply, addObject, Store.field?, Array.getElem?_push] at h
    split at h
    · simp at h
    · exact .inl h
  | field other key w =>
    rw [Store.apply, field?_setField] at h
    split at h
    · next heq =>
      obtain ⟨rfl, rfl, -⟩ := heq
      cases h
      exact .inr rfl
    · exact .inl h

theorem fieldsSize_le_apply (s : Store) (c : Change) : s.fields.size ≤ (s.apply c).fields.size := by
  cases c <;> simp [Store.apply, define, addFrame, addObject, setField]

theorem Closed.apply (h : s.Closed K) (hc : c.Within K) : (s.apply c).Closed K where
  enclosing f p hf hp := by
    obtain hp | ⟨names, b, rfl⟩ := enclosing?_apply hp
    · exact h.enclosing f p hf hp
    · exact hc.1
  bound f name v hf hv := by
    obtain hsame | ⟨w, rfl, hlt⟩ | ⟨names, b, p, rfl, -, hb⟩ := binding?_apply s c f name
    · exact h.bound f name v hf (hsame ▸ hv)
    · rw [Store.apply, binding?_define_same hlt] at hv
      cases hv
      exact hc.2
    · exact hc.2 name v (hb ▸ hv)
  fields o name v ho hv := by
    obtain hv | rfl := field?_apply hv
    · exact h.fields o name v ho hv
    · exact hc.2
  newFrame f hsize := h.newFrame f (Nat.le_trans (s.grows_apply c).size hsize)
  newObject o hsize := h.newObject o (Nat.le_trans (fieldsSize_le_apply s c) hsize)

theorem SameIn.apply (h : s.SameIn K s') (c : Change) : (s.apply c).SameIn K (s'.apply c) := by
  cases c with
  | bind f name v =>
    refine ⟨?_, h.fieldsSize, fun g hg => ?_, h.fields⟩
    · simp [Store.apply, h.framesSize]
    · simp only [Store.apply, define, Array.getElem?_modify, h.frames g hg]
  | make names b p =>
    refine ⟨?_, h.fieldsSize, fun g hg => ?_, h.fields⟩
    · simp [Store.apply, addFrame, h.framesSize]
    · simp only [Store.apply, addFrame, Array.getElem?_push, h.framesSize, h.frames g hg]
  | object =>
    refine ⟨h.framesSize, ?_, h.frames, fun o ho => ?_⟩
    · simp [Store.apply, addObject, h.fieldsSize]
    · simp only [Store.apply, addObject, Array.getElem?_push, h.fieldsSize, h.fields o ho]
  | field object name v =>
    refine ⟨h.framesSize, ?_, h.frames, fun o ho => ?_⟩
    · simp [Store.apply, setField, h.fieldsSize]
    · simp only [Store.apply, setField, Array.getElem?_modify, h.fields o ho]

/-- A change in a closed region leaves everything outside as it is. -/
theorem Closed.keepsOutside (h : s.Closed K) (hc : c.Within K) : s.KeepsOutside K (s.apply c) := by
  cases c with
  | bind f name v =>
    refine ⟨fun g hg => ?_, fun _ _ => rfl⟩
    have hne : f ≠ g := fun heq => hg (heq ▸ hc.1)
    simp [Store.apply, define, Array.getElem?_modify, hne]
  | make names b p =>
    refine ⟨fun g hg => ?_, fun _ _ => rfl⟩
    have hne : g ≠ s.frames.size := fun heq => hg (h.newFrame g (Nat.le_of_eq heq.symm))
    simp [Store.apply, addFrame, Array.getElem?_push, hne]
  | object =>
    refine ⟨fun _ _ => rfl, fun o ho => ?_⟩
    have hne : o ≠ s.fields.size := fun heq => ho (h.newObject o (Nat.le_of_eq heq.symm))
    simp [Store.apply, addObject, Array.getElem?_push, hne]
  | field object name v =>
    refine ⟨fun _ _ => rfl, fun o ho => ?_⟩
    have hne : object ≠ o := fun heq => ho (heq ▸ hc.1)
    simp [Store.apply, setField, Array.getElem?_modify, hne]

end Store

/-- A host that answers with numbers leads nowhere. -/
theorem Host.AnswersNumbers.discreet {host : Host} (h : host.AnswersNumbers) : host.Discreet := by
  intro turn native args v hv s
  obtain ⟨x, rfl⟩ := h turn native args v hv
  have hself {y : Handle} (hy : s.Reachable [.value (.number x)] y) : y = .value (.number x) :=
    hy.eq_of_isPlain trivial
  refine ⟨fun f hf => ?_, fun i hi => ?_⟩
  · cases hself hf
  · cases hself hi

end Treewalk
