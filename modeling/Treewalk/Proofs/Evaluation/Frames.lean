import Treewalk.Proofs.Resolution.Sites
import Treewalk.Store

/-! Frames and scopes. The frames around a point of a running program fit the scopes that
resolution found around it: one frame for each scope, made for what the scope was opened for, and
every declared name is bound in its frame. -/

namespace Treewalk

/-- The frames from `f` outward. -/
def Store.chain (s : Store) (f : FrameId) : List FrameId :=
  match _h : s.enclosing? f with
  | some p => f :: s.chain p
  | none => [f]
termination_by f
decreasing_by exact Store.lt_of_enclosing? _h

theorem Store.chain_of_enclosing? {s : Store} {f p : FrameId} (h : s.enclosing? f = some p) :
    s.chain f = f :: s.chain p := by
  rw [Store.chain]
  split
  · next p' h' => rw [Option.some.inj (h.symm.trans h')]
  · next h' => cases h.symm.trans h'

theorem Store.chain_of_outermost {s : Store} {f : FrameId} (h : s.enclosing? f = none) :
    s.chain f = [f] := by
  rw [Store.chain]
  split
  · next p h' => cases h.symm.trans h'
  · rfl

/-- What stays fixed while a program runs: the programs accepted so far, the distances of their
occurrences, the global frame, and which frame was made for what. -/
structure World where
  programs : List Program
  distances : Distances
  globals : FrameId
  made : FrameId → Opening → Prop

/-- A later world: more programs, and more frames made. -/
structure World.Extends (W W' : World) : Prop where
  programs : ∀ p ∈ W.programs, p ∈ W'.programs
  globals : W'.globals = W.globals
  made : ∀ f o, W.made f o → W'.made f o

/-- From one store to the next, frames keep their place and the names that they bind. -/
structure Store.Grows (s s' : Store) : Prop where
  size : s.frames.size ≤ s'.frames.size
  enclosing : ∀ f < s.frames.size, s'.enclosing? f = s.enclosing? f
  bound : ∀ f name, (s.binding? f name).isSome → (s'.binding? f name).isSome

/-- Where one name is bound, nothing else is found. -/
theorem Bindings.eq_of_single {word name : String} {v w : Value}
    (h : ((∅ : Bindings).insert word w)[name]? = some v) : name = word ∧ v = w := by
  rw [Std.TreeMap.getElem?_insert] at h
  split at h
  · next heq =>
    cases h
    exact ⟨(Std.LawfulEqCmp.compare_eq_iff_eq.mp heq).symm, rfl⟩
  · simp at h

namespace Store

variable {s s' s'' : Store} {f g p : FrameId} {name other : String} {v : Value}

theorem Grows.refl (s : Store) : s.Grows s := ⟨Nat.le_refl _, fun _ _ => rfl, fun _ _ => id⟩

theorem Grows.trans (h : s.Grows s') (h' : s'.Grows s'') : s.Grows s'' where
  size := Nat.le_trans h.size h'.size
  enclosing f hf := by rw [h'.enclosing f (Nat.lt_of_lt_of_le hf h.size), h.enclosing f hf]
  bound f name hbound := h'.bound f name (h.bound f name hbound)

theorem lt_size_of_enclosing? (h : s.enclosing? f = some p) : f < s.frames.size := by
  unfold enclosing? at h
  by_contra hf
  simp [Array.getElem?_eq_none (Nat.le_of_not_lt hf)] at h

theorem lt_size_of_binding? (h : s.binding? f name = some v) : f < s.frames.size := by
  unfold binding? at h
  by_contra hf
  simp [Array.getElem?_eq_none (Nat.le_of_not_lt hf)] at h

theorem lt_size_of_field? {object : Identity} (h : s.field? object name = some v) :
    object < s.fields.size := by
  unfold field? at h
  by_contra hlt
  simp [Array.getElem?_eq_none (Nat.le_of_not_lt hlt)] at h

@[simp] theorem size_define (s : Store) (f : FrameId) (name : String) (v : Value) :
    (s.define f name v).frames.size = s.frames.size := by
  simp [define]

@[simp] theorem fieldsSize_addObject (s : Store) :
    s.addObject.2.fields.size = s.fields.size + 1 := by
  simp [addObject]

/-- A frame binds a name after an assignment if it bound it before, or if the name was assigned
there. -/
theorem binding?_define (s : Store) (f g : FrameId) (name other : String) (v : Value) :
    (s.define f name v).binding? g other =
      if f = g ∧ name = other ∧ f < s.frames.size then some v else s.binding? g other := by
  by_cases h : f = g ∧ name = other
  · obtain ⟨rfl, rfl⟩ := h
    by_cases hf : f < s.frames.size
    · rw [if_pos ⟨rfl, rfl, hf⟩, binding?_define_same hf]
    · rw [if_neg (fun h => hf h.2.2)]
      simp [binding?, define, Array.getElem?_modify, Array.getElem?_eq_none (Nat.le_of_not_lt hf)]
  · rw [if_neg (fun h' => h ⟨h'.1, h'.2.1⟩), binding?_define_ne]
    by_cases hf : f = g
    · exact .inr fun hn => h ⟨hf, hn⟩
    · exact .inl hf

/-- A field has a value after it was written to if it had one before, or if it was the one. -/
theorem field?_setField (s : Store) (object object' : Identity) (name other : String) (v : Value) :
    (s.setField object name v).field? object' other =
      if object = object' ∧ name = other ∧ object < s.fields.size then some v
      else s.field? object' other := by
  simp only [setField, field?, Array.getElem?_modify]
  by_cases hobject : object = object'
  · subst hobject
    by_cases hlt : object < s.fields.size
    · rw [Array.getElem?_eq_getElem hlt]
      simp [Std.TreeMap.getElem?_insert, hlt]
    · simp [hlt]
  · simp [hobject]

/-- A frame that binds the name is the nearest one that does. -/
theorem holder?_of_bound (h : (s.binding? f name).isSome) : s.holder? f name = some f := by
  rw [holder?, if_pos h]

theorem holder?_of_enclosing? (hunbound : ¬(s.binding? f name).isSome)
    (hp : s.enclosing? f = some p) : s.holder? f name = s.holder? p name := by
  rw [holder?, if_neg hunbound]
  split
  · next p' hp' => rw [Option.some.inj (hp.symm.trans hp')]
  · next hnone => cases hp.symm.trans hnone

theorem holder?_of_outermost (h : s.enclosing? f = none) (name : String) :
    s.holder? f name = if (s.binding? f name).isSome then some f else none := by
  rw [holder?]
  split
  · rfl
  · split
    · next p hp => cases h.symm.trans hp
    · rfl

theorem get?_of_outermost (h : s.enclosing? f = none) (name : String) :
    s.get? f name = s.binding? f name := by
  rw [get?, holder?_of_outermost h]
  cases hbound : s.binding? f name with
  | none => rfl
  | some v => exact hbound

section
variable {d : Nat}

/-- One step out, and the others from there. -/
theorem ancestor?_step (s : Store) (f : FrameId) (d : Nat) :
    s.ancestor? f (d + 1) = (s.enclosing? f).bind (s.ancestor? · d) := by
  rw [ancestor?]
  cases s.enclosing? f <;> rfl

theorem ancestor?_zero (hf : f < s.frames.size) : s.ancestor? f 0 = some f := if_pos hf

theorem ancestor?_succ (hp : s.enclosing? f = some p) (d : Nat) :
    s.ancestor? f (d + 1) = s.ancestor? p d := by
  rw [ancestor?_step, hp, Option.bind_some]

theorem ancestor?_outermost (hf : s.enclosing? f = none) (d : Nat) :
    s.ancestor? f (d + 1) = none := by
  rw [ancestor?_step, hf, Option.bind_none]

theorem lt_size_of_ancestor? (h : s.ancestor? f d = some g) : g < s.frames.size := by
  induction d generalizing f with
  | zero =>
    obtain ⟨hf, ⟨⟩⟩ := Option.ite_none_right_eq_some.mp h
    exact hf
  | succ d ih =>
    rw [ancestor?_step] at h
    obtain ⟨p, -, hp⟩ := Option.bind_eq_some_iff.mp h
    exact ih hp

theorem ancestor?_add (h : s.ancestor? f d = some g) (e : Nat) :
    s.ancestor? f (d + e) = s.ancestor? g e := by
  induction d generalizing f with
  | zero =>
    obtain ⟨-, ⟨⟩⟩ := Option.ite_none_right_eq_some.mp h
    rw [Nat.zero_add]
  | succ d ih =>
    rw [ancestor?_step] at h
    obtain ⟨p, hp, hrest⟩ := Option.bind_eq_some_iff.mp h
    rw [Nat.succ_add, ancestor?_succ hp, ih hrest]

end

theorem grows_define (s : Store) (f : FrameId) (name : String) (v : Value) :
    s.Grows (s.define f name v) where
  size := by simp
  enclosing g _ := s.enclosing?_define f g name v
  bound g other hbound := by
    rw [binding?_define]
    split
    · rfl
    · exact hbound

theorem enclosing?_addFrame_of_lt {bindings : Bindings} {around : Option FrameId}
    (h : f < s.frames.size) : (s.addFrame bindings around).2.enclosing? f = s.enclosing? f := by
  simp [addFrame, enclosing?, Array.getElem?_push, Nat.ne_of_lt h]

theorem enclosing?_addFrame_self {bindings : Bindings} (h : p < s.frames.size) :
    (s.addFrame bindings (some p)).2.enclosing? s.frames.size = some p := by
  simp [addFrame, enclosing?, h]

theorem binding?_addFrame_of_lt {bindings : Bindings} {around : Option FrameId}
    (h : f < s.frames.size) :
    (s.addFrame bindings around).2.binding? f name = s.binding? f name := by
  simp [addFrame, binding?, Array.getElem?_push, Nat.ne_of_lt h]

theorem binding?_addFrame_self {bindings : Bindings} {around : Option FrameId} :
    (s.addFrame bindings around).2.binding? s.frames.size name = bindings[name]? := by
  simp [addFrame, binding?]

theorem grows_addFrame (s : Store) (bindings : Bindings) (around : Option FrameId) :
    s.Grows (s.addFrame bindings around).2 where
  size := by simp [addFrame]
  enclosing f hf := enclosing?_addFrame_of_lt hf
  bound f name hbound := by
    obtain ⟨v, hv⟩ := Option.isSome_iff_exists.mp hbound
    rwa [binding?_addFrame_of_lt (lt_size_of_binding? hv)]

theorem grows_addObject (s : Store) : s.Grows s.addObject.2 :=
  ⟨Nat.le_refl _, fun _ _ => rfl, fun _ _ => id⟩

theorem grows_setField (s : Store) (object : Identity) (name : String) (v : Value) :
    s.Grows (s.setField object name v) :=
  ⟨Nat.le_refl _, fun _ _ => rfl, fun _ _ => id⟩

end Store

/-- A scope that is opened for one name declares that one alone. -/
theorem eq_of_contains_single {name other : String}
    (h : ((∅ : Scope).insert name true).contains other) : other = name := by
  rw [Std.TreeMap.contains_insert, Std.TreeMap.contains_emptyc, Bool.or_false] at h
  exact (Std.LawfulEqCmp.compare_eq_iff_eq.mp (eq_of_beq h)).symm

/-- The frames from `f` outward fit the scopes and what they were opened for. In the innermost frame
the name `except` need not be bound yet. -/
inductive Fits (W : World) (s : Store) : Option String → FrameId → List Scope → List Opening → Prop
  | globals {except} : Fits W s except W.globals [] []
  | frame {except f p scope scopes o os} : W.made f o →
    (∀ name : String, scope.contains name → except ≠ some name → (s.binding? f name).isSome) →
    s.enclosing? f = some p → Fits W s none p scopes os →
    Fits W s except f (scope :: scopes) (o :: os)

namespace Fits

variable {W : World} {s s' : Store} {except : Option String} {f : FrameId} {scopes : List Scope}
  {os : List Opening} {ctx : Context} {name : String}

theorem lt_size (h : Fits W s except f scopes os) (hglobals : W.globals < s.frames.size) :
    f < s.frames.size := by
  cases h with
  | globals => exact hglobals
  | frame _ _ henclosing _ => exact Store.lt_size_of_enclosing? henclosing

/-- What fits goes on fitting. -/
theorem mono (h : Fits W s except f scopes os) (hgrows : s.Grows s') :
    Fits W s' except f scopes os := by
  induction h with
  | globals => exact .globals
  | frame hmade hbound henclosing _ ih =>
    refine .frame hmade (fun name hname hne => hgrows.bound _ _ (hbound name hname hne)) ?_ ih
    rw [hgrows.enclosing _ (Store.lt_size_of_enclosing? henclosing), henclosing]

theorem extend {W' : World} (h : Fits W s except f scopes os) (hW : W.Extends W') :
    Fits W' s except f scopes os := by
  induction h with
  | globals => exact hW.globals ▸ .globals
  | frame hmade hbound henclosing _ ih =>
    exact .frame (hW.made _ _ hmade) hbound henclosing ih

/-- The innermost scope takes up names that the frame binds, or that it need not bind. -/
theorem withInnermost {except' : Option String} {inner inner' : Scope} {outer : List Scope}
    (h : Fits W s except f (inner :: outer) os)
    (hnames : ∀ name : String, inner'.contains name → except' ≠ some name →
      (inner.contains name ∧ except ≠ some name) ∨ (s.binding? f name).isSome) :
    Fits W s except' f (inner' :: outer) os := by
  cases h with
  | frame hmade hbound henclosing hrest =>
    refine .frame hmade (fun name hname hne => ?_) henclosing hrest
    obtain ⟨hname, hne⟩ | hbound' := hnames name hname hne
    · exact hbound name hname hne
    · exact hbound'

theorem define (h : Fits W s except f ctx.scopes os) (hexcept : except = none ∨ except = some name)
    (hbound : (s.binding? f name).isSome) : Fits W s none f (ctx.define name).scopes os := by
  obtain ⟨scopes, kind, classContext⟩ := ctx
  cases scopes with
  | nil => cases h; exact .globals
  | cons inner outer =>
    refine h.withInnermost fun other hother _ => ?_
    by_cases hname : name = other
    · exact .inr (hname ▸ hbound)
    · refine .inl ⟨by simpa [hname] using hother, ?_⟩
      obtain rfl | rfl := hexcept <;> simp [hname]

/-- A name under way need not be bound. -/
theorem declare (h : Fits W s none f ctx.scopes os) :
    Fits W s (some name) f (ctx.declare name).scopes os := by
  obtain ⟨scopes, kind, classContext⟩ := ctx
  cases scopes with
  | nil => cases h; exact .globals
  | cons inner outer =>
    refine h.withInnermost fun other hother hne => .inl ⟨?_, by simp⟩
    have hname : name ≠ other := fun heq => hne (heq ▸ rfl)
    simpa [hname] using hother

theorem defineLater (h : Fits W s none f ctx.scopes os) :
    Fits W s (some name) f (ctx.define name).scopes os := by
  obtain ⟨scopes, kind, classContext⟩ := ctx
  cases scopes with
  | nil => cases h; exact .globals
  | cons inner outer =>
    refine h.withInnermost fun other hother hne => .inl ⟨?_, by simp⟩
    have hname : name ≠ other := fun heq => hne (heq ▸ rfl)
    simpa [hname] using hother

/-- Each scope has its frame, made for the same thing, which binds what the scope declares. -/
theorem frame_of_scope {d : Nat} {scope : Scope} (h : Fits W s except f scopes os)
    (hscope : scopes[d]? = some scope) :
    ∃ frame o, s.ancestor? f d = some frame ∧ os[d]? = some o ∧ W.made frame o ∧
      ∀ name : String, scope.contains name →
        (s.binding? frame name).isSome ∨ d = 0 ∧ except = some name := by
  induction h generalizing d with
  | globals => cases hscope
  | @frame except f p inner outer o os hmade hbound henclosing _ ih =>
    cases d with
    | zero =>
      cases hscope
      refine ⟨f, o, ?_, rfl, hmade, fun name hname => ?_⟩
      · simp [Store.ancestor?, Store.lt_size_of_enclosing? henclosing]
      · by_cases hne : except = some name
        · exact .inr ⟨rfl, hne⟩
        · exact .inl (hbound name hname hne)
    | succ d =>
      obtain ⟨frame, o', hancestor, ho, hmade', hbinding⟩ := ih hscope
      refine ⟨frame, o', ?_, ho, hmade', fun name hname => ?_⟩
      · simpa [Store.ancestor?, henclosing] using hancestor
      · obtain hbinding | ⟨-, hnone⟩ := hbinding name hname
        · exact .inl hbinding
        · cases hnone

/-- The chain of frames is as long as the stack of scopes, the global frame apart, and each frame
was made for what its scope was opened for. -/
theorem chain (h : Fits W s except f scopes os) (houtermost : s.enclosing? W.globals = none) :
    ∃ frames, s.chain f = frames ++ [W.globals] ∧ frames.length = scopes.length ∧
      List.Forall₂ W.made frames os := by
  induction h with
  | globals => exact ⟨[], Store.chain_of_outermost houtermost, rfl, .nil⟩
  | @frame _ f _ _ _ _ _ hmade _ henclosing _ ih =>
    obtain ⟨frames, hchain, hlength, hfor⟩ := ih
    refine ⟨f :: frames, ?_, by simp [hlength], .cons hmade hfor⟩
    rw [Store.chain_of_enclosing? henclosing, hchain, List.cons_append]

end Fits

end Treewalk
