import Treewalk.Machine
import Treewalk.Operator
import Treewalk.Proofs.Evaluation.Frames

/-! Sound values, stores and machines. A function is sound if resolution came to its declaration and
the frames around it fit the scopes found there; a store is sound if all values in it are, and if
`this` stands for an instance and `parent` for a class wherever they are bound. -/

namespace Treewalk

/-- A function lies in frames that fit the scopes of its declaration. -/
def Closure.Sound (W : World) (s : Store) (f : Closure) : Prop :=
  ∃ p ∈ W.programs, ∃ kind ctx os, Visits p (.function kind f.decl) ctx os ∧
    (f.isInitializer → kind ≠ .function) ∧ Fits W s none f.frame ctx.scopes os

/-- A method of a class lies in frames that fit the scopes of its declaration without the innermost
one, which is there for the receiver. -/
def Closure.SoundMethod (W : World) (s : Store) (f : Closure) : Prop :=
  ∃ p ∈ W.programs, ∃ kind ctx methods os scope scopes,
    Visits p (.function kind f.decl) ctx (.receiver methods :: os) ∧ kind ≠ .function ∧
      f.decl ∈ methods ∧ ctx.scopes = scope :: scopes ∧
      (∀ name : String, scope.contains name → name = "this") ∧ Fits W s none f.frame scopes os

/-- All methods of a class, its own and those of its ancestors, are sound. -/
def Class.Sound (W : World) (s : Store) (c : Class) : Prop :=
  ∀ body ∈ c.bodies, ∀ f ∈ body.methods, f.SoundMethod W s

/-- The functions that a value is made of are sound. -/
def Value.Sound (W : World) (s : Store) : Value → Prop
  | .function f => f.Sound W s
  | .classRef c => c.Sound W s
  | .instanceRef i => i.ofClass.Sound W s
  | _ => True

/-- Numbers, strings, truth values and null lead nowhere. -/
def Value.IsPlain : Value → Prop
  | .number _ | .string _ | .bool _ | .null => True
  | _ => False

theorem Value.isPlain_ofLiteral (l : Literal) : (Value.ofLiteral l).IsPlain := by
  cases l <;> trivial

theorem Value.isPlain_of_unary {op : Terminal} {v w : Value} (h : v.unary op = .ok w) : w.IsPlain := by
  unfold Value.unary at h
  split at h <;> cases h <;> trivial

theorem Value.isPlain_of_binary {op : Terminal} {v v' w : Value} (h : v.binary op v' = .ok w) :
    w.IsPlain := by
  unfold Value.binary Value.arithmetic at h
  split at h
  · cases h; trivial
  · cases h; trivial
  · split at h <;> cases h <;> trivial
  · split at h
    · split at h <;> cases h <;> trivial
    · cases h

/-- The method that a class finds is one of its own methods or of those of an ancestor. -/
theorem Class.mem_of_method? {c : Class} {name : String} {f : Closure} (h : c.method? name = some f) :
    ∃ body ∈ c.bodies, f ∈ body.methods := by
  obtain ⟨body, hbody, hfind⟩ := List.exists_of_findSome?_eq_some h
  exact ⟨body, hbody, List.mem_reverse.mp (List.mem_of_find?_eq_some hfind)⟩

/-- A class has its own body and those of its parent. -/
theorem Class.mem_bodies_extend {parent : Option Class} {own body : ClassBody} :
    body ∈ (Class.extend parent own).bodies ↔ body = own ∨ ∃ c ∈ parent, body ∈ c.bodies := by
  cases parent <;> simp [Class.extend, Class.bodies]

section
variable {W : World} {s s' : Store}

theorem Value.IsPlain.sound {v : Value} (h : v.IsPlain) : v.Sound W s := by
  cases v <;> trivial

theorem Closure.Sound.mono {f : Closure} (h : f.Sound W s) (hgrows : s.Grows s') :
    f.Sound W s' := by
  obtain ⟨p, hp, kind, ctx, os, hvisits, hkind, hfits⟩ := h
  exact ⟨p, hp, kind, ctx, os, hvisits, hkind, hfits.mono hgrows⟩

theorem Closure.SoundMethod.mono {f : Closure} (h : f.SoundMethod W s) (hgrows : s.Grows s') :
    f.SoundMethod W s' := by
  obtain ⟨p, hp, kind, ctx, methods, os, scope, scopes, hvisits, hkind, hdecl, hscopes, hscope,
    hfits⟩ := h
  exact ⟨p, hp, kind, ctx, methods, os, scope, scopes, hvisits, hkind, hdecl, hscopes, hscope,
    hfits.mono hgrows⟩

theorem Class.Sound.mono {c : Class} (h : c.Sound W s) (hgrows : s.Grows s') : c.Sound W s' :=
  fun body hbody f hf => (h body hbody f hf).mono hgrows

/-- A sound value goes on being sound. -/
theorem Value.Sound.mono {v : Value} (h : v.Sound W s) (hgrows : s.Grows s') : v.Sound W s' := by
  cases v with
  | function f => exact Closure.Sound.mono h hgrows
  | classRef c => exact Class.Sound.mono h hgrows
  | instanceRef i => exact Class.Sound.mono h hgrows
  | _ => trivial

theorem Class.Sound.method {c : Class} (h : c.Sound W s) {name : String} {f : Closure}
    (hf : c.method? name = some f) : f.SoundMethod W s := by
  obtain ⟨body, hbody, hf⟩ := mem_of_method? hf
  exact h body hbody f hf

/-- A class is sound if its own methods and its parent are. -/
theorem Class.Sound.extend {parent : Option Class} {own : ClassBody}
    (hown : ∀ f ∈ own.methods, f.SoundMethod W s) (hparent : ∀ c ∈ parent, c.Sound W s) :
    (Class.extend parent own).Sound W s := by
  intro body hbody
  obtain rfl | ⟨c, hc, hbody⟩ := mem_bodies_extend.mp hbody
  · exact hown
  · exact hparent c hc body hbody

end

/-- A machine that has run nothing binds the clock and nothing else. -/
theorem Machine.binding?_initial {sink : Sink} {f : FrameId} {name : String} {v : Value}
    (h : (initial sink).store.binding? f name = some v) : name = "Clock" ∧ v = .native clock := by
  obtain rfl : f = 0 := Nat.lt_one_iff.mp (Store.lt_size_of_binding? h)
  exact Bindings.eq_of_single ((Store.binding?_addFrame_self (s := .empty)).symm.trans h)

/-- The values in a store are sound. -/
structure Store.Sound (W : World) (s : Store) : Prop where
  globals : W.globals < s.frames.size
  outermost : s.enclosing? W.globals = none
  values : ∀ f name v, s.binding? f name = some v → v.Sound W s
  receivers : ∀ f v, s.binding? f "this" = some v → ∃ i, v = .instanceRef i
  parents : ∀ f v, s.binding? f "parent" = some v → ∃ c, v = .classRef c
  fields : ∀ object name v, s.field? object name = some v → v.Sound W s

/-- The bindings of a new frame are sound. -/
structure Bindings.Sound (W : World) (s : Store) (b : Bindings) : Prop where
  values : ∀ (name : String) v, b[name]? = some v → v.Sound W s
  receivers : ∀ v, b["this"]? = some v → ∃ i, v = .instanceRef i
  parents : ∀ v, b["parent"]? = some v → ∃ c, v = .classRef c

namespace Store.Sound

variable {W : World} {s : Store} {f : FrameId} {name : String} {v : Value}

theorem define (h : s.Sound W) (hv : v.Sound W (s.define f name v)) (hthis : name ≠ "this")
    (hparent : name ≠ "parent") : (s.define f name v).Sound W where
  globals := by simpa using h.globals
  outermost := by rw [s.enclosing?_define, h.outermost]
  values g other w hw := by
    rw [binding?_define] at hw
    split at hw
    · cases hw; exact hv
    · exact (h.values g other w hw).mono (s.grows_define f name v)
  receivers g w hw := by
    rw [binding?_define_ne (.inr hthis)] at hw
    exact h.receivers g w hw
  parents g w hw := by
    rw [binding?_define_ne (.inr hparent)] at hw
    exact h.parents g w hw
  fields object other w hw := (h.fields object other w hw).mono (s.grows_define f name v)

theorem addFrame (h : s.Sound W) {b : Bindings} (hb : b.Sound W s) (around : Option FrameId) :
    (s.addFrame b around).2.Sound W := by
  have hgrows := s.grows_addFrame b around
  have hbinding (g : FrameId) (other : String) (w : Value)
      (hw : (s.addFrame b around).2.binding? g other = some w) :
      s.binding? g other = some w ∨ b[other]? = some w := by
    have hlt := lt_size_of_binding? hw
    rw [show (s.addFrame b around).2.frames.size = s.frames.size + 1 by simp [Store.addFrame]] at hlt
    obtain hlt | rfl := Nat.lt_succ_iff_lt_or_eq.mp hlt
    · exact .inl (by rwa [binding?_addFrame_of_lt hlt] at hw)
    · exact .inr (by rwa [binding?_addFrame_self] at hw)
  refine ⟨Nat.lt_of_lt_of_le h.globals hgrows.size, ?_, ?_, ?_, ?_, ?_⟩
  · rw [enclosing?_addFrame_of_lt h.globals, h.outermost]
  · intro g other w hw
    obtain hw | hw := hbinding g other w hw
    · exact (h.values g other w hw).mono hgrows
    · exact (hb.values other w hw).mono hgrows
  · intro g w hw
    obtain hw | hw := hbinding g _ w hw
    · exact h.receivers g w hw
    · exact hb.receivers w hw
  · intro g w hw
    obtain hw | hw := hbinding g _ w hw
    · exact h.parents g w hw
    · exact hb.parents w hw
  · exact fun object other w hw => (h.fields object other w hw).mono hgrows

theorem addObject (h : s.Sound W) : s.addObject.2.Sound W where
  globals := h.globals
  outermost := h.outermost
  values f name v hv := (h.values f name v hv).mono s.grows_addObject
  receivers := h.receivers
  parents := h.parents
  fields object name v hv := by
    refine Value.Sound.mono ?_ s.grows_addObject
    simp only [Store.addObject, Store.field?, Array.getElem?_push] at hv
    split at hv
    · simp at hv
    · exact h.fields object name v hv

theorem setField (h : s.Sound W) {object : Identity} (hv : v.Sound W s) :
    (s.setField object name v).Sound W where
  globals := h.globals
  outermost := h.outermost
  values f other w hw := (h.values f other w hw).mono (s.grows_setField object name v)
  receivers := h.receivers
  parents := h.parents
  fields object' other w hw := by
    refine Value.Sound.mono ?_ (s.grows_setField object name v)
    rw [field?_setField] at hw
    split at hw
    · cases hw; exact hv
    · exact h.fields object' other w hw

end Store.Sound

section
variable {W W' : World} {s : Store}

theorem Closure.Sound.extend {f : Closure} (h : f.Sound W s) (hW : W.Extends W') :
    f.Sound W' s := by
  obtain ⟨p, hp, kind, ctx, os, hvisits, hkind, hfits⟩ := h
  exact ⟨p, hW.programs p hp, kind, ctx, os, hvisits, hkind, hfits.extend hW⟩

theorem Closure.SoundMethod.extend {f : Closure} (h : f.SoundMethod W s) (hW : W.Extends W') :
    f.SoundMethod W' s := by
  obtain ⟨p, hp, kind, ctx, methods, os, scope, scopes, hvisits, hkind, hdecl, hscopes, hscope,
    hfits⟩ := h
  exact ⟨p, hW.programs p hp, kind, ctx, methods, os, scope, scopes, hvisits, hkind, hdecl, hscopes,
    hscope, hfits.extend hW⟩

theorem Class.Sound.extendWorld {c : Class} (h : c.Sound W s) (hW : W.Extends W') : c.Sound W' s :=
  fun body hbody f hf => (h body hbody f hf).extend hW

theorem Value.Sound.extend {v : Value} (h : v.Sound W s) (hW : W.Extends W') : v.Sound W' s := by
  cases v with
  | function f => exact Closure.Sound.extend h hW
  | classRef c => exact Class.Sound.extendWorld h hW
  | instanceRef i => exact Class.Sound.extendWorld h hW
  | _ => trivial

/-- What is sound stays so when programs are added. -/
theorem Store.Sound.extend (h : s.Sound W) (hW : W.Extends W') : s.Sound W' where
  globals := hW.globals ▸ h.globals
  outermost := hW.globals ▸ h.outermost
  values f name v hv := (h.values f name v hv).extend hW
  receivers := h.receivers
  parents := h.parents
  fields object name v hv := (h.fields object name v hv).extend hW

end

end Treewalk
