import Mathlib.Data.List.Forall2
import Treewalk.Machine
import Treewalk.Operator

/-! Values that correspond. Two runs may hold different functions where a program cannot tell them
apart; values correspond if they differ in nothing else. -/

namespace Treewalk

/-- Functions that are related have the same identity, name and number of parameters. -/
structure Closure.Indistinct (R : Closure → Closure → Prop) : Prop where
  identity : ∀ {f f'}, R f f' → f'.identity = f.identity
  name : ∀ {f f'}, R f f' → f'.name = f.name
  arity : ∀ {f f'}, R f f' → f'.arity = f.arity

variable {R R' M M' : Closure → Closure → Prop}

structure ClassBody.Corresponds (M : Closure → Closure → Prop) (body body' : ClassBody) : Prop where
  identity : body'.identity = body.identity
  name : body'.name = body.name
  methods : List.Forall₂ M body.methods body'.methods

structure Class.Corresponds (M : Closure → Closure → Prop) (c c' : Class) : Prop where
  own : c.own.Corresponds M c'.own
  ancestors : List.Forall₂ (ClassBody.Corresponds M) c.ancestors c'.ancestors

/-- The values are the same but for functions, which `R` relates, and for methods of classes, which
`M` relates. -/
inductive Value.Corresponds (R M : Closure → Closure → Prop) : Value → Value → Prop
  | number {x} : Corresponds R M (.number x) (.number x)
  | string {s} : Corresponds R M (.string s) (.string s)
  | bool {b} : Corresponds R M (.bool b) (.bool b)
  | null : Corresponds R M .null .null
  | native {f} : Corresponds R M (.native f) (.native f)
  | function {f f'} : R f f' → Corresponds R M (.function f) (.function f')
  | classRef {c c'} : c.Corresponds M c' → Corresponds R M (.classRef c) (.classRef c')
  | instanceRef {identity c c'} : Class.Corresponds M c c' →
    Corresponds R M (.instanceRef ⟨identity, c⟩) (.instanceRef ⟨identity, c'⟩)

section
variable (hM : ∀ f f', M f f' → M' f f')
include hM

theorem ClassBody.Corresponds.mono {body body' : ClassBody} (h : body.Corresponds M body') :
    body.Corresponds M' body' :=
  ⟨h.identity, h.name, h.methods.imp hM⟩

theorem Class.Corresponds.mono {c c' : Class} (h : c.Corresponds M c') : c.Corresponds M' c' :=
  ⟨h.own.mono hM, h.ancestors.imp fun _ _ => .mono hM⟩

theorem Value.Corresponds.mono (hR : ∀ f f', R f f' → R' f f') {v v' : Value}
    (h : v.Corresponds R M v') : v.Corresponds R' M' v' := by
  cases h with
  | function h => exact .function (hR _ _ h)
  | classRef h => exact .classRef (h.mono hM)
  | instanceRef h => exact .instanceRef (h.mono hM)
  | number => exact .number
  | string => exact .string
  | bool => exact .bool
  | null => exact .null
  | native => exact .native

end

section
variable (hM : Closure.Indistinct M)
include hM

/-- Corresponding class bodies have corresponding methods of each name. -/
theorem ClassBody.Corresponds.method? {body body' : ClassBody} (h : body.Corresponds M body')
    (name : String) : Option.Rel M (body.method? name) (body'.method? name) := by
  have hfind {fs fs' : List Closure} (hfs : List.Forall₂ M fs fs') :
      Option.Rel M (fs.find? (·.name == name)) (fs'.find? (·.name == name)) := by
    induction hfs with
    | nil => exact .none
    | cons hf _ ih =>
      rw [List.find?_cons, List.find?_cons, hM.name hf]
      split
      · exact .some hf
      · exact ih
  exact hfind (List.rel_reverse h.methods)

theorem Class.Corresponds.method? {c c' : Class} (h : c.Corresponds M c') (name : String) :
    Option.Rel M (c.method? name) (c'.method? name) := by
  have hfind {bodies bodies' : List ClassBody}
      (hbodies : List.Forall₂ (ClassBody.Corresponds M) bodies bodies') :
      Option.Rel M (bodies.findSome? (·.method? name)) (bodies'.findSome? (·.method? name)) := by
    induction hbodies with
    | nil => exact .none
    | @cons body body' _ _ hbody _ ih =>
      have hmethod := hbody.method? hM name
      rw [List.findSome?_cons, List.findSome?_cons]
      generalize body.method? name = found, body'.method? name = found' at hmethod ⊢
      cases hmethod with
      | none => exact ih
      | some hf => exact .some hf
  exact hfind (.cons h.own h.ancestors)

theorem Class.Corresponds.arity {c c' : Class} (h : c.Corresponds M c') (initializer : String) :
    c'.arity initializer = c.arity initializer := by
  have hmethod := h.method? hM initializer
  unfold Class.arity
  generalize c.method? initializer = found, c'.method? initializer = found' at hmethod ⊢
  cases hmethod with
  | none => rfl
  | some hf => exact hM.arity hf

end

theorem Class.Corresponds.name {c c' : Class} (h : c.Corresponds M c') : c'.name = c.name :=
  h.own.name

/-- Corresponding bodies under corresponding parents make corresponding classes. -/
theorem Class.Corresponds.extend {parent parent' : Option Class} {own own' : ClassBody}
    (hparent : Option.Rel (Class.Corresponds M) parent parent') (hown : own.Corresponds M own') :
    (Class.extend parent own).Corresponds M (Class.extend parent' own') := by
  cases hparent with
  | none => exact ⟨hown, .nil⟩
  | some hc => exact ⟨hown, .cons hc.own hc.ancestors⟩

namespace Value.Corresponds

variable {v v' w w' : Value}

theorem isTruthy (h : v.Corresponds R M v') : v'.isTruthy = v.isTruthy := by
  cases h <;> rfl

theorem decides (h : v.Corresponds R M v') (op : Terminal) : v'.decides op = v.decides op := by
  rw [Value.decides, h.isTruthy, Value.decides]

/-- A constant corresponds to itself. -/
theorem ofLiteral (l : Literal) :
    Value.Corresponds R M (.ofLiteral l) (.ofLiteral l) := by
  cases l with
  | number => exact .number
  | string => exact .string
  | bool => exact .bool
  | null => exact .null

section
variable (hR : Closure.Indistinct R)
include hR

/-- Corresponding values are printed alike. -/
theorem text (h : v.Corresponds R M v') : v'.text = v.text := by
  cases h with
  | function h => rw [Value.text, hR.name h, Value.text]
  | classRef h => rw [Value.text, h.name, Value.text]
  | instanceRef h => rw [Value.text, h.name, Value.text]
  | _ => rfl

theorem equals (h : v.Corresponds R M v') (hw : w.Corresponds R M w') :
    v'.equals w' = v.equals w := by
  cases h with
  | function h =>
    cases hw with
    | function hw => rw [Value.equals, hR.identity h, hR.identity hw, Value.equals]
    | _ => rfl
  | classRef h =>
    cases hw with
    | classRef hw => rw [Value.equals, h.own.identity, hw.own.identity, Value.equals]
    | _ => rfl
  | _ => cases hw <;> rfl

/-- A binary operator gives corresponding values for corresponding ones. -/
theorem binary (h : v.Corresponds R M v') (hw : w.Corresponds R M w') (op : Terminal) :
    v'.binary op w' = v.binary op w ∧ ∀ u, v.binary op w = .ok u → u.Corresponds R M u := by
  refine ⟨?_, fun u hu => ?_⟩
  · unfold Value.binary
    rw [h.equals hR hw]
    cases h <;> cases hw <;> rfl
  · unfold Value.binary Value.arithmetic at hu
    split at hu
    · cases hu; exact .bool
    · cases hu; exact .bool
    · split at hu <;> cases hu
      · exact .number
      · exact .string
    · split at hu
      · split at hu <;> cases hu <;> first | exact .number | exact .bool
      · cases hu

end

/-- A unary operator gives corresponding values for corresponding ones. -/
theorem unary (h : v.Corresponds R M v') (op : Terminal) :
    v'.unary op = v.unary op ∧ ∀ u, v.unary op = .ok u → u.Corresponds R M u := by
  refine ⟨?_, fun u hu => ?_⟩
  · cases op with
    | punct p => cases p <;> cases h <;> rfl
    | _ => rfl
  · unfold Value.unary at hu
    split at hu <;> cases hu
    · exact .bool
    · exact .number

end Value.Corresponds

/-- Parameters that are renamed apart are bound to corresponding arguments. -/
theorem argumentBindings_corresponds {r : Value → Value → Prop} {φ : String → String}
    (hφ : φ.Injective) {params params' : List Token} {args args' : List Value}
    (hparams : List.Forall₂ (fun p p' => p'.lexeme = φ p.lexeme) params params')
    (hargs : List.Forall₂ r args args') (name : String) :
    Option.Rel r (argumentBindings params args)[name]?
      (argumentBindings params' args')[φ name]? := by
  have hfold (b b' : Bindings) (hb : ∀ name : String, Option.Rel r b[name]? b'[φ name]?) :
      Option.Rel r
        ((params.zip args).foldl (fun bs pair => bs.insert pair.1.lexeme pair.2) b)[name]?
        ((params'.zip args').foldl (fun bs pair => bs.insert pair.1.lexeme pair.2) b')[φ name]? := by
    induction hparams generalizing args args' b b' with
    | nil => exact hb name
    | cons hp _ ih =>
      cases hargs with
      | nil => exact hb name
      | cons hv hvs =>
        refine ih hvs _ _ fun other => ?_
        rw [Std.TreeMap.getElem?_insert, Std.TreeMap.getElem?_insert, hp]
        simp only [Std.compare_eq_iff_eq, hφ.eq_iff]
        split
        · exact .some hv
        · exact hb other
  exact hfold ∅ ∅ fun name => by simp

end Treewalk
