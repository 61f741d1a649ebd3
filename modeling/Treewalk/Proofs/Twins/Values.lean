import Mathlib.Logic.Function.Basic
import Treewalk.Proofs.Evaluation.Correspondence
import Treewalk.Proofs.Twins.Likeness

/-! Twin values. The runs of a program and of one like it are told apart only by what the disguise
says: where one holds a value, the other holds a twin of it, whose functions are alike. -/

namespace Treewalk

/-- How far outward from each frame the chosen scope lies, if at all. -/
abbrev Marks := FrameId → Option Nat

variable (G : Disguise) (K : Marks) (n : Nat)

/-- The same function but for the disguise. Its frame is one of the first `n`, and `j` scopes lie
between the frame and the function. -/
structure Closure.Twin (j : Nat) (f f' : Closure) : Prop where
  identity : f'.identity = f.identity
  frame : f'.frame = f.frame
  isInitializer : f'.isInitializer = f.isInitializer
  lt : f.frame < n
  decl : f.decl.Like G ((K f.frame).map (· + j)) f'.decl

structure ClassBody.Twin (body body' : ClassBody) : Prop where
  identity : body'.identity = body.identity
  name : body'.name = body.name
  methods : List.Forall₂ (Closure.Twin G K n 1) body.methods body'.methods

structure Class.Twin (c c' : Class) : Prop where
  own : c.own.Twin G K n c'.own
  ancestors : List.Forall₂ (ClassBody.Twin G K n) c.ancestors c'.ancestors

inductive Value.Twin : Value → Value → Prop
  | number {x} : Twin (.number x) (.number x)
  | string {s} : Twin (.string s) (.string s)
  | bool {b} : Twin (.bool b) (.bool b)
  | null : Twin .null .null
  | native {f} : Twin (.native f) (.native f)
  | function {f f'} : f.Twin G K n 0 f' → Twin (.function f) (.function f')
  | classRef {c c'} : c.Twin G K n c' → Twin (.classRef c) (.classRef c')
  | instanceRef {identity c c'} : Class.Twin G K n c c' →
    Twin (.instanceRef ⟨identity, c⟩) (.instanceRef ⟨identity, c'⟩)

variable {G K n}

theorem Closure.indistinct_twin (j : Nat) : Closure.Indistinct (Closure.Twin G K n j) where
  identity h := h.identity
  name h := Disguise.lexeme_eq h.decl.name
  arity h := h.decl.arity

theorem ClassBody.twin_iff {body body' : ClassBody} :
    body.Twin G K n body' ↔ body.Corresponds (Closure.Twin G K n 1) body' :=
  ⟨fun h => ⟨h.identity, h.name, h.methods⟩, fun h => ⟨h.identity, h.name, h.methods⟩⟩

theorem Class.twin_iff {c c' : Class} :
    c.Twin G K n c' ↔ c.Corresponds (Closure.Twin G K n 1) c' :=
  ⟨fun h => ⟨ClassBody.twin_iff.mp h.own, h.ancestors.imp fun _ _ => ClassBody.twin_iff.mp⟩,
    fun h => ⟨ClassBody.twin_iff.mpr h.own, h.ancestors.imp fun _ _ => ClassBody.twin_iff.mpr⟩⟩

/-- Twins are values that correspond. -/
theorem Value.twin_iff {v v' : Value} :
    v.Twin G K n v' ↔ v.Corresponds (Closure.Twin G K n 0) (Closure.Twin G K n 1) v' := by
  constructor
  · intro h
    cases h with
    | function h => exact .function h
    | classRef h => exact .classRef (Class.twin_iff.mp h)
    | instanceRef h => exact .instanceRef (Class.twin_iff.mp h)
    | number => exact .number
    | string => exact .string
    | bool => exact .bool
    | null => exact .null
    | native => exact .native
  · intro h
    cases h with
    | function h => exact .function h
    | classRef h => exact .classRef (Class.twin_iff.mpr h)
    | instanceRef h => exact .instanceRef (Class.twin_iff.mpr h)
    | number => exact .number
    | string => exact .string
    | bool => exact .bool
    | null => exact .null
    | native => exact .native

/-- More frames are marked, and the marks that there are stay. -/
structure Marks.Extends (K : Marks) (n : Nat) (K' : Marks) (n' : Nat) : Prop where
  le : n ≤ n'
  same : ∀ f < n, K' f = K f

namespace Marks.Extends

variable {K' K'' : Marks} {n' n'' : Nat}

theorem refl (K : Marks) (n : Nat) : K.Extends n K n := ⟨Nat.le_refl n, fun _ _ => rfl⟩

theorem trans (h : K.Extends n K' n') (h' : K'.Extends n' K'' n'') : K.Extends n K'' n'' where
  le := Nat.le_trans h.le h'.le
  same f hf := by rw [h'.same f (Nat.lt_of_lt_of_le hf h.le), h.same f hf]

end Marks.Extends

theorem Marks.extends_update (K : Marks) (n : Nat) (k : Option Nat) :
    K.Extends n (Function.update K n k) (n + 1) :=
  ⟨Nat.le_succ n, fun _ hf => Function.update_of_ne (Nat.ne_of_lt hf) _ _⟩

section
variable {K' : Marks} {n' : Nat} (hK : K.Extends n K' n')
include hK

theorem Closure.Twin.mono {j : Nat} {f f' : Closure} (h : f.Twin G K n j f') :
    f.Twin G K' n' j f' where
  identity := h.identity
  frame := h.frame
  isInitializer := h.isInitializer
  lt := Nat.lt_of_lt_of_le h.lt hK.le
  decl := by
    rw [hK.same f.frame h.lt]
    exact h.decl

theorem Class.Twin.mono {c c' : Class} (h : c.Twin G K n c') : c.Twin G K' n' c' :=
  Class.twin_iff.mpr ((Class.twin_iff.mp h).mono fun _ _ => .mono hK)

/-- Twins go on being twins. -/
theorem Value.Twin.mono {v v' : Value} (h : v.Twin G K n v') : v.Twin G K' n' v' :=
  Value.twin_iff.mpr ((Value.twin_iff.mp h).mono (fun _ _ => .mono hK) fun _ _ => .mono hK)

end

section
variable {G' : Disguise} (hG : G.Within G' fun _ => True)
include hG

theorem Closure.Twin.within {j : Nat} {f f' : Closure} (h : f.Twin G K n j f') :
    f.Twin G' K n j f' where
  identity := h.identity
  frame := h.frame
  isInitializer := h.isInitializer
  lt := h.lt
  decl := FunctionDecl.Like.mono hG f.decl (fun _ _ => trivial) h.decl

/-- Twins under a disguise are twins under one that allows more. -/
theorem Value.Twin.within {v v' : Value} (h : v.Twin G K n v') : v.Twin G' K n v' :=
  Value.twin_iff.mpr ((Value.twin_iff.mp h).mono (fun _ _ => .within hG) fun _ _ => .within hG)

end

namespace Class.Twin

variable {c c' : Class} (h : c.Twin G K n c')
include h

/-- The method that a class finds by a name, and the one that its twin finds. -/
theorem method? (name : String) :
    Option.Rel (Closure.Twin G K n 1) (c.method? name) (c'.method? name) :=
  (twin_iff.mp h).method? (Closure.indistinct_twin 1) name

theorem arity (initializer : String) : c'.arity initializer = c.arity initializer :=
  (twin_iff.mp h).arity (Closure.indistinct_twin 1) initializer

end Class.Twin

/-- Twin bodies under twin parents make twin classes. -/
theorem Class.Twin.extend {parent parent' : Option Class} {own own' : ClassBody}
    (hparent : Option.Rel (Class.Twin G K n) parent parent') (hown : own.Twin G K n own') :
    (Class.extend parent own).Twin G K n (Class.extend parent' own') :=
  Class.twin_iff.mpr (.extend (hparent.imp fun _ _ => Class.twin_iff.mp) (ClassBody.twin_iff.mp hown))

namespace Value.Twin

variable {v v' w w' : Value}

theorem isTruthy (h : v.Twin G K n v') : v'.isTruthy = v.isTruthy := (twin_iff.mp h).isTruthy

theorem decides (h : v.Twin G K n v') (op : Terminal) : v'.decides op = v.decides op :=
  (twin_iff.mp h).decides op

/-- Twins are printed alike. -/
theorem text (h : v.Twin G K n v') : v'.text = v.text :=
  (twin_iff.mp h).text (Closure.indistinct_twin 0)

/-- A unary operator gives twins for twins. -/
theorem unary (h : v.Twin G K n v') (op : Terminal) :
    v'.unary op = v.unary op ∧ ∀ u, v.unary op = .ok u → u.Twin G K n u := by
  obtain ⟨hsame, hresult⟩ := (twin_iff.mp h).unary op
  exact ⟨hsame, fun u hu => twin_iff.mpr (hresult u hu)⟩

/-- A binary operator gives twins for twins. -/
theorem binary (h : v.Twin G K n v') (hw : w.Twin G K n w') (op : Terminal) :
    v'.binary op w' = v.binary op w ∧ ∀ u, v.binary op w = .ok u → u.Twin G K n u := by
  obtain ⟨hsame, hresult⟩ :=
    (twin_iff.mp h).binary (Closure.indistinct_twin 0) (twin_iff.mp hw) op
  exact ⟨hsame, fun u hu => twin_iff.mpr (hresult u hu)⟩

end Value.Twin

end Treewalk
