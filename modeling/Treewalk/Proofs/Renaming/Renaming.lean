import Treewalk.Proofs.Twins.Likeness
import Treewalk.Resolution

/-! Renaming. A local scope is chosen that declares a variable or a parameter `old`, and `old` gives
way to `new` where it is declared there and wherever an occurrence means that declaration, as far as
its distance says. Every other name stays. -/

namespace Treewalk

/-- Two names that are not reserved, and the distances of the occurrences. -/
structure Renaming where
  old : String
  new : String
  distances : Distances
  old_free : Keyword.ofSpelling? old = none
  new_free : Keyword.ofSpelling? new = none

namespace Renaming

variable (R : Renaming)

/-- The two names change places. Where `new` does not occur, this is to write `new` for `old`. -/
def name (n : String) : String :=
  if n = R.old then R.new else if n = R.new then R.old else n

def token (t : Token) : Token := { t with lexeme := R.name t.lexeme }

/-- The token is not the new name. -/
def Unused (t : Token) : Prop := t.lexeme ≠ R.new

/-- The name does not change. -/
def Keeps (t : Token) : Prop := R.name t.lexeme = t.lexeme

/-- An occurrence, the chosen scope being the `k`-th one outward: it is renamed if it means a
declaration there. -/
def reference (k : Option Nat) (ref : Reference) : Reference :=
  if k.isSome ∧ R.distances[ref.id]? = k then ⟨ref.id, R.token ref.name⟩ else ref

/-- A name that is declared, the chosen scope being the `k`-th one outward. -/
def declared (k : Option Nat) (name : Token) : Token :=
  if k = some 0 then R.token name else name

/-- The scope of these parameters and statements declares `old`, as a parameter or a variable. -/
def Declares (params : List Token) (body : List Stmt) : Prop :=
  (∃ p ∈ params, p.lexeme = R.old) ∨
    ∃ x initial, Stmt.var x initial ∈ body ∧ x.lexeme = R.old

/-- Inside a new scope the chosen one lies one further out. Outside of the chosen scope, the new one
may be chosen if it declares `old`. -/
def Opens (params : List Token) (body : List Stmt) (k k' : Option Nat) : Prop :=
  k' = k.map (· + 1) ∨ k = none ∧ k' = some 0 ∧ R.Declares params body

variable {R} {n m : String}

@[simp] theorem name_name (n : String) : R.name (R.name n) = n := by
  unfold name
  by_cases hold : n = R.old
  · by_cases hnew : R.new = R.old <;> simp [hold, hnew]
  · by_cases hnew : n = R.new
    · simp [hnew]
    · simp [hold, hnew]

theorem name_of_ne (hold : n ≠ R.old) (hnew : n ≠ R.new) : R.name n = n := by
  simp [name, hold, hnew]

theorem Unused.keeps {t : Token} (h : R.Unused t) (hold : t.lexeme ≠ R.old) : R.Keeps t :=
  name_of_ne hold h

@[simp] theorem name_old : R.name R.old = R.new := by simp [name]

/-- Reserved words stay. -/
theorem name_of_spelling (k : Keyword) : R.name k.spelling = k.spelling := by
  have hne {n : String} (hn : Keyword.ofSpelling? n = none) : k.spelling ≠ n := by
    rintro rfl
    rw [Keyword.ofSpelling?_spelling] at hn
    cases hn
  exact name_of_ne (hne R.old_free) (hne R.new_free)

/-- A renamed program differs from the program in names only. -/
def disguise (R : Renaming) : Disguise where
  name := R.name
  place id id' d := id' = id ∧ R.distances[id]? = d
  token t t' := t' = t
  name_name := name_name
  name_spelling := name_of_spelling
  sameText := Token.sameText_of_eq

@[simp] theorem name_disguise : R.disguise.name n = R.name n := rfl

theorem Opens.inward {params : List Token} {body : List Stmt} {k k' : Option Nat}
    (h : R.Opens params body k k') : Inward k k' :=
  h.imp_right fun h => ⟨h.1, h.2.1⟩

@[simp] theorem id_reference (k : Option Nat) (ref : Reference) : (R.reference k ref).id = ref.id := by
  unfold reference
  split <;> rfl

@[simp] theorem reference_none (ref : Reference) : R.reference none ref = ref := by
  simp [reference]

theorem refers_reference (k : Option Nat) (ref : Reference) :
    R.disguise.Refers k ref (R.reference k ref) := by
  refine ⟨R.distances[ref.id]?, ⟨id_reference k ref, rfl⟩, ref.name, rfl, ?_⟩
  unfold reference
  split
  · next h => rw [decide_eq_true h, Disguise.nameIf_true, name_disguise, token]
  · next h => rw [decide_eq_false h, Disguise.nameIf_false]

theorem named_declared (k : Option Nat) (t : Token) :
    R.disguise.Named (k = some 0) t (R.declared k t) := by
  refine ⟨t, rfl, ?_⟩
  unfold declared
  split
  · next h => rw [decide_eq_true h, Disguise.nameIf_true, name_disguise, token]
  · next h => rw [decide_eq_false h, Disguise.nameIf_false]

theorem lexeme_reference (k : Option Nat) (ref : Reference) :
    (R.reference k ref).name.lexeme =
      R.disguise.nameIf (k.isSome ∧ R.distances[ref.id]? = k) ref.name.lexeme := by
  obtain ⟨_, ⟨-, rfl⟩, hname⟩ := R.refers_reference k ref
  exact hname.lexeme

theorem lexeme_declared (k : Option Nat) (t : Token) :
    (R.declared k t).lexeme = R.disguise.nameIf (k = some 0) t.lexeme :=
  (named_declared k t).lexeme

end Renaming

mutual

/-- An expression with the occurrences renamed that mean the chosen declaration. -/
def Expr.rename (R : Renaming) (k : Option Nat) : Expr → Expr
  | .literal value => .literal value
  | .unary operator operand => .unary operator (operand.rename R k)
  | .binary left operator right => .binary (left.rename R k) operator (right.rename R k)
  | .logical left operator right => .logical (left.rename R k) operator (right.rename R k)
  | .grouping inner => .grouping (inner.rename R k)
  | .variable target => .variable (R.reference k target)
  | .assign target value => .assign (R.reference k target) (value.rename R k)
  | .call callee paren arguments =>
    .call (callee.rename R k) paren (Expr.renameAll R k arguments)
  | .get object name => .get (object.rename R k) name
  | .set object name value => .set (object.rename R k) name (value.rename R k)
  | .this receiver => .this receiver
  | .parent keyword method => .parent keyword method

def Expr.renameAll (R : Renaming) (k : Option Nat) : List Expr → List Expr
  | [] => []
  | e :: rest => e.rename R k :: Expr.renameAll R k rest

end

mutual

/-- A renamed expression differs from the expression in names only. -/
theorem Expr.like_rename {R : Renaming} {k : Option Nat} :
    (e : Expr) → e.Like R.disguise k (e.rename R k)
  | .literal _ => .literal
  | .unary _ operand => .unary rfl operand.like_rename
  | .binary left _ right => .binary left.like_rename rfl right.like_rename
  | .logical left _ right => .logical left.like_rename rfl right.like_rename
  | .grouping inner => .grouping inner.like_rename
  | .variable target => .variable (R.refers_reference k target)
  | .assign target value => .assign (R.refers_reference k target) value.like_rename
  | .call callee _ arguments => .call callee.like_rename rfl (Expr.allLike_rename arguments)
  | .get object _ => .get object.like_rename rfl
  | .set object _ value => .set object.like_rename rfl value.like_rename
  | .this receiver => .this ⟨_, ⟨rfl, rfl⟩, receiver.name, rfl, rfl⟩
  | .parent keyword _ => .parent ⟨_, ⟨rfl, rfl⟩, keyword.name, rfl, rfl⟩ rfl

theorem Expr.allLike_rename {R : Renaming} {k : Option Nat} :
    (es : List Expr) → Expr.AllLike R.disguise k es (Expr.renameAll R k es)
  | [] => .nil
  | e :: rest => .cons e.like_rename (Expr.allLike_rename rest)

end

mutual

/-- The second statement is the first one renamed, the chosen scope being the `k`-th one outward, or
one that is opened inside. -/
inductive Stmt.Renamed (R : Renaming) : Option Nat → Stmt → Stmt → Prop
  | expression {k value} : Stmt.Renamed R k (.expression value) (.expression (value.rename R k))
  | print {k value} : Stmt.Renamed R k (.print value) (.print (value.rename R k))
  | var {k name initial} :
    Stmt.Renamed R k (.var name initial) (.var (R.declared k name) (initial.map (·.rename R k)))
  | block {k k' body body'} : R.Opens [] body k k' → Stmt.AllRenamed R k' body body' →
    Stmt.Renamed R k (.block body) (.block body')
  | branch {k condition whenTrue whenTrue'} : Stmt.Renamed R k whenTrue whenTrue' →
    Stmt.Renamed R k (.branch condition whenTrue none) (.branch (condition.rename R k) whenTrue' none)
  | branchElse {k condition whenTrue whenTrue' whenFalse whenFalse'} :
    Stmt.Renamed R k whenTrue whenTrue' → Stmt.Renamed R k whenFalse whenFalse' →
    Stmt.Renamed R k (.branch condition whenTrue (some whenFalse))
      (.branch (condition.rename R k) whenTrue' (some whenFalse'))
  | loop {k condition body body'} : Stmt.Renamed R k body body' →
    Stmt.Renamed R k (.loop condition body) (.loop (condition.rename R k) body')
  | function {k decl decl'} : FunctionDecl.Renamed R k decl decl' →
    Stmt.Renamed R k (.function decl) (.function decl')
  | giveBack {k keyword value} :
    Stmt.Renamed R k (.giveBack keyword value) (.giveBack keyword (value.map (·.rename R k)))
  | classDecl {k name parent methods methods'} :
    FunctionDecl.AllRenamed R (k.map (· + methodScopes parent)) methods methods' →
    Stmt.Renamed R k (.classDecl name parent methods)
      (.classDecl name (parent.map (R.reference k)) methods')

inductive Stmt.AllRenamed (R : Renaming) : Option Nat → List Stmt → List Stmt → Prop
  | nil {k} : Stmt.AllRenamed R k [] []
  | cons {k s s' rest rest'} : Stmt.Renamed R k s s' → Stmt.AllRenamed R k rest rest' →
    Stmt.AllRenamed R k (s :: rest) (s' :: rest')

inductive FunctionDecl.Renamed (R : Renaming) : Option Nat → FunctionDecl → FunctionDecl → Prop
  | mk {k k' name params body body'} : R.Opens params body k k' → Stmt.AllRenamed R k' body body' →
    FunctionDecl.Renamed R k ⟨name, params, body⟩ ⟨name, params.map (R.declared k'), body'⟩

inductive FunctionDecl.AllRenamed (R : Renaming) :
    Option Nat → List FunctionDecl → List FunctionDecl → Prop
  | nil {k} : FunctionDecl.AllRenamed R k [] []
  | cons {k decl decl' rest rest'} : FunctionDecl.Renamed R k decl decl' →
    FunctionDecl.AllRenamed R k rest rest' → FunctionDecl.AllRenamed R k (decl :: rest) (decl' :: rest')

end

theorem FunctionDecl.Renamed.name {R : Renaming} {k : Option Nat} {decl decl' : FunctionDecl}
    (h : decl.Renamed R k decl') : decl'.name = decl.name := by
  cases h
  rfl

end Treewalk
