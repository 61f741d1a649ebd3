import Mathlib.Data.List.Forall2
import Treewalk.Proofs.Trees.Numbering

/-! Likeness. Two programs of one shape may differ in the names that one local scope declares, in the
numbers of their occurrences and in the lines of their tokens. A disguise says which differences
there may be, and trees are alike under it if they differ in nothing else. -/

theorem Option.Rel.imp {α β : Type} {r q : α → β → Prop} {a : Option α} {b : Option β}
    (h : Option.Rel r a b) (hrq : ∀ a b, r a b → q a b) : Option.Rel q a b := by
  cases h with
  | none => exact .none
  | some h => exact .some (hrq _ _ h)

namespace Treewalk

/-- The same text, on whatever line. -/
structure Token.SameText (t t' : Token) : Prop where
  kind : t'.kind = t.kind
  lexeme : t'.lexeme = t.lexeme

theorem Token.sameText_of_eq (t t' : Token) (h : t' = t) : t.SameText t' := by
  subst h
  exact ⟨rfl, rfl⟩

/-- How two programs may differ. In the chosen scope `name` stands for a name; an occurrence may have
another number, the distance of both being known; a token may stand on another line. -/
structure Disguise where
  name : String → String
  place : NodeId → NodeId → Option Nat → Prop
  token : Token → Token → Prop
  name_name : ∀ n, name (name n) = n
  name_spelling : ∀ k : Keyword, name k.spelling = k.spelling
  sameText : ∀ t t', token t t' → t.SameText t'

namespace Disguise

variable (G : Disguise)

/-- The name under which a scope knows `n`, the scope being the chosen one or another. -/
def nameIf (chosen : Bool) (n : String) : String := if chosen then G.name n else n

/-- The second token stands for the first one, which is a name that the chosen scope knows or
another one. -/
def Named (chosen : Bool) (t t' : Token) : Prop :=
  ∃ u, G.token t u ∧ t' = { u with lexeme := G.nameIf chosen u.lexeme }

/-- The second occurrence stands for the first one, the chosen scope being the `k`-th one outward. -/
def Refers (k : Option Nat) (ref ref' : Reference) : Prop :=
  ∃ d, G.place ref.id ref'.id d ∧ G.Named (k.isSome ∧ d = k) ref.name ref'.name

/-- The name does not change. -/
def Keeps (t : Token) : Prop := G.name t.lexeme = t.lexeme

/-- No name changes. -/
def Plain : Prop := ∀ n, G.name n = n

variable {G} {n m : String} {t t' : Token}

@[simp] theorem nameIf_true : G.nameIf true n = G.name n := rfl

@[simp] theorem nameIf_false : G.nameIf false n = n := rfl

theorem name_inj : G.name n = G.name m ↔ n = m :=
  ⟨fun h => by rw [← G.name_name n, h, G.name_name], fun h => by rw [h]⟩

theorem nameIf_inj {chosen : Bool} : G.nameIf chosen n = G.nameIf chosen m ↔ n = m := by
  cases chosen
  · rfl
  · exact name_inj

/-- Reserved words stay. -/
@[simp] theorem nameIf_spelling (chosen : Bool) (k : Keyword) :
    G.nameIf chosen k.spelling = k.spelling := by
  cases chosen
  · rfl
  · exact G.name_spelling k

theorem lexeme_eq (h : G.token t t') : t'.lexeme = t.lexeme := (G.sameText t t' h).lexeme

theorem kind_eq (h : G.token t t') : t'.kind = t.kind := (G.sameText t t' h).kind

theorem terminal_eq (h : G.token t t') : t'.terminal = t.terminal := by
  rw [Token.terminal, G.kind_eq h, Token.terminal]

theorem Named.lexeme {chosen : Bool} (h : G.Named chosen t t') :
    t'.lexeme = G.nameIf chosen t.lexeme := by
  obtain ⟨u, hu, rfl⟩ := h
  exact congrArg (G.nameIf chosen) (G.lexeme_eq hu)

@[simp] theorem named_false : G.Named false t t' ↔ G.token t t' :=
  ⟨by rintro ⟨u, hu, rfl⟩; exact hu, fun h => ⟨t', h, rfl⟩⟩

/-- A name that does not change stands for itself in every scope. -/
theorem Named.token_of_keeps {chosen : Bool} (h : G.Named chosen t t') (hkeeps : G.Keeps t) :
    G.token t t' := by
  obtain ⟨u, hu, rfl⟩ := h
  have hsame : G.nameIf chosen u.lexeme = u.lexeme := by
    rw [G.lexeme_eq hu]
    cases chosen
    · rfl
    · exact hkeeps
  rwa [hsame]

/-- A word that does not change means the same in every scope. -/
theorem Refers.of_keeps {k : Option Nat} {ref ref' : Reference} (h : G.Refers none ref ref')
    (hkeeps : G.Keeps ref.name) : G.Refers k ref ref' := by
  obtain ⟨d, hplace, hname⟩ := h
  have htoken : G.token ref.name ref'.name := hname.token_of_keeps hkeeps
  refine ⟨d, hplace, ref'.name, htoken, ?_⟩
  unfold nameIf
  split
  · rw [G.lexeme_eq htoken, show G.name ref.name.lexeme = ref.name.lexeme from hkeeps,
      ← G.lexeme_eq htoken]
  · rfl

/-- A name that the chosen scope keeps is known by itself everywhere. -/
theorem nameIf_of_keeps {p : Prop} [Decidable p] (h : p → G.Keeps t) :
    G.nameIf p t.lexeme = t.lexeme := by
  by_cases hp : p
  · rw [decide_eq_true hp, nameIf_true, h hp]
  · rw [decide_eq_false hp, nameIf_false]

theorem Plain.keeps (h : G.Plain) (t : Token) : G.Keeps t := h t.lexeme

theorem Plain.named (h : G.Plain) {chosen : Bool} : G.Named chosen t t' ↔ G.token t t' := by
  refine ⟨fun hnamed => hnamed.token_of_keeps (h.keeps t), fun htoken => ⟨t', htoken, ?_⟩⟩
  cases chosen
  · rfl
  · rw [nameIf_true, h]

theorem Plain.refers (h : G.Plain) {k : Option Nat} {ref ref' : Reference} :
    G.Refers k ref ref' ↔ (∃ d, G.place ref.id ref'.id d) ∧ G.token ref.name ref'.name := by
  simp only [Refers, h.named, exists_and_right]

end Disguise

/-- Inside a new scope the chosen one lies one further out. Outside of the chosen scope, the new one
may be chosen. -/
def Inward (k k' : Option Nat) : Prop := k' = k.map (· + 1) ∨ k = none ∧ k' = some 0

/-- How many scopes lie around the methods of a class, besides those around the class. -/
def methodScopes (parent : Option Reference) : Nat :=
  match parent with
  | some _ => 2
  | none => 1

mutual

/-- The expressions are alike, the chosen scope being the `k`-th one outward. -/
inductive Expr.Like (G : Disguise) (k : Option Nat) : Expr → Expr → Prop
  | literal {value} : Expr.Like G k (.literal value) (.literal value)
  | unary {op op' e e'} : G.token op op' → Expr.Like G k e e' →
    Expr.Like G k (.unary op e) (.unary op' e')
  | binary {l l' op op' r r'} : Expr.Like G k l l' → G.token op op' → Expr.Like G k r r' →
    Expr.Like G k (.binary l op r) (.binary l' op' r')
  | logical {l l' op op' r r'} : Expr.Like G k l l' → G.token op op' → Expr.Like G k r r' →
    Expr.Like G k (.logical l op r) (.logical l' op' r')
  | grouping {e e'} : Expr.Like G k e e' → Expr.Like G k (.grouping e) (.grouping e')
  | variable {ref ref'} : G.Refers k ref ref' → Expr.Like G k (.variable ref) (.variable ref')
  | assign {ref ref' e e'} : G.Refers k ref ref' → Expr.Like G k e e' →
    Expr.Like G k (.assign ref e) (.assign ref' e')
  | call {e e' paren paren' es es'} : Expr.Like G k e e' → G.token paren paren' →
    Expr.AllLike G k es es' → Expr.Like G k (.call e paren es) (.call e' paren' es')
  | get {e e' name name'} : Expr.Like G k e e' → G.token name name' →
    Expr.Like G k (.get e name) (.get e' name')
  | set {e e' name name' v v'} : Expr.Like G k e e' → G.token name name' → Expr.Like G k v v' →
    Expr.Like G k (.set e name v) (.set e' name' v')
  | this {ref ref'} : G.Refers none ref ref' → Expr.Like G k (.this ref) (.this ref')
  | parent {ref ref' method method'} : G.Refers none ref ref' → G.token method method' →
    Expr.Like G k (.parent ref method) (.parent ref' method')

inductive Expr.AllLike (G : Disguise) (k : Option Nat) : List Expr → List Expr → Prop
  | nil : Expr.AllLike G k [] []
  | cons {e e' es es'} : Expr.Like G k e e' → Expr.AllLike G k es es' →
    Expr.AllLike G k (e :: es) (e' :: es')

end

mutual

/-- The statements are alike, the chosen scope being the `k`-th one outward, or one that is opened
inside. The functions and classes that the chosen scope declares keep their names. -/
inductive Stmt.Like (G : Disguise) : Option Nat → Stmt → Stmt → Prop
  | expression {k e e'} : e.Like G k e' → Stmt.Like G k (.expression e) (.expression e')
  | print {k e e'} : e.Like G k e' → Stmt.Like G k (.print e) (.print e')
  | var {k x x' e e'} : G.Named (k = some 0) x x' → Option.Rel (Expr.Like G k) e e' →
    Stmt.Like G k (.var x e) (.var x' e')
  | block {k k' ss ss'} : Inward k k' → Stmt.AllLike G k' ss ss' →
    Stmt.Like G k (.block ss) (.block ss')
  | branch {k e e' s s'} : e.Like G k e' → Stmt.Like G k s s' →
    Stmt.Like G k (.branch e s none) (.branch e' s' none)
  | branchElse {k e e' s s' o o'} : e.Like G k e' → Stmt.Like G k s s' → Stmt.Like G k o o' →
    Stmt.Like G k (.branch e s (some o)) (.branch e' s' (some o'))
  | loop {k e e' s s'} : e.Like G k e' → Stmt.Like G k s s' →
    Stmt.Like G k (.loop e s) (.loop e' s')
  | function {k decl decl'} : (k = some 0 → G.Keeps decl.name) → FunctionDecl.Like G k decl decl' →
    Stmt.Like G k (.function decl) (.function decl')
  | giveBack {k word word' e e'} : G.token word word' → Option.Rel (Expr.Like G k) e e' →
    Stmt.Like G k (.giveBack word e) (.giveBack word' e')
  | classDecl {k x x' parent parent' methods methods'} : (k = some 0 → G.Keeps x) →
    G.token x x' → Option.Rel (G.Refers k) parent parent' →
    FunctionDecl.AllLike G (k.map (· + methodScopes parent)) methods methods' →
    Stmt.Like G k (.classDecl x parent methods) (.classDecl x' parent' methods')

inductive Stmt.AllLike (G : Disguise) : Option Nat → List Stmt → List Stmt → Prop
  | nil {k} : Stmt.AllLike G k [] []
  | cons {k s s' ss ss'} : Stmt.Like G k s s' → Stmt.AllLike G k ss ss' →
    Stmt.AllLike G k (s :: ss) (s' :: ss')

inductive FunctionDecl.Like (G : Disguise) : Option Nat → FunctionDecl → FunctionDecl → Prop
  | mk {k k' x x' params params' body body'} : Inward k k' → G.token x x' →
    List.Forall₂ (G.Named (k' = some 0)) params params' → Stmt.AllLike G k' body body' →
    FunctionDecl.Like G k ⟨x, params, body⟩ ⟨x', params', body'⟩

inductive FunctionDecl.AllLike (G : Disguise) :
    Option Nat → List FunctionDecl → List FunctionDecl → Prop
  | nil {k} : FunctionDecl.AllLike G k [] []
  | cons {k decl decl' decls decls'} : FunctionDecl.Like G k decl decl' →
    FunctionDecl.AllLike G k decls decls' →
    FunctionDecl.AllLike G k (decl :: decls) (decl' :: decls')

end

section
variable {G : Disguise} {k : Option Nat}

theorem FunctionDecl.Like.name {decl decl' : FunctionDecl} (h : decl.Like G k decl') :
    G.token decl.name decl'.name := by
  cases h with
  | mk _ hname => exact hname

theorem FunctionDecl.Like.arity {decl decl' : FunctionDecl} (h : decl.Like G k decl') :
    decl'.params.length = decl.params.length := by
  cases h with
  | mk _ _ hparams => exact hparams.length_eq.symm

theorem Stmt.AllLike.append {ss ss' us us' : List Stmt} (hss : Stmt.AllLike G k ss ss')
    (hus : Stmt.AllLike G k us us') : Stmt.AllLike G k (ss ++ us) (ss' ++ us') := by
  induction ss generalizing ss' with
  | nil =>
    cases hss
    exact hus
  | cons s rest ih =>
    cases hss with
    | cons hs hrest => exact .cons hs (ih hrest)

theorem Inward.self (k : Option Nat) : Inward k (k.map (· + 1)) := .inl rfl

theorem Inward.none : Inward Option.none Option.none := .inl rfl

end

/-- On occurrences with numbers of which `P` holds, the second disguise allows what the first one
allows. -/
structure Disguise.Within (G G' : Disguise) (P : NodeId → Prop) : Prop where
  named : ∀ chosen t t', G.Named chosen t t' → G'.Named chosen t t'
  keeps : ∀ t, G.Keeps t → G'.Keeps t
  refers : ∀ k ref ref', P ref.id → G.Refers k ref ref' → G'.Refers k ref ref'

section
variable {G G' : Disguise} {P : NodeId → Prop}

theorem Disguise.Within.token (h : G.Within G' P) {t t' : Token} (ht : G.token t t') :
    G'.token t t' :=
  Disguise.named_false.mp (h.named false t t' (Disguise.named_false.mpr ht))

/-- A plain disguise allows what another one allows if it allows its lines and numbers. -/
theorem Disguise.Plain.within (hG : G.Plain) (hG' : G'.Plain)
    (htoken : ∀ t t', G.token t t' → G'.token t t')
    (hplace : ∀ id id' d, P id → G.place id id' d → ∃ d', G'.place id id' d') : G.Within G' P where
  named chosen t t' h := hG'.named.mpr (htoken t t' (hG.named.mp h))
  keeps t _ := hG'.keeps t
  refers k ref ref' hid h := by
    obtain ⟨⟨d, hd⟩, hname⟩ := hG.refers.mp h
    exact hG'.refers.mpr ⟨hplace _ _ d hid hd, htoken _ _ hname⟩

mutual

/-- What is alike under a disguise is alike under one that allows more. -/
theorem Expr.Like.mono (h : G.Within G' P) {k : Option Nat} :
    (e : Expr) → {e' : Expr} → (∀ id ∈ e.ids, P id) → e.Like G k e' → e.Like G' k e'
  | .literal _, _, _, .literal => .literal
  | .unary _ e, _, hids, .unary hop he => .unary (h.token hop) (Expr.Like.mono h e hids he)
  | .binary l _ r, _, hids, .binary hl hop hr => by
    rw [Expr.ids, List.forall_mem_append] at hids
    exact .binary (Expr.Like.mono h l hids.1 hl) (h.token hop) (Expr.Like.mono h r hids.2 hr)
  | .logical l _ r, _, hids, .logical hl hop hr => by
    rw [Expr.ids, List.forall_mem_append] at hids
    exact .logical (Expr.Like.mono h l hids.1 hl) (h.token hop) (Expr.Like.mono h r hids.2 hr)
  | .grouping e, _, hids, .grouping he => .grouping (Expr.Like.mono h e hids he)
  | .variable ref, _, hids, .variable href =>
    .variable (h.refers _ _ _ (hids ref.id List.mem_cons_self) href)
  | .assign ref e, _, hids, .assign href he => by
    rw [Expr.ids, List.forall_mem_append] at hids
    exact .assign (h.refers _ _ _ (hids.2 ref.id List.mem_cons_self) href)
      (Expr.Like.mono h e hids.1 he)
  | .call e _ es, _, hids, .call he hparen hes => by
    rw [Expr.ids, List.forall_mem_append] at hids
    exact .call (Expr.Like.mono h e hids.1 he) (h.token hparen) (Expr.AllLike.mono h es hids.2 hes)
  | .get e _, _, hids, .get he hname => .get (Expr.Like.mono h e hids he) (h.token hname)
  | .set e _ v, _, hids, .set he hname hv => by
    rw [Expr.ids, List.forall_mem_append] at hids
    exact .set (Expr.Like.mono h e hids.2 he) (h.token hname) (Expr.Like.mono h v hids.1 hv)
  | .this ref, _, hids, .this href =>
    .this (h.refers _ _ _ (hids ref.id List.mem_cons_self) href)
  | .parent ref _, _, hids, .parent href hmethod =>
    .parent (h.refers _ _ _ (hids ref.id List.mem_cons_self) href) (h.token hmethod)

theorem Expr.AllLike.mono (h : G.Within G' P) {k : Option Nat} :
    (es : List Expr) → {es' : List Expr} → (∀ id ∈ Expr.allIds es, P id) → Expr.AllLike G k es es' →
      Expr.AllLike G' k es es'
  | [], _, _, .nil => .nil
  | e :: rest, _, hids, .cons he hrest => by
    rw [Expr.allIds, List.forall_mem_append] at hids
    exact .cons (Expr.Like.mono h e hids.1 he) (Expr.AllLike.mono h rest hids.2 hrest)

end

mutual

theorem Stmt.Like.mono (h : G.Within G' P) {k : Option Nat} :
    (s : Stmt) → {s' : Stmt} → (∀ id ∈ s.ids, P id) → s.Like G k s' → s.Like G' k s'
  | .expression e, _, hids, .expression he => .expression (Expr.Like.mono h e hids he)
  | .print e, _, hids, .print he => .print (Expr.Like.mono h e hids he)
  | .var _ none, _, _, .var hx .none => .var (h.named _ _ _ hx) .none
  | .var _ (some e), _, hids, .var hx (.some he) =>
    .var (h.named _ _ _ hx) (.some (Expr.Like.mono h e hids he))
  | .block ss, _, hids, .block hin hss => .block hin (Stmt.AllLike.mono h ss hids hss)
  | .branch e s none, _, hids, .branch he hs => by
    rw [Stmt.ids, List.forall_mem_append] at hids
    exact .branch (Expr.Like.mono h e hids.1 he) (Stmt.Like.mono h s hids.2 hs)
  | .branch e s (some o), _, hids, .branchElse he hs ho => by
    rw [Stmt.ids, List.forall_mem_append, List.forall_mem_append] at hids
    exact .branchElse (Expr.Like.mono h e hids.1.1 he) (Stmt.Like.mono h s hids.1.2 hs)
      (Stmt.Like.mono h o hids.2 ho)
  | .loop e s, _, hids, .loop he hs => by
    rw [Stmt.ids, List.forall_mem_append] at hids
    exact .loop (Expr.Like.mono h e hids.1 he) (Stmt.Like.mono h s hids.2 hs)
  | .function decl, _, hids, .function hkeeps hdecl =>
    .function (fun hk => h.keeps _ (hkeeps hk)) (FunctionDecl.Like.mono h decl hids hdecl)
  | .giveBack _ none, _, _, .giveBack hword .none => .giveBack (h.token hword) .none
  | .giveBack _ (some e), _, hids, .giveBack hword (.some he) =>
    .giveBack (h.token hword) (.some (Expr.Like.mono h e hids he))
  | .classDecl _ none methods, _, hids, .classDecl hkeeps hx .none hmethods =>
    .classDecl (fun hk => h.keeps _ (hkeeps hk)) (h.token hx) .none
      (FunctionDecl.AllLike.mono h methods hids hmethods)
  | .classDecl _ (some ref) methods, _, hids, .classDecl hkeeps hx (.some href) hmethods => by
    rw [Stmt.ids, List.forall_mem_append] at hids
    exact .classDecl (fun hk => h.keeps _ (hkeeps hk)) (h.token hx)
      (.some (h.refers _ _ _ (hids.1 ref.id List.mem_cons_self) href))
      (FunctionDecl.AllLike.mono h methods hids.2 hmethods)

theorem Stmt.AllLike.mono (h : G.Within G' P) {k : Option Nat} :
    (ss : List Stmt) → {ss' : List Stmt} → (∀ id ∈ Stmt.allIds ss, P id) → Stmt.AllLike G k ss ss' →
      Stmt.AllLike G' k ss ss'
  | [], _, _, .nil => .nil
  | s :: rest, _, hids, .cons hs hrest => by
    rw [Stmt.allIds, List.forall_mem_append] at hids
    exact .cons (Stmt.Like.mono h s hids.1 hs) (Stmt.AllLike.mono h rest hids.2 hrest)

theorem FunctionDecl.Like.mono (h : G.Within G' P) {k : Option Nat} :
    (decl : FunctionDecl) → {decl' : FunctionDecl} → (∀ id ∈ decl.ids, P id) →
      decl.Like G k decl' → decl.Like G' k decl'
  | ⟨_, _, body⟩, _, hids, .mk hin hx hparams hbody =>
    .mk hin (h.token hx) (hparams.imp fun _ _ hp => h.named _ _ _ hp)
      (Stmt.AllLike.mono h body hids hbody)

theorem FunctionDecl.AllLike.mono (h : G.Within G' P) {k : Option Nat} :
    (decls : List FunctionDecl) → {decls' : List FunctionDecl} →
      (∀ id ∈ FunctionDecl.allIds decls, P id) → FunctionDecl.AllLike G k decls decls' →
      FunctionDecl.AllLike G' k decls decls'
  | [], _, _, .nil => .nil
  | decl :: rest, _, hids, .cons hdecl hrest => by
    rw [FunctionDecl.allIds, List.forall_mem_append] at hids
    exact .cons (FunctionDecl.Like.mono h decl hids.1 hdecl)
      (FunctionDecl.AllLike.mono h rest hids.2 hrest)

end

end

end Treewalk
