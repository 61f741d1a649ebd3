import Treewalk.Outline
import Treewalk.Proofs.Resolution.Alike

/-! Trees without lines. Trees that differ in the lines of their tokens and in nothing else are one
tree once the lines are taken out. The outline of a tree and the numbers of its occurrences do not
depend on lines. -/

namespace Treewalk

/-- The token, on no line. -/
def Token.unlined (t : Token) : Token := { t with line := 0 }

@[simp] theorem Token.lexeme_unlined (t : Token) : t.unlined.lexeme = t.lexeme := rfl

theorem Token.unlined_eq_iff {t t' : Token} : t'.unlined = t.unlined ↔ t.SameText t' := by
  obtain ⟨kind, lexeme, line⟩ := t
  obtain ⟨kind', lexeme', line'⟩ := t'
  simp only [unlined, mk.injEq, and_true]
  exact ⟨fun h => ⟨h.1, h.2⟩, fun h => ⟨h.kind, h.lexeme⟩⟩

/-- The occurrence, its name on no line. -/
def Reference.unlined (ref : Reference) : Reference := ⟨ref.id, ref.name.unlined⟩

@[simp] theorem Reference.id_unlined (ref : Reference) : ref.unlined.id = ref.id := rfl

@[simp] theorem Reference.lexeme_unlined (ref : Reference) :
    ref.unlined.name.lexeme = ref.name.lexeme := rfl

mutual

/-- The expression, all tokens of which are on no line. -/
def Expr.unlined : Expr → Expr
  | .literal value => .literal value
  | .unary operator operand => .unary operator.unlined operand.unlined
  | .binary left operator right => .binary left.unlined operator.unlined right.unlined
  | .logical left operator right => .logical left.unlined operator.unlined right.unlined
  | .grouping inner => .grouping inner.unlined
  | .variable target => .variable target.unlined
  | .assign target value => .assign target.unlined value.unlined
  | .call callee paren arguments =>
    .call callee.unlined paren.unlined (Expr.allUnlined arguments)
  | .get object name => .get object.unlined name.unlined
  | .set object name value => .set object.unlined name.unlined value.unlined
  | .this receiver => .this receiver.unlined
  | .parent keyword method => .parent keyword.unlined method.unlined

def Expr.allUnlined : List Expr → List Expr
  | [] => []
  | e :: rest => e.unlined :: Expr.allUnlined rest

end

mutual

/-- The statement, all tokens of which are on no line. -/
def Stmt.unlined : Stmt → Stmt
  | .expression value => .expression value.unlined
  | .print value => .print value.unlined
  | .var name initial => .var name.unlined (initial.map Expr.unlined)
  | .block body => .block (Stmt.allUnlined body)
  | .branch condition whenTrue none => .branch condition.unlined whenTrue.unlined none
  | .branch condition whenTrue (some whenFalse) =>
    .branch condition.unlined whenTrue.unlined (some whenFalse.unlined)
  | .loop condition body => .loop condition.unlined body.unlined
  | .function decl => .function decl.unlined
  | .giveBack keyword value => .giveBack keyword.unlined (value.map Expr.unlined)
  | .classDecl name parent methods =>
    .classDecl name.unlined (parent.map Reference.unlined) (FunctionDecl.allUnlined methods)

def Stmt.allUnlined : List Stmt → List Stmt
  | [] => []
  | s :: rest => s.unlined :: Stmt.allUnlined rest

def FunctionDecl.unlined : FunctionDecl → FunctionDecl
  | ⟨name, params, body⟩ => ⟨name.unlined, params.map Token.unlined, Stmt.allUnlined body⟩

def FunctionDecl.allUnlined : List FunctionDecl → List FunctionDecl
  | [] => []
  | decl :: rest => decl.unlined :: FunctionDecl.allUnlined rest

end

/-- The program, all tokens of which are on no line. -/
def Program.unlined (p : Program) : Program := Stmt.allUnlined p

/-! ### What does not depend on lines -/

mutual

theorem Expr.outline_unlined : (e : Expr) → e.unlined.outline = e.outline
  | .literal _ => rfl
  | .unary _ e => by simp [Expr.unlined, Expr.outline, e.outline_unlined]
  | .binary l _ r | .logical l _ r => by
    simp [Expr.unlined, Expr.outline, l.outline_unlined, r.outline_unlined]
  | .grouping e => by simp [Expr.unlined, Expr.outline, e.outline_unlined]
  | .variable _ => rfl
  | .assign _ e => by simp [Expr.unlined, Expr.outline, e.outline_unlined]
  | .call e _ es => by
    simp [Expr.unlined, Expr.outline, e.outline_unlined, Expr.outlines_allUnlined es]
  | .get e _ => by simp [Expr.unlined, Expr.outline, e.outline_unlined]
  | .set e _ v => by simp [Expr.unlined, Expr.outline, e.outline_unlined, v.outline_unlined]
  | .this _ => rfl
  | .parent _ _ => rfl

theorem Expr.outlines_allUnlined : (es : List Expr) →
    Expr.outlines (Expr.allUnlined es) = Expr.outlines es
  | [] => rfl
  | e :: rest => by
    rw [Expr.allUnlined, Expr.outlines, e.outline_unlined, Expr.outlines_allUnlined rest,
      Expr.outlines]

end

mutual

theorem Stmt.outline_unlined : (s : Stmt) → s.unlined.outline = s.outline
  | .expression e | .print e => by simp [Stmt.unlined, Stmt.outline, e.outline_unlined]
  | .var _ none => rfl
  | .var _ (some e) => by simp [Stmt.unlined, Stmt.outline, e.outline_unlined]
  | .block ss => by simp [Stmt.unlined, Stmt.outline, Stmt.outlines_allUnlined ss]
  | .branch e s none => by
    simp [Stmt.unlined, Stmt.outline, e.outline_unlined, s.outline_unlined]
  | .branch e s (some o) => by
    simp [Stmt.unlined, Stmt.outline, e.outline_unlined, s.outline_unlined, o.outline_unlined]
  | .loop e s => by simp [Stmt.unlined, Stmt.outline, e.outline_unlined, s.outline_unlined]
  | .function decl => decl.outline_unlined "func"
  | .giveBack _ none => rfl
  | .giveBack _ (some e) => by simp [Stmt.unlined, Stmt.outline, e.outline_unlined]
  | .classDecl _ none methods => by
    simp [Stmt.unlined, Stmt.outline, FunctionDecl.outlines_allUnlined "method" methods]
  | .classDecl _ (some _) methods => by
    simp [Stmt.unlined, Stmt.outline, FunctionDecl.outlines_allUnlined "method" methods]

theorem Stmt.outlines_allUnlined : (ss : List Stmt) →
    Stmt.outlines (Stmt.allUnlined ss) = Stmt.outlines ss
  | [] => rfl
  | s :: rest => by
    rw [Stmt.allUnlined, Stmt.outlines, s.outline_unlined, Stmt.outlines_allUnlined rest,
      Stmt.outlines]

theorem FunctionDecl.outline_unlined (word : String) : (decl : FunctionDecl) →
    decl.unlined.outline word = decl.outline word
  | ⟨_, params, body⟩ => by
    simp [FunctionDecl.unlined, FunctionDecl.outline, Stmt.outlines_allUnlined body,
      Function.comp_def]

theorem FunctionDecl.outlines_allUnlined (word : String) : (decls : List FunctionDecl) →
    FunctionDecl.outlines word (FunctionDecl.allUnlined decls) = FunctionDecl.outlines word decls
  | [] => rfl
  | decl :: rest => by
    rw [FunctionDecl.allUnlined, FunctionDecl.outlines, decl.outline_unlined,
      FunctionDecl.outlines_allUnlined word rest, FunctionDecl.outlines]

end

mutual

theorem Expr.ids_unlined : (e : Expr) → e.unlined.ids = e.ids
  | .literal _ => rfl
  | .unary _ e => e.ids_unlined
  | .binary l _ r | .logical l _ r => by
    rw [Expr.unlined, Expr.ids, l.ids_unlined, r.ids_unlined, Expr.ids]
  | .grouping e => e.ids_unlined
  | .variable _ => rfl
  | .assign _ e => by rw [Expr.unlined, Expr.ids, e.ids_unlined, Reference.id_unlined, Expr.ids]
  | .call e _ es => by
    rw [Expr.unlined, Expr.ids, e.ids_unlined, Expr.allIds_allUnlined es, Expr.ids]
  | .get e _ => e.ids_unlined
  | .set e _ v => by rw [Expr.unlined, Expr.ids, e.ids_unlined, v.ids_unlined, Expr.ids]
  | .this _ => rfl
  | .parent _ _ => rfl

theorem Expr.allIds_allUnlined : (es : List Expr) →
    Expr.allIds (Expr.allUnlined es) = Expr.allIds es
  | [] => rfl
  | e :: rest => by
    rw [Expr.allUnlined, Expr.allIds, e.ids_unlined, Expr.allIds_allUnlined rest, Expr.allIds]

end

mutual

theorem Stmt.ids_unlined : (s : Stmt) → s.unlined.ids = s.ids
  | .expression e | .print e => e.ids_unlined
  | .var _ none => rfl
  | .var _ (some e) => e.ids_unlined
  | .block ss => Stmt.allIds_allUnlined ss
  | .branch e s none => by
    rw [Stmt.unlined, Stmt.ids, e.ids_unlined, s.ids_unlined, Stmt.ids]
  | .branch e s (some o) => by
    rw [Stmt.unlined, Stmt.ids, e.ids_unlined, s.ids_unlined, o.ids_unlined, Stmt.ids]
  | .loop e s => by rw [Stmt.unlined, Stmt.ids, e.ids_unlined, s.ids_unlined, Stmt.ids]
  | .function decl => decl.ids_unlined
  | .giveBack _ none => rfl
  | .giveBack _ (some e) => e.ids_unlined
  | .classDecl _ none methods => FunctionDecl.allIds_allUnlined methods
  | .classDecl _ (some ref) methods =>
    congrArg (ref.id :: ·) (FunctionDecl.allIds_allUnlined methods)

theorem Stmt.allIds_allUnlined : (ss : List Stmt) →
    Stmt.allIds (Stmt.allUnlined ss) = Stmt.allIds ss
  | [] => rfl
  | s :: rest => by
    rw [Stmt.allUnlined, Stmt.allIds, s.ids_unlined, Stmt.allIds_allUnlined rest, Stmt.allIds]

theorem FunctionDecl.ids_unlined : (decl : FunctionDecl) → decl.unlined.ids = decl.ids
  | ⟨_, _, body⟩ => Stmt.allIds_allUnlined body

theorem FunctionDecl.allIds_allUnlined : (decls : List FunctionDecl) →
    FunctionDecl.allIds (FunctionDecl.allUnlined decls) = FunctionDecl.allIds decls
  | [] => rfl
  | decl :: rest => by
    rw [FunctionDecl.allUnlined, FunctionDecl.allIds, decl.ids_unlined,
      FunctionDecl.allIds_allUnlined rest, FunctionDecl.allIds]

end

section
variable {p p' : Program} (h : Program.unlined p' = Program.unlined p)
include h

/-- Programs that differ in lines only have the same outline. -/
theorem Program.outline_of_unlined : Program.outline p' = Program.outline p := by
  unfold Program.outline
  rw [← Stmt.outlines_allUnlined p', ← Stmt.outlines_allUnlined p]
  exact congrArg (fun q => separated "\n" (Stmt.outlines q)) h

/-- Programs that differ in lines only have the same numbers. -/
theorem Program.allIds_of_unlined : Stmt.allIds p' = Stmt.allIds p := by
  rw [← Stmt.allIds_allUnlined p', ← Stmt.allIds_allUnlined p]
  exact congrArg Stmt.allIds h

end

/-! ### Likeness up to lines -/

/-- Nothing but lines may differ. -/
structure Disguise.KeepsAll (G : Disguise) : Prop where
  plain : G.Plain
  place : ∀ id id' d, G.place id id' d → id' = id

section
variable {G : Disguise}

theorem Disguise.unlined_eq {t t' : Token} (h : G.token t t') : t'.unlined = t.unlined :=
  Token.unlined_eq_iff.mpr (G.sameText t t' h)

section
variable (hG : G.KeepsAll) {k : Option Nat}
include hG

theorem Reference.unlined_eq {ref ref' : Reference} (h : G.Refers k ref ref') :
    ref'.unlined = ref.unlined := by
  obtain ⟨⟨d, hplace⟩, hname⟩ := hG.plain.refers.mp h
  rw [Reference.unlined, hG.place _ _ _ hplace, Disguise.unlined_eq hname, Reference.unlined]

theorem unlined_params {chosen : Bool} {params params' : List Token}
    (h : List.Forall₂ (G.Named chosen) params params') :
    params'.map Token.unlined = params.map Token.unlined := by
  induction h with
  | nil => rfl
  | cons hp _ ih => rw [List.map_cons, Disguise.unlined_eq (hG.plain.named.mp hp), ih, List.map_cons]

end

mutual

/-- Expressions that are alike under a disguise that keeps all are one without lines. -/
theorem Expr.Like.unlined_eq (hG : G.KeepsAll) {k : Option Nat} :
    (e : Expr) → {e' : Expr} → e.Like G k e' → e'.unlined = e.unlined
  | .literal _, _, .literal => rfl
  | .unary _ e, _, .unary hop he => by
    rw [Expr.unlined, Disguise.unlined_eq hop, Expr.Like.unlined_eq hG e he, Expr.unlined]
  | .binary l _ r, _, .binary hl hop hr => by
    rw [Expr.unlined, Disguise.unlined_eq hop, Expr.Like.unlined_eq hG l hl,
      Expr.Like.unlined_eq hG r hr, Expr.unlined]
  | .logical l _ r, _, .logical hl hop hr => by
    rw [Expr.unlined, Disguise.unlined_eq hop, Expr.Like.unlined_eq hG l hl,
      Expr.Like.unlined_eq hG r hr, Expr.unlined]
  | .grouping e, _, .grouping he => congrArg Expr.grouping (Expr.Like.unlined_eq hG e he)
  | .variable _, _, .variable href => congrArg Expr.variable (Reference.unlined_eq hG href)
  | .assign _ e, _, .assign href he => by
    rw [Expr.unlined, Reference.unlined_eq hG href, Expr.Like.unlined_eq hG e he, Expr.unlined]
  | .call e _ es, _, .call he hparen hes => by
    rw [Expr.unlined, Disguise.unlined_eq hparen, Expr.Like.unlined_eq hG e he,
      Expr.AllLike.unlined_eq hG es hes, Expr.unlined]
  | .get e _, _, .get he hname => by
    rw [Expr.unlined, Disguise.unlined_eq hname, Expr.Like.unlined_eq hG e he, Expr.unlined]
  | .set e _ v, _, .set he hname hv => by
    rw [Expr.unlined, Disguise.unlined_eq hname, Expr.Like.unlined_eq hG e he,
      Expr.Like.unlined_eq hG v hv, Expr.unlined]
  | .this _, _, .this href => congrArg Expr.this (Reference.unlined_eq hG href)
  | .parent _ _, _, .parent href hmethod => by
    rw [Expr.unlined, Reference.unlined_eq hG href, Disguise.unlined_eq hmethod, Expr.unlined]

theorem Expr.AllLike.unlined_eq (hG : G.KeepsAll) {k : Option Nat} :
    (es : List Expr) → {es' : List Expr} → Expr.AllLike G k es es' →
      Expr.allUnlined es' = Expr.allUnlined es
  | [], _, .nil => rfl
  | e :: rest, _, .cons he hrest => by
    rw [Expr.allUnlined, Expr.Like.unlined_eq hG e he, Expr.AllLike.unlined_eq hG rest hrest,
      Expr.allUnlined]

end

mutual

theorem Stmt.Like.unlined_eq (hG : G.KeepsAll) {k : Option Nat} :
    (s : Stmt) → {s' : Stmt} → s.Like G k s' → s'.unlined = s.unlined
  | .expression e, _, .expression he => congrArg Stmt.expression (Expr.Like.unlined_eq hG e he)
  | .print e, _, .print he => congrArg Stmt.print (Expr.Like.unlined_eq hG e he)
  | .var _ none, _, .var hx .none => by
    rw [Stmt.unlined, Disguise.unlined_eq (hG.plain.named.mp hx), Stmt.unlined]
  | .var _ (some e), _, .var hx (.some he) => by
    rw [Stmt.unlined, Disguise.unlined_eq (hG.plain.named.mp hx), Option.map_some,
      Expr.Like.unlined_eq hG e he, Stmt.unlined, Option.map_some]
  | .block ss, _, .block _ hss => congrArg Stmt.block (Stmt.AllLike.unlined_eq hG ss hss)
  | .branch e s none, _, .branch he hs => by
    rw [Stmt.unlined, Expr.Like.unlined_eq hG e he, Stmt.Like.unlined_eq hG s hs, Stmt.unlined]
  | .branch e s (some o), _, .branchElse he hs ho => by
    rw [Stmt.unlined, Expr.Like.unlined_eq hG e he, Stmt.Like.unlined_eq hG s hs,
      Stmt.Like.unlined_eq hG o ho, Stmt.unlined]
  | .loop e s, _, .loop he hs => by
    rw [Stmt.unlined, Expr.Like.unlined_eq hG e he, Stmt.Like.unlined_eq hG s hs, Stmt.unlined]
  | .function decl, _, .function _ hdecl =>
    congrArg Stmt.function (FunctionDecl.Like.unlined_eq hG decl hdecl)
  | .giveBack _ none, _, .giveBack hword .none => by
    rw [Stmt.unlined, Disguise.unlined_eq hword, Stmt.unlined]
  | .giveBack _ (some e), _, .giveBack hword (.some he) => by
    rw [Stmt.unlined, Disguise.unlined_eq hword, Option.map_some, Expr.Like.unlined_eq hG e he,
      Stmt.unlined, Option.map_some]
  | .classDecl _ none methods, _, .classDecl _ hx .none hmethods => by
    rw [Stmt.unlined, Disguise.unlined_eq hx, FunctionDecl.AllLike.unlined_eq hG methods hmethods,
      Stmt.unlined]
  | .classDecl _ (some _) methods, _, .classDecl _ hx (.some href) hmethods => by
    rw [Stmt.unlined, Disguise.unlined_eq hx, FunctionDecl.AllLike.unlined_eq hG methods hmethods,
      Option.map_some, Reference.unlined_eq hG href, Stmt.unlined, Option.map_some]

theorem Stmt.AllLike.unlined_eq (hG : G.KeepsAll) {k : Option Nat} :
    (ss : List Stmt) → {ss' : List Stmt} → Stmt.AllLike G k ss ss' →
      Stmt.allUnlined ss' = Stmt.allUnlined ss
  | [], _, .nil => rfl
  | s :: rest, _, .cons hs hrest => by
    rw [Stmt.allUnlined, Stmt.Like.unlined_eq hG s hs, Stmt.AllLike.unlined_eq hG rest hrest,
      Stmt.allUnlined]

theorem FunctionDecl.Like.unlined_eq (hG : G.KeepsAll) {k : Option Nat} :
    (decl : FunctionDecl) → {decl' : FunctionDecl} → decl.Like G k decl' →
      decl'.unlined = decl.unlined
  | ⟨_, _, body⟩, _, .mk _ hx hparams hbody => by
    rw [FunctionDecl.unlined, Disguise.unlined_eq hx, unlined_params hG hparams,
      Stmt.AllLike.unlined_eq hG body hbody, FunctionDecl.unlined]

theorem FunctionDecl.AllLike.unlined_eq (hG : G.KeepsAll) {k : Option Nat} :
    (decls : List FunctionDecl) → {decls' : List FunctionDecl} → FunctionDecl.AllLike G k decls decls' →
      FunctionDecl.allUnlined decls' = FunctionDecl.allUnlined decls
  | [], _, .nil => rfl
  | decl :: rest, _, .cons hdecl hrest => by
    rw [FunctionDecl.allUnlined, FunctionDecl.Like.unlined_eq hG decl hdecl,
      FunctionDecl.AllLike.unlined_eq hG rest hrest, FunctionDecl.allUnlined]

end

/-- Like findings give the same distances. -/
theorem Distances.record_eq_of_like (hG : G.KeepsAll) {fs fs' : List Finding}
    (h : Finding.AllLike G fs fs') (D : Distances) : D.record fs' = D.record fs := by
  induction h generalizing D with
  | nil => rfl
  | cons hf _ ih =>
    cases hf with
    | fault => exact ih D
    | @distance id id' d scopes hplace =>
      obtain rfl := hG.place _ _ _ hplace
      exact ih (D.insert id' scopes)

end

end Treewalk
