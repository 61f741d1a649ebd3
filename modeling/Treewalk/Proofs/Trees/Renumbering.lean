import Treewalk.Proofs.Session.Rejection
import Treewalk.Proofs.Trees.Rereading

/-! Numbers left out. Trees that differ in the numbers of their occurrences and in nothing else are one
tree without the numbers. So what a parse gives does not depend on the first free number, but for the
numbers that it gives out. -/

namespace Treewalk

/-- Only numbers may differ. -/
structure Disguise.KeepsTokens (G : Disguise) : Prop where
  plain : G.Plain
  token : ∀ t t', G.token t t' → t' = t

variable {G : Disguise} {k : Option Nat}

theorem Reference.bare_eq (hG : G.KeepsTokens) {ref ref' : Reference} (h : G.Refers k ref ref') :
    ref'.bare = ref.bare := by
  rw [Reference.bare, hG.token _ _ (hG.plain.refers.mp h).2, Reference.bare]

mutual

/-- Expressions that differ in numbers only are one without them. -/
theorem Expr.Like.bare_eq (hG : G.KeepsTokens) {e e' : Expr} : e.Like G k e' → e'.bare = e.bare
  | .literal => rfl
  | .unary hop he => by rw [Expr.bare, hG.token _ _ hop, he.bare_eq hG, Expr.bare]
  | .binary hl hop hr => by
    rw [Expr.bare, hG.token _ _ hop, hl.bare_eq hG, hr.bare_eq hG, Expr.bare]
  | .logical hl hop hr => by
    rw [Expr.bare, hG.token _ _ hop, hl.bare_eq hG, hr.bare_eq hG, Expr.bare]
  | .grouping he => congrArg Expr.grouping (he.bare_eq hG)
  | .variable href => congrArg Expr.variable (Reference.bare_eq hG href)
  | .assign href he => by rw [Expr.bare, Reference.bare_eq hG href, he.bare_eq hG, Expr.bare]
  | .call he hparen hes => by
    rw [Expr.bare, hG.token _ _ hparen, he.bare_eq hG, hes.bare_eq hG, Expr.bare]
  | .get he hname => by rw [Expr.bare, hG.token _ _ hname, he.bare_eq hG, Expr.bare]
  | .set he hname hv => by
    rw [Expr.bare, hG.token _ _ hname, he.bare_eq hG, hv.bare_eq hG, Expr.bare]
  | .this href => congrArg Expr.this (Reference.bare_eq hG href)
  | .parent href hmethod => by
    rw [Expr.bare, Reference.bare_eq hG href, hG.token _ _ hmethod, Expr.bare]

theorem Expr.AllLike.bare_eq (hG : G.KeepsTokens) {es es' : List Expr} :
    Expr.AllLike G k es es' → Expr.allBare es' = Expr.allBare es
  | .nil => rfl
  | .cons he hrest => by rw [Expr.allBare, he.bare_eq hG, hrest.bare_eq hG, Expr.allBare]

end

theorem Expr.bare_eq_of_rel (hG : G.KeepsTokens) {e e' : Option Expr}
    (h : Option.Rel (Expr.Like G k) e e') : e'.map Expr.bare = e.map Expr.bare := by
  cases h with
  | none => rfl
  | some he => exact congrArg some (he.bare_eq hG)

theorem Reference.bare_eq_of_rel (hG : G.KeepsTokens) {ref ref' : Option Reference}
    (h : Option.Rel (G.Refers k) ref ref') : ref'.map Reference.bare = ref.map Reference.bare := by
  cases h with
  | none => rfl
  | some href => exact congrArg some (Reference.bare_eq hG href)

/-- The same names. -/
theorem Disguise.KeepsTokens.names_eq (hG : G.KeepsTokens) {chosen : Bool} {ts ts' : List Token}
    (h : List.Forall₂ (G.Named chosen) ts ts') : ts' = ts := by
  induction h with
  | nil => rfl
  | cons ht _ ih => rw [ih, hG.token _ _ (hG.plain.named.mp ht)]

mutual

/-- Statements that differ in numbers only are one without them. -/
theorem Stmt.Like.bare_eq (hG : G.KeepsTokens) {k : Option Nat} {s s' : Stmt} :
    s.Like G k s' → s'.bare = s.bare
  | .expression he => congrArg Stmt.expression (he.bare_eq hG)
  | .print he => congrArg Stmt.print (he.bare_eq hG)
  | .var hx he => by
    rw [Stmt.bare, hG.token _ _ (hG.plain.named.mp hx), Expr.bare_eq_of_rel hG he, Stmt.bare]
  | .block _ hss => congrArg Stmt.block (hss.bare_eq hG)
  | .branch he hs => by rw [Stmt.bare, he.bare_eq hG, hs.bare_eq hG, Stmt.bare]
  | .branchElse he hs ho => by
    rw [Stmt.bare, he.bare_eq hG, hs.bare_eq hG, ho.bare_eq hG, Stmt.bare]
  | .loop he hs => by rw [Stmt.bare, he.bare_eq hG, hs.bare_eq hG, Stmt.bare]
  | .function _ hdecl => congrArg Stmt.function (hdecl.bare_eq hG)
  | .giveBack hword he => by
    rw [Stmt.bare, hG.token _ _ hword, Expr.bare_eq_of_rel hG he, Stmt.bare]
  | .classDecl _ hx hparent hmethods => by
    rw [Stmt.bare, hG.token _ _ hx, Reference.bare_eq_of_rel hG hparent, hmethods.bare_eq hG,
      Stmt.bare]

theorem Stmt.AllLike.bare_eq (hG : G.KeepsTokens) {k : Option Nat} {ss ss' : List Stmt} :
    Stmt.AllLike G k ss ss' → Stmt.allBare ss' = Stmt.allBare ss
  | .nil => rfl
  | .cons hs hrest => by rw [Stmt.allBare, hs.bare_eq hG, hrest.bare_eq hG, Stmt.allBare]

theorem FunctionDecl.Like.bare_eq (hG : G.KeepsTokens) {k : Option Nat} {decl decl' : FunctionDecl} :
    decl.Like G k decl' → decl'.bare = decl.bare
  | .mk _ hx hparams hbody => by
    rw [FunctionDecl.bare, hG.token _ _ hx, hG.names_eq hparams, hbody.bare_eq hG,
      FunctionDecl.bare]

theorem FunctionDecl.AllLike.bare_eq (hG : G.KeepsTokens) {k : Option Nat}
    {decls decls' : List FunctionDecl} : FunctionDecl.AllLike G k decls decls' →
      FunctionDecl.allBare decls' = FunctionDecl.allBare decls
  | .nil => rfl
  | .cons hdecl hrest => by
    rw [FunctionDecl.allBare, hdecl.bare_eq hG, hrest.bare_eq hG, FunctionDecl.allBare]

end

theorem Stmt.allBare_append (ss us : List Stmt) :
    Stmt.allBare (ss ++ us) = Stmt.allBare ss ++ Stmt.allBare us := by
  induction ss with
  | nil => rfl
  | cons s rest ih => rw [List.cons_append, Stmt.allBare, ih, Stmt.allBare, List.cons_append]

/-- The first free number makes no difference to a parse, but for the numbers that are given out. -/
theorem parse_renumbered (tokens : List Token) (finish : Token) (i j : NodeId) :
    (parse tokens finish j).faults = (parse tokens finish i).faults ∧
      Stmt.allBare (parse tokens finish j).program = Stmt.allBare (parse tokens finish i).program := by
  have hG : (Disguise.counted .same i j).KeepsTokens := ⟨Disguise.plain_plain, fun _ _ => id⟩
  have hfinish : (Disguise.counted .same i j).token finish finish := rfl
  have htokens : List.Forall₂ (Disguise.counted .same i j).token tokens tokens :=
    List.forall₂_same.mpr fun _ _ => rfl
  have h := parse_alike htokens hfinish (Disguise.counts_counted _ i j)
  have hfaults : List.Forall₂ Eq (parse tokens finish i).faults (parse tokens finish j).faults :=
    h.faults.imp fun _ _ hd => (Diagnostic.Like.eq hd).symm
  exact ⟨(List.forall₂_eq_eq_eq ▸ hfaults).symm, h.program.bare_eq hG⟩

end Treewalk
