import Treewalk.Proofs.Grammar.Alike
import Treewalk.Resolution

/-! Resolving like programs. Where no name changes, the same is found in like trees: the same
distances, of occurrences that stand for each other, and the same misuses at like tokens. -/

namespace Treewalk

/-- The same finding, but for the disguise. -/
inductive Finding.Like (G : Disguise) : Finding → Finding → Prop
  | distance {id id' d scopes} : G.place id id' d →
    Like G (.distance id scopes) (.distance id' scopes)
  | fault {t t' fault} : G.token t t' → Like G (.fault t fault) (.fault t' fault)

/-- The same findings, but for the disguise. -/
abbrev Finding.AllLike (G : Disguise) : List Finding → List Finding → Prop :=
  List.Forall₂ (Finding.Like G)

section
variable {G : Disguise} {ctx : Context} {k : Option Nat}

theorem Finding.AllLike.append {fs fs' gs gs' : List Finding} (hfs : Finding.AllLike G fs fs')
    (hgs : Finding.AllLike G gs gs') : Finding.AllLike G (fs ++ gs) (fs' ++ gs') :=
  List.rel_append hfs hgs

/-- A misuse that is found under a condition. -/
theorem Finding.AllLike.ite {p : Prop} [Decidable p] {t t' : Token} (ht : G.token t t')
    (fault : ResolveFault) : Finding.AllLike G (if p then [.fault t fault] else [])
      (if p then [.fault t' fault] else []) := by
  split
  · exact .cons (.fault ht) .nil
  · exact .nil

theorem Disguise.ofMethod_eq {t t' : Token} (h : G.token t t') :
    FunctionContext.ofMethod t' = .ofMethod t := by
  rw [FunctionContext.ofMethod, G.lexeme_eq h, FunctionContext.ofMethod]

theorem Token.like_duplicate {t t' : Token} (ht : G.token t t') :
    Finding.AllLike G (t.duplicate ctx) (t'.duplicate ctx) := by
  unfold Token.duplicate
  rw [G.lexeme_eq ht]
  exact .ite ht _

/-- The misuses are the same, too. -/
theorem Finding.AllLike.misuses {fs fs' : List Finding} (h : Finding.AllLike G fs fs') :
    List.Forall₂ (Diagnostic.Like G.token) (Treewalk.misuses fs) (Treewalk.misuses fs') := by
  induction h with
  | nil => exact .nil
  | cons hf _ ih =>
    cases hf with
    | distance _ => exact ih
    | fault ht => exact .cons (.resolve ht) ih

theorem Reference.like_locate (hG : G.Plain) {ref ref' : Reference} (href : G.Refers k ref ref') :
    Finding.AllLike G (ref.locate ctx) (ref'.locate ctx) := by
  obtain ⟨⟨d, hplace⟩, hname⟩ := hG.refers.mp href
  unfold Reference.locate
  rw [G.lexeme_eq hname]
  split
  · exact .cons (.distance hplace) .nil
  · exact .nil

theorem Reference.like_read (hG : G.Plain) {pending : Option String} {ref ref' : Reference}
    (href : G.Refers k ref ref') :
    Finding.AllLike G (ref.read ctx pending) (ref'.read ctx pending) := by
  have hname := (hG.refers.mp href).2
  unfold Reference.read
  rw [G.lexeme_eq hname]
  exact (Finding.AllLike.ite hname _).append (Reference.like_locate hG href)

mutual

theorem Expr.like_findings (hG : G.Plain) (pending : Option String) : (e : Expr) → {e' : Expr} → e.Like G k e' →
    Finding.AllLike G (e.findings ctx pending) (e'.findings ctx pending)
  | .literal _, _, .literal => .nil
  | .unary _ e, _, .unary _ he => (Expr.like_findings hG pending e he :)
  | .binary l _ r, _, .binary hl _ hr =>
    (Expr.like_findings hG pending l hl).append (Expr.like_findings hG pending r hr)
  | .logical l _ r, _, .logical hl _ hr =>
    (Expr.like_findings hG pending l hl).append (Expr.like_findings hG pending r hr)
  | .grouping e, _, .grouping he => (Expr.like_findings hG pending e he :)
  | .variable _, _, .variable href => Reference.like_read hG href
  | .assign _ e, _, .assign href he =>
    (Expr.like_findings hG pending e he).append (Reference.like_locate hG href)
  | .call e _ es, _, .call he _ hes =>
    (Expr.like_findings hG pending e he).append (Expr.like_allFindings hG pending es hes)
  | .get e _, _, .get he _ => (Expr.like_findings hG pending e he :)
  | .set e _ v, _, .set he _ hv =>
    (Expr.like_findings hG pending v hv).append (Expr.like_findings hG pending e he)
  | .this _, _, .this href => by
    rw [Expr.findings, Expr.findings]
    split
    · exact .cons (.fault (hG.refers.mp href).2) .nil
    · exact Reference.like_locate hG href
  | .parent _ _, _, .parent href _ => by
    rw [Expr.findings, Expr.findings]
    refine .append ?_ (Reference.like_locate hG href)
    split
    · exact .cons (.fault (hG.refers.mp href).2) .nil
    · exact .cons (.fault (hG.refers.mp href).2) .nil
    · exact .nil

theorem Expr.like_allFindings (hG : G.Plain) (pending : Option String) : (es : List Expr) → {es' : List Expr} →
    Expr.AllLike G k es es' →
    Finding.AllLike G (Expr.allFindings ctx pending es) (Expr.allFindings ctx pending es')
  | [], _, .nil => .nil
  | e :: rest, _, .cons he hrest =>
    (Expr.like_findings hG pending e he).append (Expr.like_allFindings hG pending rest hrest)

end

/-- Like statements declare the same name. -/
theorem Stmt.Like.after (hG : G.Plain) {s s' : Stmt} (h : s.Like G k s') : ctx.after s' = ctx.after s := by
  cases h with
  | var hx _ => exact congrArg ctx.define (G.lexeme_eq (hG.named.mp hx))
  | function _ hdecl => exact congrArg ctx.define (G.lexeme_eq hdecl.name)
  | classDecl _ hx => exact congrArg ctx.define (G.lexeme_eq hx)
  | _ => rfl

theorem like_parameterFindings (hG : G.Plain) {params params' : List Token} {chosen : Bool}
    (h : List.Forall₂ (G.Named chosen) params params') :
    Finding.AllLike G (parameterFindings ctx params) (parameterFindings ctx params') := by
  induction h generalizing ctx with
  | nil => exact .nil
  | cons hp _ ih =>
    have hp := hG.named.mp hp
    rw [parameterFindings, parameterFindings, G.lexeme_eq hp]
    exact (Token.like_duplicate hp).append ih

theorem Context.body_eq (hG : G.Plain) {params params' : List Token} {chosen : Bool}
    (h : List.Forall₂ (G.Named chosen) params params') (kind : FunctionContext) :
    ctx.body kind params' = ctx.body kind params := by
  unfold Context.body
  generalize { ctx.enter with function := kind } = inner
  induction h generalizing inner with
  | nil => rfl
  | cons hp _ ih =>
    rw [List.foldl_cons, List.foldl_cons, G.lexeme_eq (hG.named.mp hp)]
    exact ih _

theorem like_parentFindings (hG : G.Plain) {name name' : Token} {parent parent' : Reference}
    (hname : G.token name name') (hparent : G.Refers k parent parent') :
    Finding.AllLike G (parentFindings ctx name parent) (parentFindings ctx name' parent') := by
  have hparentName := (hG.refers.mp hparent).2
  unfold parentFindings
  rw [G.lexeme_eq hname, G.lexeme_eq hparentName]
  exact (Finding.AllLike.ite hparentName _).append (Reference.like_read hG hparent)

mutual

theorem Stmt.like_findings (hG : G.Plain) {ctx : Context} {k : Option Nat} : (s : Stmt) → {s' : Stmt} →
    s.Like G k s' → Finding.AllLike G (s.findings ctx) (s'.findings ctx)
  | .expression e, _, .expression he => Expr.like_findings hG none e he
  | .print e, _, .print he => Expr.like_findings hG none e he
  | .var _ none, _, .var hx .none => Token.like_duplicate (hG.named.mp hx)
  | .var _ (some e), _, .var hx (.some he) => by
    have hx := hG.named.mp hx
    rw [Stmt.findings, Stmt.findings, G.lexeme_eq hx]
    exact (Token.like_duplicate hx).append (Expr.like_findings hG _ e he)
  | .block ss, _, .block _ hss => Stmt.like_allFindings hG ss hss
  | .branch e s none, _, .branch he hs =>
    (Expr.like_findings hG none e he).append (Stmt.like_findings hG s hs)
  | .branch e s (some o), _, .branchElse he hs ho =>
    ((Expr.like_findings hG none e he).append (Stmt.like_findings hG s hs)).append
      (Stmt.like_findings hG o ho)
  | .loop e s, _, .loop he hs =>
    (Expr.like_findings hG none e he).append (Stmt.like_findings hG s hs)
  | .function decl, _, .function _ hdecl => by
    rw [Stmt.findings, Stmt.findings, G.lexeme_eq hdecl.name]
    exact (Token.like_duplicate hdecl.name).append (FunctionDecl.like_findings hG decl hdecl)
  | .giveBack _ none, _, .giveBack hword .none => by
    rw [Stmt.findings, Stmt.findings]
    exact .append (.ite hword _) .nil
  | .giveBack _ (some e), _, .giveBack hword (.some he) => by
    rw [Stmt.findings, Stmt.findings]
    exact .append (.ite hword _) (.append (.ite hword _) (Expr.like_findings hG none e he))
  | .classDecl _ none methods, _, .classDecl _ hx .none hmethods => by
    rw [Stmt.findings, Stmt.findings, G.lexeme_eq hx]
    exact ((Token.like_duplicate hx).append .nil).append
      (FunctionDecl.like_methodFindings hG methods hmethods)
  | .classDecl _ (some _) methods, _, .classDecl _ hx (.some href) hmethods => by
    rw [Stmt.findings, Stmt.findings, G.lexeme_eq hx]
    exact ((Token.like_duplicate hx).append (like_parentFindings hG hx href)).append
      (FunctionDecl.like_methodFindings hG methods hmethods)

theorem Stmt.like_allFindings (hG : G.Plain) {ctx : Context} {k : Option Nat} : (ss : List Stmt) →
    {ss' : List Stmt} → Stmt.AllLike G k ss ss' →
    Finding.AllLike G (Stmt.allFindings ctx ss) (Stmt.allFindings ctx ss')
  | [], _, .nil => .nil
  | s :: rest, _, .cons hs hrest => by
    rw [Stmt.allFindings, Stmt.allFindings, hs.after hG]
    exact (Stmt.like_findings hG s hs).append (Stmt.like_allFindings hG rest hrest)

theorem FunctionDecl.like_findings (hG : G.Plain) {ctx : Context} {k : Option Nat} {kind : FunctionContext} :
    (decl : FunctionDecl) → {decl' : FunctionDecl} → decl.Like G k decl' →
    Finding.AllLike G (decl.findings ctx kind) (decl'.findings ctx kind)
  | ⟨_, _, body⟩, _, .mk _ _ hparams hbody => by
    rw [FunctionDecl.findings, FunctionDecl.findings, Context.body_eq hG hparams]
    exact (like_parameterFindings hG hparams).append (Stmt.like_allFindings hG body hbody)

theorem FunctionDecl.like_methodFindings (hG : G.Plain) {ctx : Context} {k : Option Nat} :
    (decls : List FunctionDecl) → {decls' : List FunctionDecl} →
    FunctionDecl.AllLike G k decls decls' →
    Finding.AllLike G (FunctionDecl.methodFindings ctx decls)
      (FunctionDecl.methodFindings ctx decls')
  | [], _, .nil => .nil
  | decl :: rest, _, .cons hdecl hrest => by
    rw [FunctionDecl.methodFindings, FunctionDecl.methodFindings, G.ofMethod_eq hdecl.name]
    exact (FunctionDecl.like_findings hG decl hdecl).append
      (FunctionDecl.like_methodFindings hG rest hrest)

end

/-- The same is found in like programs. -/
theorem Program.like_findings (hG : G.Plain) {p p' : Program} (h : Stmt.AllLike G none p p') :
    Finding.AllLike G p.findings p'.findings :=
  Stmt.like_allFindings hG p h

end

end Treewalk
