import Treewalk.SyntaxJson

/-! The document of a tree determines the tree: sorts have different names, and the parts of one sort
stand in one order. -/

namespace Treewalk

theorem Document.single_inj {name name' : String} {value value' : Document} :
    single name value = single name' value' ↔ name = name' ∧ value = value' := by
  simp [single]

theorem Member.cons_inj {name name' : String} {value value' : Document} {rest rest' : List Member} :
    (⟨name, value⟩ :: rest : List Member) = ⟨name', value'⟩ :: rest' ↔
      (name = name' ∧ value = value') ∧ rest = rest' := by
  rw [List.cons.injEq, Member.mk.injEq]

theorem Document.node_inj {sort sort' : String} {parts parts' : List Member} :
    node sort parts = node sort' parts' ↔ sort = sort' ∧ parts = parts' := by
  simp [node, single_inj]

/-- An optional part can be told if the parts can, and none of them is null. -/
theorem Document.ofOption_inj {α : Type} {encode : α → Document} {a a' : Option α}
    (hnull : ∀ x, encode x ≠ .null) (hencode : ∀ x x', encode x = encode x' → x = x')
    (h : ofOption encode a = ofOption encode a') : a = a' := by
  cases a with
  | none =>
    cases a' with
    | none => rfl
    | some x' => exact absurd h.symm (hnull x')
  | some x =>
    cases a' with
    | none => exact absurd h (hnull x)
    | some x' => rw [hencode x x' h]

theorem Terminal.name_inj {t t' : Terminal} (h : t.name = t'.name) : t = t' := by
  have hname := ofName?_name t
  rw [h, ofName?_name] at hname
  exact (Option.some.inj hname).symm

/-- A class without a value is written as its name. -/
theorem Kind.json_eq (k : Kind) :
    (∃ contents, k = .string contents) ∨ (∃ value, k = .number value) ∨
      k = .ofTerminal k.terminal ∧ k.json = .string k.terminal.name := by
  cases k with
  | string contents => exact .inl ⟨contents, rfl⟩
  | number value => exact .inr (.inl ⟨value, rfl⟩)
  | punct p => exact .inr (.inr ⟨rfl, rfl⟩)
  | keyword k => exact .inr (.inr ⟨rfl, rfl⟩)
  | identifier => exact .inr (.inr ⟨rfl, rfl⟩)
  | eof => exact .inr (.inr ⟨rfl, rfl⟩)

theorem Kind.json_inj {k k' : Kind} (h : k.json = k'.json) : k = k' := by
  obtain ⟨contents, rfl⟩ | ⟨value, rfl⟩ | ⟨hk, hjson⟩ := k.json_eq
  · obtain ⟨contents', rfl⟩ | ⟨value', rfl⟩ | ⟨-, hjson'⟩ := k'.json_eq
    · simpa [json, Document.single_inj] using h
    · simp [json, Document.single_inj] at h
    · rw [hjson'] at h
      cases h
  · obtain ⟨contents', rfl⟩ | ⟨value', rfl⟩ | ⟨-, hjson'⟩ := k'.json_eq
    · simp [json, Document.single_inj] at h
    · simpa [json, Document.single_inj] using h
    · rw [hjson'] at h
      cases h
  · obtain ⟨contents', rfl⟩ | ⟨value', rfl⟩ | ⟨hk', hjson'⟩ := k'.json_eq
    · rw [hjson] at h
      cases h
    · rw [hjson] at h
      cases h
    · rw [hjson, hjson', Document.string.injEq] at h
      rw [hk, hk', Terminal.name_inj h]

theorem Token.json_inj {t t' : Token} (h : t.json = t'.json) : t = t' := by
  obtain ⟨kind, lexeme, line⟩ := t
  obtain ⟨kind', lexeme', line'⟩ := t'
  simp only [json, Document.object.injEq, Document.string.injEq, Document.natural.injEq,
    Member.cons_inj, true_and, and_true] at h
  obtain ⟨hkind, rfl, rfl⟩ := h
  rw [Kind.json_inj hkind]

theorem Token.jsons_inj {ts ts' : List Token} (h : ts.map Token.json = ts'.map Token.json) :
    ts = ts' :=
  (List.map_inj_right fun _ _ => json_inj).mp h

theorem Literal.json_inj {v v' : Literal} (h : v.json = v'.json) : v = v' := by
  cases v with
  | number x => cases v' with
    | number x' => simpa [json, Document.single_inj] using h
    | bool b => cases b <;> cases h
    | _ => simp [json, Document.single] at h
  | string s => cases v' with
    | string s' => simpa [json, Document.single_inj] using h
    | bool b => cases b <;> cases h
    | _ => simp [json, Document.single] at h
  | bool b => cases v' with
    | bool b' => cases b <;> cases b' <;> first | rfl | simp [json] at h
    | _ => cases b <;> simp [json, Document.single] at h
  | null => cases v' with
    | null => rfl
    | bool b => cases b <;> simp [json] at h
    | _ => simp [json, Document.single] at h

theorem Reference.json_inj {ref ref' : Reference} (h : ref.json = ref'.json) : ref = ref' := by
  obtain ⟨id, name⟩ := ref
  obtain ⟨id', name'⟩ := ref'
  simp only [json, Document.single_inj, Document.object.injEq, Document.natural.injEq,
    Member.cons_inj, true_and, and_true] at h
  obtain ⟨rfl, hname⟩ := h
  rw [Token.json_inj hname]

theorem Expr.json_ne_null (e : Expr) : e.json ≠ .null := by
  cases e <;> simp [json, Reference.json, Document.node, Document.single]

theorem Stmt.json_branch (condition : Expr) (whenTrue : Stmt) (whenFalse : Option Stmt) :
    (branch condition whenTrue whenFalse).json = .node "If"
      [⟨"condition", condition.json⟩, ⟨"then_branch", whenTrue.json⟩,
        ⟨"else_branch", .ofOption Stmt.json whenFalse⟩] := by
  cases whenFalse <;> simp [json, Document.ofOption]

theorem Stmt.json_ne_null (s : Stmt) : s.json ≠ .null := by
  cases s <;> simp [json_branch, json, Document.node, Document.single]

mutual

/-- The document of an expression determines it. -/
theorem Expr.json_inj : (e : Expr) → {e' : Expr} → e.json = e'.json → e = e'
  | .literal value, e', h => by
    cases e' with
    | literal value' =>
      simp only [json, Document.single_inj, true_and] at h
      rw [Literal.json_inj h]
    | _ => simp [json, Reference.json, Document.node, Document.single_inj] at h
  | .unary operator operand, e', h => by
    cases e' with
    | unary operator' operand' =>
      simp only [json, Document.node_inj, Member.cons_inj, true_and, and_true] at h
      obtain ⟨hoperator, hoperand⟩ := h
      rw [Token.json_inj hoperator, operand.json_inj hoperand]
    | _ => simp [json, Reference.json, Document.node, Document.single_inj] at h
  | .binary left operator right, e', h => by
    cases e' with
    | binary left' operator' right' =>
      simp only [json, Document.node_inj, Member.cons_inj, true_and, and_true] at h
      obtain ⟨hleft, hoperator, hright⟩ := h
      rw [left.json_inj hleft, Token.json_inj hoperator, right.json_inj hright]
    | _ => simp [json, Reference.json, Document.node, Document.single_inj] at h
  | .logical left operator right, e', h => by
    cases e' with
    | logical left' operator' right' =>
      simp only [json, Document.node_inj, Member.cons_inj, true_and, and_true] at h
      obtain ⟨hleft, hoperator, hright⟩ := h
      rw [left.json_inj hleft, Token.json_inj hoperator, right.json_inj hright]
    | _ => simp [json, Reference.json, Document.node, Document.single_inj] at h
  | .grouping inner, e', h => by
    cases e' with
    | grouping inner' =>
      simp only [json, Document.single_inj, true_and] at h
      rw [inner.json_inj h]
    | _ => simp [json, Reference.json, Document.node, Document.single_inj] at h
  | .variable target, e', h => by
    cases e' with
    | «variable» target' =>
      rw [Reference.json_inj h]
    | _ => simp [json, Reference.json, Document.node, Document.single_inj] at h
  | .assign ⟨id, name⟩ value, e', h => by
    cases e' with
    | assign target' value' =>
      simp only [json, Document.node_inj, Document.natural.injEq, Member.cons_inj,
        true_and, and_true] at h
      obtain ⟨hid, hname, hvalue⟩ := h
      rw [hid, Token.json_inj hname, value.json_inj hvalue]
    | _ => simp [json, Reference.json, Document.node, Document.single_inj] at h
  | .call callee paren arguments, e', h => by
    cases e' with
    | call callee' paren' arguments' =>
      simp only [json, Document.node_inj, Document.array.injEq, Member.cons_inj,
        true_and, and_true] at h
      obtain ⟨hcallee, hparen, harguments⟩ := h
      rw [callee.json_inj hcallee, Token.json_inj hparen, Expr.jsons_inj arguments harguments]
    | _ => simp [json, Reference.json, Document.node, Document.single_inj] at h
  | .get object name, e', h => by
    cases e' with
    | get object' name' =>
      simp only [json, Document.node_inj, Member.cons_inj, true_and, and_true] at h
      obtain ⟨hobject, hname⟩ := h
      rw [object.json_inj hobject, Token.json_inj hname]
    | _ => simp [json, Reference.json, Document.node, Document.single_inj] at h
  | .set object name value, e', h => by
    cases e' with
    | set object' name' value' =>
      simp only [json, Document.node_inj, Member.cons_inj, true_and, and_true] at h
      obtain ⟨hobject, hname, hvalue⟩ := h
      rw [object.json_inj hobject, Token.json_inj hname, value.json_inj hvalue]
    | _ => simp [json, Reference.json, Document.node, Document.single_inj] at h
  | .this ⟨id, keyword⟩, e', h => by
    cases e' with
    | this receiver' =>
      simp only [json, Document.node_inj, Document.natural.injEq, Member.cons_inj,
        true_and, and_true] at h
      obtain ⟨hid, hkeyword⟩ := h
      rw [hid, Token.json_inj hkeyword]
    | _ => simp [json, Reference.json, Document.node, Document.single_inj] at h
  | .parent ⟨id, keyword⟩ method, e', h => by
    cases e' with
    | parent keyword' method' =>
      simp only [json, Document.node_inj, Document.natural.injEq, Member.cons_inj,
        true_and, and_true] at h
      obtain ⟨hid, hkeyword, hmethod⟩ := h
      rw [hid, Token.json_inj hkeyword, Token.json_inj hmethod]
    | _ => simp [json, Reference.json, Document.node, Document.single_inj] at h

theorem Expr.jsons_inj : (es : List Expr) → {es' : List Expr} →
    Expr.jsons es = Expr.jsons es' → es = es'
  | [], es', h => by
    cases es' with
    | nil => rfl
    | cons => cases h
  | e :: rest, es', h => by
    cases es' with
    | nil => cases h
    | cons e' rest' =>
      obtain ⟨hfirst, hrest⟩ := List.cons.inj h
      rw [e.json_inj hfirst, Expr.jsons_inj rest hrest]

end

theorem Expr.option_inj {e e' : Option Expr}
    (h : Document.ofOption Expr.json e = Document.ofOption Expr.json e') : e = e' :=
  Document.ofOption_inj json_ne_null (fun e _ => e.json_inj) h

theorem Reference.option_inj {ref ref' : Option Reference}
    (h : Document.ofOption Reference.json ref = Document.ofOption Reference.json ref') : ref = ref' :=
  Document.ofOption_inj (fun _ => Document.noConfusion) (fun _ _ => json_inj) h

mutual

theorem FunctionDecl.json_inj : (decl : FunctionDecl) → {decl' : FunctionDecl} →
    decl.json = decl'.json → decl = decl'
  | ⟨name, params, body⟩, ⟨name', params', body'⟩, h => by
    simp only [FunctionDecl.json, Document.object.injEq, Document.array.injEq, Member.cons_inj,
      true_and, and_true] at h
    obtain ⟨hname, hparams, hbody⟩ := h
    rw [Token.json_inj hname, Token.jsons_inj hparams, Stmt.jsons_inj body hbody]

theorem FunctionDecl.jsons_inj : (decls : List FunctionDecl) → {decls' : List FunctionDecl} →
    FunctionDecl.jsons decls = FunctionDecl.jsons decls' → decls = decls'
  | [], decls', h => by
    cases decls' with
    | nil => rfl
    | cons => cases h
  | decl :: rest, decls', h => by
    cases decls' with
    | nil => cases h
    | cons decl' rest' =>
      obtain ⟨hfirst, hrest⟩ := List.cons.inj h
      rw [decl.json_inj hfirst, FunctionDecl.jsons_inj rest hrest]

/-- The document of a statement determines it. -/
theorem Stmt.json_inj : (s : Stmt) → {s' : Stmt} → s.json = s'.json → s = s'
  | .expression value, s', h => by
    cases s' with
    | expression value' =>
      simp only [Stmt.json, Document.single_inj, true_and] at h
      rw [value.json_inj h]
    | _ => simp [Stmt.json_branch, Stmt.json, Document.node, Document.single_inj] at h
  | .print value, s', h => by
    cases s' with
    | print value' =>
      simp only [Stmt.json, Document.single_inj, true_and] at h
      rw [value.json_inj h]
    | _ => simp [Stmt.json_branch, Stmt.json, Document.node, Document.single_inj] at h
  | .var name initial, s', h => by
    cases s' with
    | var name' initial' =>
      simp only [Stmt.json, Document.node_inj, Member.cons_inj, true_and, and_true] at h
      obtain ⟨hname, hinitial⟩ := h
      rw [Token.json_inj hname, Expr.option_inj hinitial]
    | _ => simp [Stmt.json_branch, Stmt.json, Document.node, Document.single_inj] at h
  | .block body, s', h => by
    cases s' with
    | block body' =>
      simp only [Stmt.json, Document.single_inj, Document.array.injEq, true_and] at h
      rw [Stmt.jsons_inj body h]
    | _ => simp [Stmt.json_branch, Stmt.json, Document.node, Document.single_inj] at h
  | .branch condition whenTrue none, s', h => by
    cases s' with
    | branch condition' whenTrue' whenFalse' =>
      simp only [Stmt.json_branch, Document.node_inj, Member.cons_inj, true_and, and_true] at h
      obtain ⟨hcondition, htrue, hfalse⟩ := h
      cases whenFalse' with
      | none => rw [condition.json_inj hcondition, whenTrue.json_inj htrue]
      | some whenFalse' => exact absurd hfalse.symm whenFalse'.json_ne_null
    | _ => simp [Stmt.json, Document.node, Document.single_inj] at h
  | .branch condition whenTrue (some whenFalse), s', h => by
    cases s' with
    | branch condition' whenTrue' whenFalse' =>
      simp only [Stmt.json_branch, Document.node_inj, Member.cons_inj, true_and, and_true] at h
      obtain ⟨hcondition, htrue, hfalse⟩ := h
      cases whenFalse' with
      | none => exact absurd hfalse whenFalse.json_ne_null
      | some whenFalse' =>
        rw [condition.json_inj hcondition, whenTrue.json_inj htrue, whenFalse.json_inj hfalse]
    | _ => simp [Stmt.json, Document.node, Document.single_inj] at h
  | .loop condition body, s', h => by
    cases s' with
    | loop condition' body' =>
      simp only [Stmt.json, Document.node_inj, Member.cons_inj, true_and, and_true] at h
      obtain ⟨hcondition, hbody⟩ := h
      rw [condition.json_inj hcondition, body.json_inj hbody]
    | _ => simp [Stmt.json_branch, Stmt.json, Document.node, Document.single_inj] at h
  | .function decl, s', h => by
    cases s' with
    | function decl' =>
      simp only [Stmt.json, Document.single_inj, true_and] at h
      rw [decl.json_inj h]
    | _ => simp [Stmt.json_branch, Stmt.json, Document.node, Document.single_inj] at h
  | .giveBack keyword value, s', h => by
    cases s' with
    | giveBack keyword' value' =>
      simp only [Stmt.json, Document.node_inj, Member.cons_inj, true_and, and_true] at h
      obtain ⟨hkeyword, hvalue⟩ := h
      rw [Token.json_inj hkeyword, Expr.option_inj hvalue]
    | _ => simp [Stmt.json_branch, Stmt.json, Document.node, Document.single_inj] at h
  | .classDecl name parent methods, s', h => by
    cases s' with
    | classDecl name' parent' methods' =>
      simp only [Stmt.json, Document.node_inj, Document.array.injEq, Member.cons_inj,
        true_and, and_true] at h
      obtain ⟨hname, hparent, hmethods⟩ := h
      rw [Token.json_inj hname, Reference.option_inj hparent, FunctionDecl.jsons_inj methods hmethods]
    | _ => simp [Stmt.json_branch, Stmt.json, Document.node, Document.single_inj] at h

theorem Stmt.jsons_inj : (ss : List Stmt) → {ss' : List Stmt} →
    Stmt.jsons ss = Stmt.jsons ss' → ss = ss'
  | [], ss', h => by
    cases ss' with
    | nil => rfl
    | cons => cases h
  | s :: rest, ss', h => by
    cases ss' with
    | nil => cases h
    | cons s' rest' =>
      obtain ⟨hfirst, hrest⟩ := List.cons.inj h
      rw [s.json_inj hfirst, Stmt.jsons_inj rest hrest]

end

/-- The document of a program determines it. -/
theorem Program.json_inj {p q : Program} (h : p.json = q.json) : p = q :=
  Stmt.jsons_inj p (Document.array.inj h)

end Treewalk
