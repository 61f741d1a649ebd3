import Treewalk.Proofs.Grammar.Parsing

/-! The parser's rules run forwards. Each lemma takes one rule, or one choice of a rule, past tokens
that are known, and leaves the cursor behind them. -/

namespace Treewalk

namespace Cursor

variable {c : Cursor} {a : Terminal} {t : Token} {us : List Token} {i : NodeId}

@[simp] theorem faces_rewind_cons : (c.rewind (t :: us) i).Faces a ↔ t.terminal = a := by
  simp [Faces]

@[simp] theorem faces_rewind_nil : (c.rewind [] i).Faces a ↔ c.Faces a := Iff.rfl

theorem not_faces_of_end (hend : c.ahead = []) : ¬c.Faces a := by
  simp [Faces, hend]

theorem rewind_append (c : Cursor) (ts us : List Token) (i j : NodeId) :
    c.rewind (ts ++ us) i = (c.rewind us j).rewind ts i :=
  (c.rewind_rewind ts us i j).symm

/-- At most one class of token is next. -/
theorem Faces.unique {b : Terminal} (ha : c.Faces a) (hb : c.Faces b) : a = b :=
  Option.some.inj (ha.symm.trans hb)

theorem not_faces_rewind {as : List Terminal} (ht : t.terminal ∈ as) (ha : a ∉ as) :
    ¬(c.rewind (t :: us) i).Faces a :=
  fun hface => ha (faces_rewind_cons.mp hface ▸ ht)

end Cursor

namespace Rule

variable {α : Type} {c : Cursor} {t : Token} {us : List Token} {i : NodeId}

theorem acceptAny_none {as : List Terminal} (h : ∀ a ∈ as, ¬c.Faces a) :
    acceptAny as c = .ok none c := by
  rw [acceptAny_apply]
  cases hahead : c.ahead with
  | nil => rfl
  | cons t us => exact if_neg fun hmem => h _ hmem (by simp [Cursor.Faces, hahead])

theorem acceptAny_rewind (as : List Terminal) :
    acceptAny as (c.rewind (t :: us) i) =
      if t.terminal ∈ as then .ok (some t) (c.rewind us i) else .ok none (c.rewind (t :: us) i) := by
  simp [acceptAny_apply, Cursor.rewind]

theorem accept_none {a : Terminal} (h : ¬c.Faces a) : accept a c = .ok none c :=
  acceptAny_none (by simpa using h)

theorem accept_rewind (a : Terminal) :
    accept a (c.rewind (t :: us) i) =
      if t.terminal = a then .ok (some t) (c.rewind us i) else .ok none (c.rewind (t :: us) i) := by
  simp [accept, acceptAny_rewind]

theorem acceptPunct_none {p : Punct} (h : ¬c.Faces (.punct p)) :
    acceptPunct p c = .ok false c := by
  rw [acceptPunct, bind_of_ok (accept_none h)]
  rfl

theorem acceptPunct_rewind (p : Punct) :
    acceptPunct p (c.rewind (t :: us) i) =
      if t.terminal = .punct p then .ok true (c.rewind us i)
      else .ok false (c.rewind (t :: us) i) := by
  unfold acceptPunct
  by_cases h : t.terminal = .punct p
  · rw [bind_of_ok (by rw [accept_rewind, if_pos h]), if_pos h]
    rfl
  · rw [bind_of_ok (by rw [accept_rewind, if_neg h]), if_neg h]
    rfl

theorem expect_rewind {a : Terminal} {fault : ParseFault} (h : t.terminal = a) :
    expect a fault (c.rewind (t :: us) i) = .ok t (c.rewind us i) := by
  rw [expect, bind_of_ok (by rw [accept_rewind, if_pos h])]
  rfl

theorem expectPunct_rewind {p : Punct} {fault : ParseFault} (h : t.terminal = .punct p) :
    expectPunct p fault (c.rewind (t :: us) i) = .ok t (c.rewind us i) :=
  expect_rewind h

theorem skip_rewind : skip (c.rewind (t :: us) i) = .ok ⟨⟩ (c.rewind us i) := rfl

theorem whenNot_none {a : Terminal} {rule : Rule α} (h : c.Faces a) :
    whenNot a rule c = .ok none c := by
  rw [whenNot, bind_of_ok (check_apply a c)]
  simp [h]

theorem whenNot_some {a : Terminal} {rule : Rule α} {x : α} {c' : Cursor} (h : ¬c.Faces a)
    (hrule : rule c = .ok x c') : whenNot a rule c = .ok (some x) c' := by
  rw [whenNot, bind_of_ok (check_apply a c)]
  simp only [h, decide_false, Bool.false_eq_true, if_false]
  rw [bind_of_ok hrule]
  rfl

variable {n : Nat} {c₀ c₁ c₂ c₃ : Cursor} {e left : Expr} {levels : List Level}

theorem expression_value (h : operation n Level.all c₀ = .ok e c) (hend : ¬c.Faces (.punct .equal)) :
    expression (n + 1) c₀ = .ok e c := by
  rw [expression, bind_of_ok h, bind_of_ok (accept_none hend)]
  rfl

theorem expression_assignment {eq : Token} {v e' : Expr} (heq : eq.terminal = .punct .equal)
    (h : operation n Level.all c₀ = .ok e (c₁.rewind (eq :: us) i))
    (hv : expression n (c₁.rewind us i) = .ok v c₂) (hassign : assignment e eq v c₂ = .ok e' c) :
    expression (n + 1) c₀ = .ok e' c := by
  rw [expression, bind_of_ok h, bind_of_ok (by rw [accept_rewind, if_pos heq])]
  dsimp only
  rw [bind_of_ok hv, hassign]

theorem operation_level {level : Level} (hleft : operation n levels c₀ = .ok left c₁)
    (h : operations n level levels left c₁ = .ok e c) :
    operation (n + 1) (level :: levels) c₀ = .ok e c := by
  rw [operation, bind_of_ok hleft, h]

theorem operations_none {level : Level} (h : ∀ a ∈ level.operators, ¬c.Faces a) :
    operations (n + 1) level levels e c = .ok e c := by
  rw [operations, bind_of_ok (acceptAny_none h)]
  rfl

theorem operations_some {level : Level} {op : Token} {right : Expr}
    (hop : op.terminal ∈ level.operators)
    (hright : operation n levels (c₀.rewind us i) = .ok right c₁)
    (h : operations n level levels (level.node left op right) c₁ = .ok e c) :
    operations (n + 1) level levels left (c₀.rewind (op :: us) i) = .ok e c := by
  rw [operations, bind_of_ok (by rw [acceptAny_rewind, if_pos hop])]
  dsimp only
  rw [bind_of_ok hright, h]

theorem unary_sign {op : Token} (hop : op.terminal ∈ [.punct .bang, .punct .minus])
    (h : unary n (c₀.rewind us i) = .ok e c) :
    unary (n + 1) (c₀.rewind (op :: us) i) = .ok (.unary op e) c := by
  rw [unary, bind_of_ok (by rw [acceptAny_rewind, if_pos hop])]
  dsimp only
  rw [bind_of_ok h]
  rfl

theorem unary_operand {callee : Expr} (hop : ∀ a ∈ [.punct .bang, .punct .minus], ¬c₀.Faces a)
    (hcallee : primary n c₀ = .ok callee c₁) (h : calls n callee c₁ = .ok e c) :
    unary (n + 1) c₀ = .ok e c := by
  rw [unary, bind_of_ok (acceptAny_none hop)]
  dsimp only
  rw [bind_of_ok hcallee, h]

theorem calls_none (hparen : ¬c.Faces (.punct .leftParen)) (hdot : ¬c.Faces (.punct .dot)) :
    calls (n + 1) e c = .ok e c := by
  rw [calls, bind_of_ok (acceptPunct_none hparen)]
  rw [if_neg (by decide), bind_of_ok (acceptPunct_none hdot)]
  rfl

theorem calls_call {callee : Expr} {lp rp : Token} {found : Option (List Expr)} {vs : List Token}
    {j : NodeId}
    (hlp : lp.terminal = .punct .leftParen)
    (hargs : whenNot (.punct .rightParen) (arguments n 0) (c₀.rewind us i) =
      .ok found (c₁.rewind (rp :: vs) j))
    (hrp : rp.terminal = .punct .rightParen)
    (h : calls n (.call callee rp (found.getD [])) (c₁.rewind vs j) = .ok e c) :
    calls (n + 1) callee (c₀.rewind (lp :: us) i) = .ok e c := by
  rw [calls, bind_of_ok (by rw [acceptPunct_rewind, if_pos hlp])]
  rw [if_pos rfl, bind_of_ok hargs, bind_of_ok (expectPunct_rewind hrp), h]

theorem calls_get {callee : Expr} {dot name : Token} (hdot : dot.terminal = .punct .dot)
    (hname : name.terminal = .identifier)
    (h : calls n (.get callee name) (c₀.rewind us i) = .ok e c) :
    calls (n + 1) callee (c₀.rewind (dot :: name :: us) i) = .ok e c := by
  rw [calls, bind_of_ok (by rw [acceptPunct_rewind, if_neg (by simp [hdot])])]
  rw [if_neg (by decide), bind_of_ok (by rw [acceptPunct_rewind, if_pos hdot])]
  rw [if_pos rfl, bind_of_ok (expect_rewind hname), h]

theorem arguments_one {count : Nat} (hcount : count < maxArguments)
    (h : expression n c₀ = .ok e c) (hend : ¬c.Faces (.punct .comma)) :
    arguments (n + 1) count c₀ = .ok [e] c := by
  rw [arguments, if_neg (Nat.not_le_of_lt hcount)]
  dsimp only
  rw [bind_of_ok h, bind_of_ok (acceptPunct_none hend)]
  rfl

theorem arguments_cons {count : Nat} {comma : Token} {es : List Expr} (hcount : count < maxArguments)
    (hcomma : comma.terminal = .punct .comma)
    (h : expression n c₀ = .ok e (c₁.rewind (comma :: us) i))
    (hrest : arguments n (count + 1) (c₁.rewind us i) = .ok es c) :
    arguments (n + 1) count c₀ = .ok (e :: es) c := by
  rw [arguments, if_neg (Nat.not_le_of_lt hcount)]
  dsimp only
  rw [bind_of_ok h, bind_of_ok (by rw [acceptPunct_rewind, if_pos hcomma]), if_pos rfl,
    bind_of_ok hrest]
  rfl

theorem primary_literal {v : Literal} (h : t.literal? = some v) :
    primary (n + 1) (c.rewind (t :: us) i) = .ok (.literal v) (c.rewind us i) := by
  rw [primary, bind_of_ok get_apply]
  dsimp only [Cursor.ahead_rewind, List.cons_append]
  rw [h]
  rfl

theorem literal?_eq_none
    (h : t.terminal ∈
      [.keyword .thisWord, .keyword .parentWord, .identifier, .punct .leftParen]) :
    t.literal? = none := by
  unfold Token.terminal at h
  unfold Token.literal?
  split
  case h_6 => rfl
  all_goals
    next hkind =>
    rw [hkind] at h
    revert h
    simp [Kind.terminal]

theorem primary_this (h : t.terminal = .keyword .thisWord) :
    primary (n + 1) (c.rewind (t :: us) i) = .ok (.this ⟨i, t⟩) (c.rewind us (i + 1)) := by
  rw [primary, bind_of_ok get_apply]
  dsimp only [Cursor.ahead_rewind, List.cons_append]
  rw [literal?_eq_none (by simp [h]), h]
  rfl

theorem primary_parent {dot method : Token} (h : t.terminal = .keyword .parentWord)
    (hdot : dot.terminal = .punct .dot) (hmethod : method.terminal = .identifier) :
    primary (n + 1) (c.rewind (t :: dot :: method :: us) i) =
      .ok (.parent ⟨i, t⟩ method) (c.rewind us (i + 1)) := by
  rw [primary, bind_of_ok get_apply]
  dsimp only [Cursor.ahead_rewind, List.cons_append]
  rw [literal?_eq_none (by simp [h]), h]
  dsimp only
  rw [bind_of_ok skip_rewind, bind_of_ok (expectPunct_rewind hdot),
    bind_of_ok (expect_rewind hmethod)]
  rfl

theorem primary_name (h : t.terminal = .identifier) :
    primary (n + 1) (c.rewind (t :: us) i) = .ok (.variable ⟨i, t⟩) (c.rewind us (i + 1)) := by
  rw [primary, bind_of_ok get_apply]
  dsimp only [Cursor.ahead_rewind, List.cons_append]
  rw [literal?_eq_none (by simp [h]), h]
  rfl

theorem primary_grouping {lp rp : Token} {vs : List Token} {j : NodeId}
    (hlp : lp.terminal = .punct .leftParen)
    (h : expression n (c.rewind us i) = .ok e (c.rewind (rp :: vs) j))
    (hrp : rp.terminal = .punct .rightParen) :
    primary (n + 1) (c.rewind (lp :: us) i) = .ok (.grouping e) (c.rewind vs j) := by
  rw [primary, bind_of_ok get_apply]
  dsimp only [Cursor.ahead_rewind, List.cons_append]
  rw [literal?_eq_none (by simp [hlp]), hlp]
  dsimp only
  rw [bind_of_ok skip_rewind, bind_of_ok h, bind_of_ok (expectPunct_rewind hrp)]
  rfl

theorem initialValue_none (h : ¬c.Faces (.punct .equal)) : initialValue n c = .ok none c := by
  rw [initialValue, bind_of_ok (acceptPunct_none h)]
  rfl

theorem initialValue_some {eq : Token} (heq : eq.terminal = .punct .equal)
    (h : expression n (c₀.rewind us i) = .ok e c) :
    initialValue n (c₀.rewind (eq :: us) i) = .ok (some e) c := by
  rw [initialValue, bind_of_ok (by rw [acceptPunct_rewind, if_pos heq]), if_pos rfl, bind_of_ok h]
  rfl

theorem heritage_none (h : ¬c.Faces (.punct .less)) : heritage c = .ok none c := by
  rw [heritage, bind_of_ok (acceptPunct_none h)]
  rfl

theorem heritage_some {less name : Token} (hless : less.terminal = .punct .less)
    (hname : name.terminal = .identifier) :
    heritage (c.rewind (less :: name :: us) i) = .ok (some ⟨i, name⟩) (c.rewind us (i + 1)) := by
  rw [heritage, bind_of_ok (by rw [acceptPunct_rewind, if_pos hless]), if_pos rfl,
    bind_of_ok (expect_rewind hname)]
  rfl

theorem parameters_one {count : Nat} (hcount : count < maxArguments)
    (hname : t.terminal = .identifier) (hend : ¬c.Faces (.punct .comma)) :
    parameters (n + 1) count (c.rewind [t] c.nextId) = .ok [t] c := by
  rw [parameters, if_neg (Nat.not_le_of_lt hcount)]
  dsimp only
  rw [bind_of_ok (expect_rewind hname), Cursor.rewind_nil, bind_of_ok (acceptPunct_none hend)]
  rfl

theorem parameters_cons {count : Nat} {comma : Token} {ps : List Token}
    (hcount : count < maxArguments) (hname : t.terminal = .identifier)
    (hcomma : comma.terminal = .punct .comma)
    (hrest : parameters n (count + 1) (c₀.rewind us i) = .ok ps c) :
    parameters (n + 1) count (c₀.rewind (t :: comma :: us) i) = .ok (t :: ps) c := by
  rw [parameters, if_neg (Nat.not_le_of_lt hcount)]
  dsimp only
  rw [bind_of_ok (expect_rewind hname), bind_of_ok (by rw [acceptPunct_rewind, if_pos hcomma]),
    if_pos rfl, bind_of_ok hrest]
  rfl

/-- A choice by the next token. -/
theorem ifAccept_rewind (a : Terminal) (x y : Rule α) :
    (do if (← accept a).isSome then x else y) (c.rewind (t :: us) i) =
      if t.terminal = a then x (c.rewind us i) else y (c.rewind (t :: us) i) := by
  by_cases h : t.terminal = a
  · rw [bind_of_ok (by rw [accept_rewind, if_pos h]), if_pos (by rfl), if_pos h]
  · rw [bind_of_ok (by rw [accept_rewind, if_neg h]), if_neg (by decide), if_neg h]

theorem ifAcceptPunct_rewind (p : Punct) (x y : Rule α) :
    (do if ← acceptPunct p then x else y) (c.rewind (t :: us) i) =
      if t.terminal = .punct p then x (c.rewind us i) else y (c.rewind (t :: us) i) := by
  by_cases h : t.terminal = .punct p
  · rw [bind_of_ok (by rw [acceptPunct_rewind, if_pos h]), if_pos rfl, if_pos h]
  · rw [bind_of_ok (by rw [acceptPunct_rewind, if_neg h]), if_neg (by decide), if_neg h]

/-- A statement is told by its first token. -/
theorem statement_rewind :
    statement (n + 1) (c.rewind (t :: us) i) =
      if t.terminal = .keyword .forWord then forStatement n (statement n) (c.rewind us i)
      else if t.terminal = .keyword .ifWord then ifStatement n (statement n) (c.rewind us i)
      else if t.terminal = .keyword .whileWord then whileStatement n (statement n) (c.rewind us i)
      else if t.terminal = .keyword .returnWord then returnStatement n t (c.rewind us i)
      else if t.terminal = .punct .leftBrace then (Stmt.block <$> block n) (c.rewind us i)
      else if t.terminal = .keyword .printWord then printStatement n (c.rewind us i)
      else expressionStatement n (c.rewind (t :: us) i) := by
  rw [statement, ifAccept_rewind, ifAccept_rewind, ifAccept_rewind]
  congr 3
  by_cases h : t.terminal = .keyword .returnWord
  · rw [bind_of_ok (by rw [accept_rewind, if_pos h]), if_pos h]
  · rw [bind_of_ok (by rw [accept_rewind, if_neg h]), if_neg h]
    dsimp only
    rw [ifAcceptPunct_rewind, ifAccept_rewind]
    rfl

theorem statement_for (h : t.terminal = .keyword .forWord) :
    statement (n + 1) (c.rewind (t :: us) i) = forStatement n (statement n) (c.rewind us i) := by
  simp [statement_rewind, h]

theorem statement_if (h : t.terminal = .keyword .ifWord) :
    statement (n + 1) (c.rewind (t :: us) i) = ifStatement n (statement n) (c.rewind us i) := by
  simp [statement_rewind, h]

theorem statement_while (h : t.terminal = .keyword .whileWord) :
    statement (n + 1) (c.rewind (t :: us) i) = whileStatement n (statement n) (c.rewind us i) := by
  simp [statement_rewind, h]

theorem statement_return (h : t.terminal = .keyword .returnWord) :
    statement (n + 1) (c.rewind (t :: us) i) = returnStatement n t (c.rewind us i) := by
  simp [statement_rewind, h]

theorem statement_block (h : t.terminal = .punct .leftBrace) :
    statement (n + 1) (c.rewind (t :: us) i) = (Stmt.block <$> block n) (c.rewind us i) := by
  simp [statement_rewind, h]

theorem statement_print (h : t.terminal = .keyword .printWord) :
    statement (n + 1) (c.rewind (t :: us) i) = printStatement n (c.rewind us i) := by
  simp [statement_rewind, h]

theorem statement_expression (h : t.terminal ∈ expressionStarts) :
    statement (n + 1) (c.rewind (t :: us) i) = expressionStatement n (c.rewind (t :: us) i) := by
  have hne : ∀ a ∉ expressionStarts, t.terminal ≠ a := fun a ha hta => ha (hta ▸ h)
  rw [statement_rewind, if_neg (hne _ (by decide)), if_neg (hne _ (by decide)),
    if_neg (hne _ (by decide)), if_neg (hne _ (by decide)), if_neg (hne _ (by decide)),
    if_neg (hne _ (by decide))]

/-- A declaration is told by its first token, too. -/
theorem declaration_rewind {s : Stmt} (h : (
      if t.terminal = .keyword .classWord then classDeclaration (methods n) (c₀.rewind us i)
      else if t.terminal = .keyword .funcWord then
        (Stmt.function <$> Rule.function n .function (block n)) (c₀.rewind us i)
      else if t.terminal = .keyword .varWord then varDeclaration n (c₀.rewind us i)
      else statement n (c₀.rewind (t :: us) i)) = .ok s c) :
    declaration (n + 1) (c₀.rewind (t :: us) i) = .ok (some s) c := by
  rw [declaration, recovering, ifAccept_rewind, ifAccept_rewind, ifAccept_rewind]
  simp only [bind_pure_comp] at h ⊢
  rw [h]

theorem expressionStatement_apply {semi : Token} (hsemi : semi.terminal = .punct .semicolon)
    (h : expression n c₀ = .ok e (c.rewind (semi :: us) i)) :
    expressionStatement n c₀ = .ok (.expression e) (c.rewind us i) := by
  rw [expressionStatement, bind_of_ok h, bind_of_ok (expectPunct_rewind hsemi)]
  rfl

theorem printStatement_apply {semi : Token} (hsemi : semi.terminal = .punct .semicolon)
    (h : expression n c₀ = .ok e (c.rewind (semi :: us) i)) :
    printStatement n c₀ = .ok (.print e) (c.rewind us i) := by
  rw [printStatement, bind_of_ok h, bind_of_ok (expectPunct_rewind hsemi)]
  rfl

theorem returnStatement_apply {word semi : Token} {value : Option Expr}
    (hsemi : semi.terminal = .punct .semicolon)
    (h : whenNot (.punct .semicolon) (expression n) c₀ = .ok value (c.rewind (semi :: us) i)) :
    returnStatement n word c₀ = .ok (.giveBack word value) (c.rewind us i) := by
  rw [returnStatement, bind_of_ok h, bind_of_ok (expectPunct_rewind hsemi)]
  rfl

theorem varDeclaration_apply {name semi : Token} {initial : Option Expr} {vs : List Token}
    {j : NodeId} (hname : name.terminal = .identifier) (hsemi : semi.terminal = .punct .semicolon)
    (h : initialValue n (c₀.rewind us i) = .ok initial (c.rewind (semi :: vs) j)) :
    varDeclaration n (c₀.rewind (name :: us) i) = .ok (.var name initial) (c.rewind vs j) := by
  rw [varDeclaration, bind_of_ok (expect_rewind hname), bind_of_ok h,
    bind_of_ok (expectPunct_rewind hsemi)]
  rfl

section
variable {body : Rule Stmt} {lp rp : Token} {s₁ s₂ : Stmt} {vs : List Token} {j : NodeId}

theorem ifStatement_one (hlp : lp.terminal = .punct .leftParen)
    (h : expression n (c₀.rewind us i) = .ok e (c₁.rewind (rp :: vs) j))
    (hrp : rp.terminal = .punct .rightParen) (hbody : body (c₁.rewind vs j) = .ok s₁ c)
    (hend : ¬c.Faces (.keyword .elseWord)) :
    ifStatement n body (c₀.rewind (lp :: us) i) = .ok (.branch e s₁ none) c := by
  rw [ifStatement, bind_of_ok (expectPunct_rewind hlp), bind_of_ok h,
    bind_of_ok (expectPunct_rewind hrp), bind_of_ok hbody, bind_of_ok (accept_none hend)]
  rfl

theorem ifStatement_two {other : Token} {ws : List Token} {k : NodeId}
    (hlp : lp.terminal = .punct .leftParen)
    (h : expression n (c₀.rewind us i) = .ok e (c₁.rewind (rp :: vs) j))
    (hrp : rp.terminal = .punct .rightParen)
    (hbody : body (c₁.rewind vs j) = .ok s₁ (c₂.rewind (other :: ws) k))
    (hother : other.terminal = .keyword .elseWord) (hrest : body (c₂.rewind ws k) = .ok s₂ c) :
    ifStatement n body (c₀.rewind (lp :: us) i) = .ok (.branch e s₁ (some s₂)) c := by
  rw [ifStatement, bind_of_ok (expectPunct_rewind hlp), bind_of_ok h,
    bind_of_ok (expectPunct_rewind hrp), bind_of_ok hbody,
    bind_of_ok (by rw [accept_rewind, if_pos hother])]
  dsimp only
  rw [bind_of_ok hrest]
  rfl

theorem whileStatement_apply (hlp : lp.terminal = .punct .leftParen)
    (h : expression n (c₀.rewind us i) = .ok e (c₁.rewind (rp :: vs) j))
    (hrp : rp.terminal = .punct .rightParen) (hbody : body (c₁.rewind vs j) = .ok s₁ c) :
    whileStatement n body (c₀.rewind (lp :: us) i) = .ok (.loop e s₁) c := by
  rw [whileStatement, bind_of_ok (expectPunct_rewind hlp), bind_of_ok h,
    bind_of_ok (expectPunct_rewind hrp), bind_of_ok hbody]
  rfl

theorem forStatement_apply {first : Option Stmt} {condition step : Option Expr} {semi : Token}
    {ws : List Token} {k : NodeId} (hlp : lp.terminal = .punct .leftParen)
    (hfirst : forInitial n (c₀.rewind us i) = .ok first c₁)
    (hcondition : whenNot (.punct .semicolon) (expression n) c₁ =
      .ok condition (c₂.rewind (semi :: vs) j))
    (hsemi : semi.terminal = .punct .semicolon)
    (hstep : whenNot (.punct .rightParen) (expression n) (c₂.rewind vs j) =
      .ok step (c₃.rewind (rp :: ws) k))
    (hrp : rp.terminal = .punct .rightParen) (hbody : body (c₃.rewind ws k) = .ok s₁ c) :
    forStatement n body (c₀.rewind (lp :: us) i) = .ok (.counting first condition step s₁) c := by
  rw [forStatement, bind_of_ok (expectPunct_rewind hlp), bind_of_ok hfirst, bind_of_ok hcondition,
    bind_of_ok (expectPunct_rewind hsemi), bind_of_ok hstep, bind_of_ok (expectPunct_rewind hrp),
    bind_of_ok hbody]
  rfl

end

/-- The first clause of a `for` is told by its first token. -/
theorem forInitial_rewind :
    forInitial n (c.rewind (t :: us) i) =
      if t.terminal = .punct .semicolon then .ok none (c.rewind us i)
      else if t.terminal = .keyword .varWord then (some <$> varDeclaration n) (c.rewind us i)
      else (some <$> expressionStatement n) (c.rewind (t :: us) i) := by
  rw [forInitial, ifAcceptPunct_rewind, ifAccept_rewind]
  rfl

theorem function_apply (sort : FunctionSort) {body : Rule (List Stmt)} {name lp rp lb : Token}
    {params : Option (List Token)} {ss : List Stmt} {vs : List Token} {j : NodeId}
    (hname : name.terminal = .identifier) (hlp : lp.terminal = .punct .leftParen)
    (hparams : whenNot (.punct .rightParen) (parameters n 0) (c₀.rewind us i) =
      .ok params (c₁.rewind (rp :: lb :: vs) j))
    (hrp : rp.terminal = .punct .rightParen) (hlb : lb.terminal = .punct .leftBrace)
    (hbody : body (c₁.rewind vs j) = .ok ss c) :
    Rule.function n sort body (c₀.rewind (name :: lp :: us) i) =
      .ok ⟨name, params.getD [], ss⟩ c := by
  rw [Rule.function, bind_of_ok (expect_rewind hname), bind_of_ok (expectPunct_rewind hlp),
    bind_of_ok hparams, bind_of_ok (expectPunct_rewind hrp), bind_of_ok (expectPunct_rewind hlb),
    bind_of_ok hbody]
  rfl

theorem classDeclaration_apply {methods : Rule (List FunctionDecl)} {name lb rb : Token}
    {parent : Option Reference} {decls : List FunctionDecl} {vs ws : List Token} {j k : NodeId}
    (hname : name.terminal = .identifier)
    (hparent : heritage (c₀.rewind us i) = .ok parent (c₁.rewind (lb :: vs) j))
    (hlb : lb.terminal = .punct .leftBrace)
    (hmethods : methods (c₁.rewind vs j) = .ok decls (c.rewind (rb :: ws) k))
    (hrb : rb.terminal = .punct .rightBrace) :
    classDeclaration methods (c₀.rewind (name :: us) i) =
      .ok (.classDecl name parent decls) (c.rewind ws k) := by
  rw [classDeclaration, bind_of_ok (expect_rewind hname), bind_of_ok hparent,
    bind_of_ok (expectPunct_rewind hlb), bind_of_ok hmethods, bind_of_ok (expectPunct_rewind hrb)]
  rfl

theorem block_end {rb : Token} (h : rb.terminal = .punct .rightBrace) :
    block (n + 1) (c.rewind (rb :: us) i) = .ok [] (c.rewind us i) := by
  rw [block, bind_of_ok (atEnd_apply _), bind_of_ok (check_apply _ _), if_pos (by simp [h]),
    bind_of_ok (expectPunct_rewind h)]
  rfl

theorem block_cons {first : Stmt} {others : List Stmt} (h : t.terminal ≠ .punct .rightBrace)
    (hfirst : declaration n (c₀.rewind (t :: us) i) = .ok (some first) c₁)
    (hothers : block n c₁ = .ok others c) :
    block (n + 1) (c₀.rewind (t :: us) i) = .ok (first :: others) c := by
  rw [block, bind_of_ok (atEnd_apply _), bind_of_ok (check_apply _ _), if_neg (by simp [h]),
    bind_of_ok hfirst, bind_of_ok hothers]
  rfl

theorem methods_end (h : c.Faces (.punct .rightBrace)) : methods (n + 1) c = .ok [] c := by
  rw [methods, bind_of_ok (atEnd_apply _), bind_of_ok (check_apply _ _), if_pos (by simp [h])]
  rfl

theorem methods_cons {first : FunctionDecl} {others : List FunctionDecl}
    (h : t.terminal ≠ .punct .rightBrace)
    (hfirst : Rule.function n .method (block n) (c₀.rewind (t :: us) i) = .ok first c₁)
    (hothers : methods n c₁ = .ok others c) :
    methods (n + 1) (c₀.rewind (t :: us) i) = .ok (first :: others) c := by
  rw [methods, bind_of_ok (atEnd_apply _), bind_of_ok (check_apply _ _), if_neg (by simp [h]),
    bind_of_ok hfirst, bind_of_ok hothers]
  rfl

theorem program_end (h : c.ahead = []) : program (n + 1) c = .ok [] c := by
  rw [program, bind_of_ok (atEnd_apply _), if_pos (by simp [h])]
  rfl

theorem program_cons {first : Stmt} {others : List Stmt}
    (hfirst : declaration n (c₀.rewind (t :: us) i) = .ok (some first) c₁)
    (hothers : program n c₁ = .ok others c) :
    program (n + 1) (c₀.rewind (t :: us) i) = .ok (first :: others) c := by
  rw [program, bind_of_ok (atEnd_apply _), if_neg (by simp), bind_of_ok hfirst, bind_of_ok hothers]
  rfl

end Rule

end Treewalk
