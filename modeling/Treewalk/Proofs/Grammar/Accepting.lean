import Treewalk.Proofs.Grammar.Steps

/-! What is read is parsed. A stretch that has a reading is taken by the rule for it, without a new
fault, provided that the token behind it would not continue it and that the depth allows for its
length. -/

namespace Treewalk

namespace Phrase

/-- The classes of tokens that would carry a phrase on if they stood behind it. -/
def continues : Phrase → List Terminal
  | .operation levels _ => .punct .leftParen :: .punct .dot :: levels.flatMap Level.operators
  | .operations level tighter _ _ =>
    .punct .leftParen :: .punct .dot :: (level :: tighter).flatMap Level.operators
  | .expression _ =>
    .punct .equal :: .punct .leftParen :: .punct .dot :: Level.all.flatMap Level.operators
  | .arguments _ =>
    .punct .comma :: .punct .equal :: .punct .leftParen :: .punct .dot ::
      Level.all.flatMap Level.operators
  | .unary _ | .calls _ _ => [.punct .leftParen, .punct .dot]
  | .statement isOpen _ => if isOpen then [.keyword .elseWord] else []
  | .declaration _ => [.keyword .elseWord]
  | .parameters _ => [.punct .comma]
  | _ => []

/-- How many rules may be entered one inside the other before the first token of a phrase is
taken. -/
def rank : Phrase → Nat
  | .primary _ | .calls _ _ | .operations _ _ _ _ | .parameters _ | .parameterList _
  | .heritage _ | .function _ => 1
  | .unary _ => 2
  | .operation levels _ => 3 + levels.length
  | .expression _ | .expressionStatement _ | .clause _ | .initial _ | .binding _
  | .firstClause _ => 10
  | .arguments _ | .argumentList _ | .statement _ _ => 11
  | .declaration _ => 12
  | .declarations _ | .functions _ => 13

end Phrase

/-- The rule for a phrase takes `ts` from the cursor, within the depth `n`. What follows the phrase
is known where the rule for it looks there to find that the phrase is empty. -/
def Phrase.Accepted (phrase : Phrase) (n : Nat) (i : NodeId) (ts : List Token) (c : Cursor) :
    Prop :=
  match phrase with
  | .expression e => Rule.expression n (c.rewind ts i) = .ok e c
  | .operation levels e =>
    levels <:+ Level.all → Rule.operation n levels (c.rewind ts i) = .ok e c
  | .operations level tighter left e =>
    level :: tighter <:+ Level.all →
      Rule.operations n level tighter left (c.rewind ts i) = .ok e c
  | .unary e => Rule.unary n (c.rewind ts i) = .ok e c
  | .calls callee e => Rule.calls n callee (c.rewind ts i) = .ok e c
  | .argumentList es => c.Faces (.punct .rightParen) →
    ∃ found, Rule.whenNot (.punct .rightParen) (Rule.arguments n 0) (c.rewind ts i) = .ok found c ∧
      found.getD [] = es
  | .arguments es => ∀ count, count + es.length ≤ maxArguments →
    Rule.arguments n count (c.rewind ts i) = .ok es c
  | .primary e => Rule.primary n (c.rewind ts i) = .ok e c
  | .clause e => ∀ p ∈ [Punct.semicolon, Punct.rightParen], c.Faces (.punct p) →
    Rule.whenNot (.punct p) (Rule.expression n) (c.rewind ts i) = .ok e c
  | .initial e => c.Faces (.punct .semicolon) → Rule.initialValue n (c.rewind ts i) = .ok e c
  | .binding s => ∀ word us, ts = word :: us → Rule.varDeclaration n (c.rewind us i) = .ok s c
  | .expressionStatement s => Rule.expressionStatement n (c.rewind ts i) = .ok s c
  | .firstClause s => Rule.forInitial n (c.rewind ts i) = .ok s c
  | .statement _ s => Rule.statement n (c.rewind ts i) = .ok s c
  | .declaration s => Rule.declaration n (c.rewind ts i) = .ok (some s) c
  | .declarations ss =>
    (∀ rb c₁, rb.terminal = .punct .rightBrace → c = c₁.rewind [rb] c₁.nextId →
      Rule.block n (c.rewind ts i) = .ok ss c₁) ∧
    (c.ahead = [] → Rule.program n (c.rewind ts i) = .ok ss c)
  | .parameterList ps => c.Faces (.punct .rightParen) →
    ∃ found,
      Rule.whenNot (.punct .rightParen) (Rule.parameters n 0) (c.rewind ts i) = .ok found c ∧
        found.getD [] = ps
  | .parameters ps => ∀ count, count + ps.length ≤ maxArguments →
    Rule.parameters n count (c.rewind ts i) = .ok ps c
  | .function decl => ∀ sort, Rule.function n sort (Rule.block n) (c.rewind ts i) = .ok decl c
  | .functions decls => c.Faces (.punct .rightBrace) → Rule.methods n (c.rewind ts i) = .ok decls c
  | .heritage parent => c.Faces (.punct .leftBrace) → Rule.heritage (c.rewind ts i) = .ok parent c

/-- Nothing behind the phrase carries it on. -/
def Phrase.Stops (phrase : Phrase) (c : Cursor) : Prop :=
  ∀ a ∈ phrase.continues, ¬c.Faces a

theorem Phrase.stops_rewind {phrase : Phrase} {c : Cursor} {t : Token} {us : List Token}
    {i : NodeId} (h : t.terminal ∉ phrase.continues) : phrase.Stops (c.rewind (t :: us) i) :=
  fun _ ha hface => h (Cursor.faces_rewind_cons.mp hface ▸ ha)

theorem Phrase.stops_of_faces {phrase : Phrase} {c : Cursor} {a : Terminal} (hface : c.Faces a)
    (h : a ∉ phrase.continues) : phrase.Stops c :=
  fun _ hb hface' => h (hface.unique hface' ▸ hb)

theorem Phrase.stops_of_nil {phrase : Phrase} {c : Cursor} (h : phrase.continues = []) :
    phrase.Stops c :=
  fun _ ha => absurd (h ▸ ha) List.not_mem_nil

theorem Phrase.exists_depth {phrase : Phrase} {k n : Nat} (h : k + phrase.rank ≤ n) :
    ∃ m, n = m + 1 := by
  have hpos : 0 < phrase.rank := by cases phrase <;> simp only [rank] <;> omega
  exact ⟨n - 1, by omega⟩

/-- The operators of a level are none of the tighter levels, and carry no call on. -/
theorem Level.operators_disjoint {level : Level} {tighter : List Level}
    (hs : level :: tighter <:+ Level.all) {a : Terminal} (ha : a ∈ level.operators) {e : Expr} :
    a ∉ (Phrase.operation tighter e).continues := by
  simp only [Level.all, List.suffix_cons_iff, List.cons.injEq, List.suffix_nil, reduceCtorEq,
    or_false] at hs
  show a ∉ .punct .leftParen :: .punct .dot :: tighter.flatMap Level.operators
  rcases hs with ⟨rfl, rfl⟩ | ⟨rfl, rfl⟩ | ⟨rfl, rfl⟩ | ⟨rfl, rfl⟩ | ⟨rfl, rfl⟩ | ⟨rfl, rfl⟩ <;>
    revert a <;> decide

/-- Behind the first operand of a level stands an operator of the level, if anything of it. -/
theorem Reads.operations_starts {level : Level} {tighter : List Level} {left e : Expr}
    {i j : NodeId} {ts : List Token} (h : Reads (.operations level tighter left e) i ts j) :
    (ts = [] ∧ i = j) ∨ ∃ t us, ts = t :: us ∧ t.terminal ∈ level.operators := by
  cases h with
  | operationsNil => exact .inl ⟨rfl, rfl⟩
  | operationsCons hop => exact .inr ⟨_, _, rfl, hop⟩

theorem Phrase.stops_operation {level : Level} {tighter : List Level} {left e : Expr}
    {ts : List Token} {c : Cursor} {j : NodeId} (hs : level :: tighter <:+ Level.all)
    (h : Reads (.operations level tighter left e) j ts c.nextId)
    (hstops : (Phrase.operations level tighter left e).Stops c) (e' : Expr) :
    (Phrase.operation tighter e').Stops (c.rewind ts j) := by
  obtain ⟨rfl, rfl⟩ | ⟨t, us, rfl, ht⟩ := h.operations_starts
  · intro a ha
    refine hstops a ?_
    simp only [continues, List.flatMap_cons, List.mem_cons, List.mem_append] at ha ⊢
    obtain rfl | rfl | ha := ha
    · exact .inl rfl
    · exact .inr (.inl rfl)
    · exact .inr (.inr (.inr ha))
  · exact stops_rewind (Level.operators_disjoint hs ht)

/-- No declaration starts with `else`. -/
theorem Reads.not_faces_else {ss : List Stmt} {i j : NodeId} {ts : List Token} {c : Cursor}
    (h : Reads (.declarations ss) i ts j) (hend : ¬c.Faces (.keyword .elseWord)) :
    ¬(c.rewind ts i).Faces (.keyword .elseWord) := by
  cases h with
  | declarationsNil => exact hend
  | declarationsCons hread _ =>
    obtain ⟨t, ts, rfl, ht⟩ := hread.starts rfl
    exact Cursor.not_faces_rewind ht (by decide)

/-- What is read as a phrase is taken by the rule for it. -/
theorem Reads.accepted {phrase : Phrase} {i j : NodeId} {ts : List Token} (h : Reads phrase i ts j)
    {c : Cursor} {n : Nat} (hj : c.nextId = j) (hdepth : 16 * ts.length + phrase.rank ≤ n)
    (hstops : phrase.Stops c) : phrase.Accepted n i ts c := by
  induction h generalizing c n with
  | value _ ih =>
    obtain ⟨n, rfl⟩ := Phrase.exists_depth hdepth
    have hoperation := ih hj (by simp [Phrase.rank, Level.all] at hdepth ⊢; omega)
      (fun a ha => hstops a (List.mem_cons_of_mem _ ha)) (List.suffix_refl _)
    exact Rule.expression_value hoperation (hstops _ List.mem_cons_self)
  | @assign ref eq v i ts j us k _ heq _ ih ihv =>
    obtain ⟨n, rfl⟩ := Phrase.exists_depth hdepth
    have htarget := ih (c := c.rewind (eq :: us) j) (n := n) rfl
      (by simp [Phrase.rank, Level.all] at hdepth ⊢; omega)
      (Phrase.stops_rewind (by rw [heq]; simp [Phrase.continues, Level.all]))
      (List.suffix_refl _)
    have hvalue := ihv (c := c.rewind [] k) (n := n) rfl
      (by simp [Phrase.rank] at hdepth ⊢; omega) hstops
    have hassign : Rule.assignment (.variable ref) eq v (c.rewind [] k) =
        .ok (.assign ⟨k, ref.name⟩ v) c := by
      conv => rhs; rw [← c.rewind_nil, hj]
      rfl
    show Rule.expression _ _ = _
    rw [Cursor.rewind_append c ts (eq :: us) i j]
    exact Rule.expression_assignment heq htarget hvalue hassign
  | @set object name eq v i ts j us k _ heq _ ih ihv =>
    obtain ⟨n, rfl⟩ := Phrase.exists_depth hdepth
    have htarget := ih (c := c.rewind (eq :: us) j) (n := n) rfl
      (by simp [Phrase.rank, Level.all] at hdepth ⊢; omega)
      (Phrase.stops_rewind (by rw [heq]; simp [Phrase.continues, Level.all]))
      (List.suffix_refl _)
    have hvalue := ihv hj (n := n) (by simp [Phrase.rank] at hdepth ⊢; omega) hstops
    show Rule.expression _ _ = _
    rw [Cursor.rewind_append c ts (eq :: us) i j]
    exact Rule.expression_assignment heq htarget hvalue rfl
  | tightest _ ih =>
    obtain ⟨n, rfl⟩ := Phrase.exists_depth hdepth
    exact fun _ => ih hj (by simp [Phrase.rank] at hdepth ⊢; omega) hstops
  | @level level tighter left e i ts j us k _ hrest ih ihRest =>
    intro hs
    obtain ⟨n, rfl⟩ := Phrase.exists_depth hdepth
    subst hj
    have hleft := ih (c := c.rewind us j) (n := n) rfl
      (by simp [Phrase.rank] at hdepth ⊢; omega) (Phrase.stops_operation hs hrest hstops left)
      ((List.suffix_cons _ _).trans hs)
    have hmore := ihRest rfl (n := n) (by simp [Phrase.rank] at hdepth ⊢; omega) hstops hs
    rw [Cursor.rewind_append c ts us i j]
    exact Rule.operation_level hleft hmore
  | operationsNil =>
    intro _
    obtain ⟨n, rfl⟩ := Phrase.exists_depth hdepth
    subst hj
    refine Rule.operations_none fun a ha => hstops a ?_
    simp only [Phrase.continues, List.flatMap_cons, List.mem_cons, List.mem_append]
    exact .inr (.inr (.inl ha))
  | @operationsCons level tighter left op right e i ts j us k hop _ hrest ih ihRest =>
    intro hs
    have hlevels : (level :: tighter).length ≤ Level.all.length := hs.length_le
    simp only [Level.all, List.length_cons, List.length_nil] at hlevels
    obtain ⟨n, rfl⟩ := Phrase.exists_depth hdepth
    subst hj
    have hright := ih (c := c.rewind us j) (n := n) rfl
      (by simp [Phrase.rank] at hdepth ⊢; omega) (Phrase.stops_operation hs hrest hstops right)
      ((List.suffix_cons _ _).trans hs)
    have hmore := ihRest rfl (n := n) (by simp [Phrase.rank] at hdepth ⊢; omega) hstops hs
    rw [List.cons_append]
    rw [Cursor.rewind_rewind] at hright
    exact Rule.operations_some hop hright hmore
  | @sign op e i ts j hop _ ih =>
    obtain ⟨n, rfl⟩ := Phrase.exists_depth hdepth
    exact Rule.unary_sign hop (ih hj (by simp [Phrase.rank] at hdepth ⊢; omega) hstops)
  | @operand callee e i ts j us k hprimary hcalls ih ihCalls =>
    obtain ⟨n, rfl⟩ := Phrase.exists_depth hdepth
    obtain ⟨t, ts, rfl, ht⟩ := hprimary.starts rfl
    have hcallee := ih (c := c.rewind us j) (n := n) rfl
      (by simp [Phrase.rank] at hdepth ⊢; omega) (Phrase.stops_of_nil rfl)
    have hmore := ihCalls hj (n := n) (by simp [Phrase.rank] at hdepth ⊢; omega) hstops
    show Rule.unary _ _ = _
    rw [Cursor.rewind_append c (t :: ts) us i j]
    refine Rule.unary_operand (fun a ha => Cursor.not_faces_rewind ht ?_) hcallee hmore
    revert a
    decide
  | callsNil =>
    obtain ⟨n, rfl⟩ := Phrase.exists_depth hdepth
    subst hj
    exact Rule.calls_none (hstops _ (by simp [Phrase.continues]))
      (hstops _ (by simp [Phrase.continues]))
  | @call callee lp es rp e i ts j us k hlp _ hrp _ ih ihCalls =>
    obtain ⟨n, rfl⟩ := Phrase.exists_depth hdepth
    obtain ⟨found, hfound, rfl⟩ := ih (c := c.rewind (rp :: us) j) (n := n) rfl
      (by simp [Phrase.rank] at hdepth ⊢; omega) (Phrase.stops_of_nil rfl)
      (by simp [hrp])
    have hmore := ihCalls hj (n := n) (by simp [Phrase.rank] at hdepth ⊢; omega) hstops
    rw [Cursor.rewind_rewind] at hfound
    exact Rule.calls_call hlp hfound hrp hmore
  | get hdot hname _ ih =>
    obtain ⟨n, rfl⟩ := Phrase.exists_depth hdepth
    exact Rule.calls_get hdot hname (ih hj (by simp [Phrase.rank] at hdepth ⊢; omega) hstops)
  | noArguments =>
    intro hface
    subst hj
    exact ⟨none, Rule.whenNot_none hface, rfl⟩
  | @someArguments es i ts j hread hlength ih =>
    intro hface
    obtain ⟨t, ts, rfl, ht⟩ := hread.starts rfl
    have hargs := ih hj hdepth (Phrase.stops_of_faces hface (by simp [Phrase.continues, Level.all]))
      0 (by simpa using hlength)
    exact ⟨some es, Rule.whenNot_some (Cursor.not_faces_rewind ht (by decide)) hargs, rfl⟩
  | argumentsOne _ ih =>
    intro count hcount
    obtain ⟨n, rfl⟩ := Phrase.exists_depth hdepth
    have hargument := ih hj (n := n) (by simp [Phrase.rank] at hdepth ⊢; omega)
      (fun a ha => hstops a (List.mem_cons_of_mem _ ha))
    exact Rule.arguments_one hcount hargument (hstops _ List.mem_cons_self)
  | @argumentsCons e comma es i ts j us k _ hcomma _ ih ihRest =>
    intro count hcount
    rw [List.length_cons] at hcount
    obtain ⟨n, rfl⟩ := Phrase.exists_depth hdepth
    have hargument := ih (c := c.rewind (comma :: us) j) (n := n) rfl
      (by simp [Phrase.rank] at hdepth ⊢; omega)
      (Phrase.stops_rewind (by rw [hcomma]; simp [Phrase.continues, Level.all]))
    have hrest := ihRest hj (n := n) (by simp [Phrase.rank] at hdepth ⊢; omega) hstops (count + 1)
      (by omega)
    rw [Cursor.rewind_append c ts (comma :: us) i j]
    exact Rule.arguments_cons (by omega) hcomma hargument hrest
  | literal hv =>
    obtain ⟨n, rfl⟩ := Phrase.exists_depth hdepth
    subst hj
    exact Rule.primary_literal hv
  | @this t i ht =>
    obtain ⟨n, rfl⟩ := Phrase.exists_depth hdepth
    rw [Phrase.Accepted, Rule.primary_this ht, ← hj, Cursor.rewind_nil]
  | parent ht hdot hmethod =>
    obtain ⟨n, rfl⟩ := Phrase.exists_depth hdepth
    rw [Phrase.Accepted, Rule.primary_parent ht hdot hmethod, ← hj, Cursor.rewind_nil]
  | name ht =>
    obtain ⟨n, rfl⟩ := Phrase.exists_depth hdepth
    rw [Phrase.Accepted, Rule.primary_name ht, ← hj, Cursor.rewind_nil]
  | @grouping lp e rp i ts j hlp _ hrp ih =>
    obtain ⟨n, rfl⟩ := Phrase.exists_depth hdepth
    subst hj
    have hinner := ih (c := c.rewind [rp] c.nextId) (n := n) rfl
      (by simp [Phrase.rank] at hdepth ⊢; omega)
      (Phrase.stops_rewind (by rw [hrp]; simp [Phrase.continues, Level.all]))
    rw [Phrase.Accepted, Cursor.rewind_rewind] at hinner
    exact Rule.primary_grouping hlp hinner hrp
  | noClause =>
    intro p _ hface
    subst hj
    exact Rule.whenNot_none hface
  | someClause hread ih =>
    intro p hp hface
    obtain ⟨t, us, rfl, ht⟩ := hread.starts rfl
    have he := ih hj hdepth (Phrase.stops_of_faces hface (by
      revert p
      simp [Phrase.continues, Level.all]))
    refine Rule.whenNot_some (Cursor.not_faces_rewind ht ?_) he
    clear hface he
    revert p
    decide
  | noInitial =>
    intro hface
    subst hj
    exact Rule.initialValue_none fun hface' => by cases hface.unique hface'
  | someInitial heq _ ih =>
    intro hface
    exact Rule.initialValue_some heq (ih hj (by simp [Phrase.rank] at hdepth ⊢; omega)
      (Phrase.stops_of_faces hface (by simp [Phrase.continues, Level.all])))
  | @binding word name e semi i ts j _ hname _ hsemi ih =>
    rintro _ us ⟨⟩
    subst hj
    have hinitial := ih (c := c.rewind [semi] c.nextId) (n := n) rfl
      (by simp [Phrase.rank] at hdepth ⊢; omega) (Phrase.stops_of_nil rfl)
      (by simp [hsemi])
    rw [Cursor.rewind_rewind] at hinitial
    exact Rule.varDeclaration_apply hname hsemi hinitial
  | @expressionStatement e semi i ts j _ hsemi ih =>
    subst hj
    have he := ih (c := c.rewind [semi] c.nextId) (n := n) rfl
      (by simp [Phrase.rank] at hdepth ⊢; omega)
      (Phrase.stops_rewind (by rw [hsemi]; simp [Phrase.continues, Level.all]))
    rw [Phrase.Accepted, Cursor.rewind_rewind] at he
    exact Rule.expressionStatement_apply hsemi he
  | firstNone hsemi =>
    subst hj
    rw [Phrase.Accepted, Rule.forInitial_rewind, if_pos hsemi, Cursor.rewind_nil]
  | firstVariable hread ih =>
    obtain ⟨t, us, rfl, ht⟩ := hread.starts rfl
    have hvar := ih hj hdepth (Phrase.stops_of_nil rfl) t us rfl
    rw [Phrase.Accepted, Rule.forInitial_rewind, if_neg (by simp_all), if_pos (by simpa using ht)]
    exact map_eq_ok.mpr ⟨_, hvar, rfl⟩
  | firstExpression hread ih =>
    obtain ⟨t, us, rfl, ht⟩ := hread.starts rfl
    have hne : ∀ a ∉ expressionStarts, t.terminal ≠ a := fun a ha hta => ha (hta ▸ ht)
    have hexpression := ih hj hdepth (Phrase.stops_of_nil rfl)
    rw [Phrase.Accepted, Rule.forInitial_rewind, if_neg (hne _ (by decide)),
      if_neg (hne _ (by decide))]
    exact map_eq_ok.mpr ⟨_, hexpression, rfl⟩
  | expression hread ih =>
    obtain ⟨n, rfl⟩ := Phrase.exists_depth hdepth
    obtain ⟨t, us, rfl, ht⟩ := hread.starts rfl
    rw [Phrase.Accepted, Rule.statement_expression ht]
    exact ih hj (by simp [Phrase.rank] at hdepth ⊢; omega) (Phrase.stops_of_nil rfl)
  | @print word e semi i ts j hword _ hsemi ih =>
    obtain ⟨n, rfl⟩ := Phrase.exists_depth hdepth
    subst hj
    have he := ih (c := c.rewind [semi] c.nextId) (n := n) rfl
      (by simp [Phrase.rank] at hdepth ⊢; omega)
      (Phrase.stops_rewind (by rw [hsemi]; simp [Phrase.continues, Level.all]))
    rw [Phrase.Accepted, Cursor.rewind_rewind] at he
    exact (Rule.statement_print hword).trans (Rule.printStatement_apply hsemi he)
  | @giveBack word e semi i ts j hword _ hsemi ih =>
    obtain ⟨n, rfl⟩ := Phrase.exists_depth hdepth
    subst hj
    have he := ih (c := c.rewind [semi] c.nextId) (n := n) rfl
      (by simp [Phrase.rank] at hdepth ⊢; omega) (Phrase.stops_of_nil rfl)
      .semicolon (by decide) (by simp [hsemi])
    rw [Cursor.rewind_rewind] at he
    exact (Rule.statement_return hword).trans (Rule.returnStatement_apply hsemi he)
  | @branch word lp e rp s o i ts j us k hword hlp _ hrp _ ih ihBody =>
    obtain ⟨n, rfl⟩ := Phrase.exists_depth hdepth
    have he := ih (c := c.rewind (rp :: us) j) (n := n) rfl
      (by simp [Phrase.rank] at hdepth ⊢; omega)
      (Phrase.stops_rewind (by rw [hrp]; simp [Phrase.continues, Level.all]))
    have hbody := ihBody hj (n := n) (by simp [Phrase.rank] at hdepth ⊢; omega)
      (by cases o with
        | true => exact hstops
        | false => exact Phrase.stops_of_nil rfl)
    rw [Phrase.Accepted, Cursor.rewind_rewind] at he
    exact (Rule.statement_if hword).trans
      (Rule.ifStatement_one hlp he hrp hbody (hstops _ List.mem_cons_self))
  | @branchElse word lp e rp s other s' o i ts j us k vs l hword hlp _ hrp _ hother _ ih ihBody ihRest =>
    obtain ⟨n, rfl⟩ := Phrase.exists_depth hdepth
    have he := ih (c := c.rewind (rp :: us ++ other :: vs) j) (n := n) rfl
      (by simp [Phrase.rank] at hdepth ⊢; omega)
      (Phrase.stops_rewind (by rw [hrp]; simp [Phrase.continues, Level.all]))
    have hbody := ihBody (c := c.rewind (other :: vs) k) (n := n) rfl
      (by simp [Phrase.rank] at hdepth ⊢; omega) (Phrase.stops_of_nil rfl)
    have hrest := ihRest hj (n := n) (by simp [Phrase.rank] at hdepth ⊢; omega) hstops
    rw [Phrase.Accepted, Cursor.rewind_rewind] at he
    rw [Phrase.Accepted, Cursor.rewind_rewind] at hbody
    rw [Phrase.Accepted, List.append_assoc]
    exact (Rule.statement_if hword).trans
      (Rule.ifStatement_two hlp he hrp hbody hother hrest)
  | @loop word lp e rp s o i ts j us k hword hlp _ hrp _ ih ihBody =>
    obtain ⟨n, rfl⟩ := Phrase.exists_depth hdepth
    have he := ih (c := c.rewind (rp :: us) j) (n := n) rfl
      (by simp [Phrase.rank] at hdepth ⊢; omega)
      (Phrase.stops_rewind (by rw [hrp]; simp [Phrase.continues, Level.all]))
    have hbody := ihBody hj (n := n) (by simp [Phrase.rank] at hdepth ⊢; omega) hstops
    rw [Phrase.Accepted, Cursor.rewind_rewind] at he
    exact (Rule.statement_while hword).trans (Rule.whileStatement_apply hlp he hrp hbody)
  | @counting word lp first condition semi step rp s o i ts j us k vs l ws m hword hlp _ _ hsemi _
      hrp _ ihFirst ihCondition ihStep ihBody =>
    obtain ⟨n, rfl⟩ := Phrase.exists_depth hdepth
    have hfirst := ihFirst (c := c.rewind (us ++ semi :: (vs ++ rp :: ws)) j) (n := n) rfl
      (by simp [Phrase.rank] at hdepth ⊢; omega) (Phrase.stops_of_nil rfl)
    have hcondition := ihCondition (c := c.rewind (semi :: (vs ++ rp :: ws)) k) (n := n) rfl
      (by simp [Phrase.rank] at hdepth ⊢; omega) (Phrase.stops_of_nil rfl)
      .semicolon (by decide) (by simp [hsemi])
    have hstep := ihStep (c := c.rewind (rp :: ws) l) (n := n) rfl
      (by simp [Phrase.rank] at hdepth ⊢; omega) (Phrase.stops_of_nil rfl)
      .rightParen (by decide) (by simp [hrp])
    have hbody := ihBody hj (n := n) (by simp [Phrase.rank] at hdepth ⊢; omega) hstops
    rw [Phrase.Accepted, Cursor.rewind_rewind] at hfirst
    rw [Cursor.rewind_rewind] at hcondition hstep
    have hrun := Rule.forStatement_apply hlp hfirst hcondition hsemi hstep hrp hbody
    refine (Eq.trans ?_ (Rule.statement_for hword)).trans hrun
    simp
  | @block lb ss rb i ts j hlb _ hrb ih =>
    obtain ⟨n, rfl⟩ := Phrase.exists_depth hdepth
    subst hj
    have hblock := (ih (c := c.rewind [rb] c.nextId) (n := n) rfl
      (by simp [Phrase.rank] at hdepth ⊢; omega) (Phrase.stops_of_nil rfl)).1
      rb c hrb rfl
    rw [Cursor.rewind_rewind] at hblock
    exact (Rule.statement_block hlb).trans (map_eq_ok.mpr ⟨ss, hblock, rfl⟩)
  | declarationsNil =>
    obtain ⟨n, rfl⟩ := Phrase.exists_depth hdepth
    refine ⟨?_, ?_⟩
    · rintro rb c₁ hrb rfl
      subst hj
      exact Rule.block_end hrb
    · intro hend
      subst hj
      exact Rule.program_end hend
  | @declarationsCons s ss i ts j us k hread hrest ih ihRest =>
    obtain ⟨n, rfl⟩ := Phrase.exists_depth hdepth
    obtain ⟨t, ts, rfl, ht⟩ := hread.starts rfl
    have hne : ∀ a ∉ declarationStarts, t.terminal ≠ a := fun a ha hta => ha (hta ▸ ht)
    have hfirst (hend : ¬(c.rewind us j).Faces (.keyword .elseWord)) :=
      ih (c := c.rewind us j) (n := n) rfl (by simp [Phrase.rank] at hdepth ⊢; omega)
        (by simpa [Phrase.Stops, Phrase.continues] using hend)
    have hothers := ihRest hj (n := n) (by simp [Phrase.rank] at hdepth ⊢; omega)
      (Phrase.stops_of_nil rfl)
    rw [Phrase.Accepted, Cursor.rewind_rewind] at hfirst
    refine ⟨?_, ?_⟩
    · intro rb c₁ hrb hc
      have hend := hrest.not_faces_else (c := c) (by rw [hc]; simp [hrb])
      exact Rule.block_cons (hne _ (by decide)) (hfirst hend) (hothers.1 rb c₁ hrb hc)
    · intro hc
      have hend := hrest.not_faces_else (Cursor.not_faces_of_end hc)
      exact Rule.program_cons (hfirst hend) (hothers.2 hc)
  | @classDecl word name parent lb decls rb i ts j us k hword hname _ hlb _ hrb ih ihMethods =>
    obtain ⟨n, rfl⟩ := Phrase.exists_depth hdepth
    obtain ⟨t, ts', heq, ht⟩ : ∃ t ts', word :: name :: ts ++ lb :: us ++ [rb] = t :: ts' ∧
      t.terminal = .keyword .classWord := ⟨_, _, rfl, hword⟩
    subst hj
    have hparent := ih (c := c.rewind (lb :: us ++ [rb]) j) (n := n) rfl
      (by simp [Phrase.rank] at hdepth ⊢; omega) (Phrase.stops_of_nil rfl)
      (by simp [hlb])
    have hmethods := ihMethods (c := c.rewind [rb] c.nextId) (n := n) rfl
      (by simp [Phrase.rank] at hdepth ⊢; omega) (Phrase.stops_of_nil rfl)
      (by simp [hrb])
    rw [Cursor.rewind_rewind] at hparent hmethods
    have hrun := Rule.classDeclaration_apply hname hparent hlb hmethods hrb
    refine Rule.declaration_rewind ?_
    rw [if_pos hword]
    simpa using hrun
  | @funcDecl word decl i ts j hword _ ih =>
    obtain ⟨n, rfl⟩ := Phrase.exists_depth hdepth
    have hdecl := ih hj (n := n) (by simp [Phrase.rank] at hdepth ⊢; omega)
      (Phrase.stops_of_nil rfl) .function
    refine Rule.declaration_rewind ?_
    rw [if_neg (by simp [hword]), if_pos hword]
    exact map_eq_ok.mpr ⟨_, hdecl, rfl⟩
  | varDecl hread ih =>
    obtain ⟨n, rfl⟩ := Phrase.exists_depth hdepth
    obtain ⟨t, us, rfl, ht⟩ := hread.starts rfl
    have hvar := ih hj (n := n) (by simp [Phrase.rank] at hdepth ⊢; omega)
      (Phrase.stops_of_nil rfl) t us rfl
    rw [List.mem_singleton] at ht
    refine Rule.declaration_rewind ?_
    rw [if_neg (by simp [ht]), if_neg (by simp [ht]), if_pos ht]
    exact hvar
  | @statement s o i ts j hread ih =>
    obtain ⟨n, rfl⟩ := Phrase.exists_depth hdepth
    obtain ⟨t, us, rfl, ht⟩ := hread.starts rfl
    have hne : ∀ a ∉ statementStarts, t.terminal ≠ a := fun a ha hta => ha (hta ▸ ht)
    have hstatement := ih hj (n := n) (by simp [Phrase.rank] at hdepth ⊢; omega)
      (by cases o with
        | true => exact hstops
        | false => exact Phrase.stops_of_nil rfl)
    refine Rule.declaration_rewind ?_
    rw [if_neg (hne _ (by decide)), if_neg (hne _ (by decide)), if_neg (hne _ (by decide))]
    exact hstatement
  | noHeritage =>
    intro hface
    subst hj
    exact Rule.heritage_none fun hface' => by cases hface.unique hface'
  | someHeritage hless hname =>
    intro _
    rw [Rule.heritage_some hless hname, ← hj, Cursor.rewind_nil]
  | functionsNil =>
    intro hface
    obtain ⟨n, rfl⟩ := Phrase.exists_depth hdepth
    subst hj
    exact Rule.methods_end hface
  | @functionsCons decl decls i ts j us k hread _ ih ihRest =>
    intro hface
    obtain ⟨n, rfl⟩ := Phrase.exists_depth hdepth
    obtain ⟨t, ts, rfl, ht⟩ := hread.starts rfl
    rw [List.mem_singleton] at ht
    have hfirst := ih (c := c.rewind us j) (n := n) rfl
      (by simp [Phrase.rank] at hdepth ⊢; omega) (Phrase.stops_of_nil rfl) .method
    have hrest := ihRest hj (n := n) (by simp [Phrase.rank] at hdepth ⊢; omega) hstops hface
    rw [Cursor.rewind_rewind] at hfirst
    exact Rule.methods_cons (by simp [ht]) hfirst hrest
  | @function name lp params rp lb body rb i ts us j hname hlp _ hrp hlb _ hrb ih ihBody =>
    intro sort
    subst hj
    obtain ⟨found, hparams, rfl⟩ := ih (c := c.rewind (rp :: lb :: us ++ [rb]) i) (n := n) rfl
      (by simp [Phrase.rank] at hdepth ⊢; omega) (Phrase.stops_of_nil rfl)
      (by simp [hrp])
    have hbody := (ihBody (c := c.rewind [rb] c.nextId) (n := n) rfl
      (by simp [Phrase.rank] at hdepth ⊢; omega) (Phrase.stops_of_nil rfl)).1
      rb c hrb rfl
    rw [Cursor.rewind_rewind] at hparams hbody
    have hrun := Rule.function_apply sort hname hlp hparams hrp hlb hbody
    simpa using hrun
  | noParameters =>
    intro hface
    subst hj
    exact ⟨none, Rule.whenNot_none hface, rfl⟩
  | @someParameters ps i ts j hread hlength ih =>
    intro hface
    obtain ⟨t, ts, rfl, ht⟩ := hread.starts rfl
    have hparams := ih hj hdepth (Phrase.stops_of_faces hface (by simp [Phrase.continues])) 0
      (by simpa using hlength)
    exact ⟨some ps, Rule.whenNot_some (Cursor.not_faces_rewind ht (by decide)) hparams, rfl⟩
  | parametersOne hname =>
    intro count hcount
    obtain ⟨n, rfl⟩ := Phrase.exists_depth hdepth
    subst hj
    exact Rule.parameters_one hcount hname (hstops _ List.mem_cons_self)
  | @parametersCons p comma ps i ts j hname hcomma _ ih =>
    intro count hcount
    rw [List.length_cons] at hcount
    obtain ⟨n, rfl⟩ := Phrase.exists_depth hdepth
    have hrest := ih hj (n := n) (by simp [Phrase.rank] at hdepth ⊢; omega) hstops (count + 1)
      (by omega)
    exact Rule.parameters_cons (by omega) hname hcomma hrest

/-- A program that has a reading is parsed, as this reading. -/
theorem parse_of_reads {tokens : List Token} {finish : Token} {i j : NodeId} {program : Program}
    (h : Reads (.declarations program) i tokens j) :
    parse tokens finish i = ⟨program, [], j⟩ := by
  have hrun := (h.accepted (c := ⟨[], finish, j, []⟩) (n := parsingDepth tokens.length) rfl
    (by simp only [Phrase.rank, parsingDepth]; omega)
    (Phrase.stops_of_nil rfl)).2 rfl
  simp only [Cursor.rewind, List.append_nil] at hrun
  simp only [parse, hrun]

end Treewalk
