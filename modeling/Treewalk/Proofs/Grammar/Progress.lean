import Treewalk.Proofs.Grammar.Following

/-! The parser finishes. The head over the whole token sequence does what the parser does: no rule asks
for a token that is not there, and every pass of a loop takes a token, so nothing that the tape watches
for ever happens. -/

namespace Treewalk

theorem Token.not_mem_literalTerminals {t : Token} (h : t.literal? = none) :
    t.terminal ∉ literalTerminals := by
  rintro ht
  obtain ⟨v, hv⟩ := Token.literal?_of_terminal ht
  rw [h] at hv
  cases hv

namespace Tape

variable {c : Cursor} {before : List Token} {out n : Nat}

/-! ### Expressions -/

/-- The rules for expressions, within a depth. -/
structure ExpressionsFollow (n : Nat) : Prop where
  expression : ∀ m, Follows m (m + 1) (Rule.expression n) (expression n)
  operation : ∀ m levels, Follows m (m + 1) (Rule.operation n levels) (operation n levels)
  operations : ∀ m level tighter left,
    Follows m m (Rule.operations n level tighter left) (operations n level tighter left)
  unary : ∀ m, Follows m (m + 1) (Rule.unary n) (unary n)
  calls : ∀ m callee, Follows m m (Rule.calls n callee) (calls n callee)
  arguments : ∀ m count, Follows m (m + 1) (Rule.arguments n count) (arguments n count)
  primary : ∀ m, Follows m (m + 1) (Rule.primary n) (primary n)

/-- What starts neither a constant nor a name nor a group is no expression. -/
theorem follows_nameOrGroup_fail {inner : Rule Expr} (hc : c.Ended)
    (h : ∀ a ∈ [.keyword .thisWord, .keyword .parentWord, .identifier, .punct .leftParen],
      ¬c.Faces a) :
    FollowsAt before out (Rule.fail .expression) (nameOrGroup inner) c := by
  simp only [List.forall_mem_cons] at h
  obtain ⟨hthis, hparent, hname, hparen, -⟩ := h
  refine .decline hc (by simpa using hthis) (.decline hc (by simpa using hparent) ?_)
  exact .decline hc (by simpa using hname) (.decline hc (by simpa using hparen)
    (follows_fail _ before c hc (Nat.zero_le _)))

section
variable (h : ExpressionsFollow n)
include h

/-- The choice that the parser makes by the next token is made class by class on the tape. -/
theorem follows_primary (m : Nat) : Follows m (m + 1) (Rule.primary (n + 1)) (primary (n + 1)) := by
  intro before c hc hm
  rw [Rule.primary, primary]
  refine .get ?_
  cases hahead : c.ahead with
  | nil =>
    have hnone (a : Terminal) : ¬c.Faces a := Cursor.not_faces_of_end hahead
    exact .decline hc (fun a _ => hnone a) (follows_nameOrGroup_fail hc fun a _ => hnone a)
  | cons t rest =>
    dsimp only
    split
    · next v hv =>
      refine .skip hc hahead (Token.terminal_of_literal? hv) ?_
      simp only [Option.bind_some, hv]
      exact .pure _ (by omega)
    · next hliteral =>
      have hnone {as : List Terminal} (ht : t.terminal ∉ as) : ∀ a ∈ as, ¬c.Faces a :=
        Cursor.not_faces_of_not_mem hahead ht
      refine .decline hc (hnone (Token.not_mem_literalTerminals hliteral)) ?_
      split
      · next ht =>
        exact .skip hc hahead (by simp [ht]) ((follows_number _).bind fun _ => .pure _ (by omega))
      · next ht =>
        refine .decline hc (hnone (by simp [ht])) (.skip hc hahead (by simp [ht]) ?_)
        exact (follows_expectPunct _ _).bind fun _ => (follows_expect _ _).bind fun _ =>
          (follows_number _).bind fun _ => .pure _ (by omega)
      · next ht =>
        refine .decline hc (hnone (by simp [ht])) (.decline hc (hnone (by simp [ht])) ?_)
        exact .skip hc hahead (by simp [ht]) ((follows_number _).bind fun _ => .pure _ (by omega))
      · next ht =>
        refine .decline hc (hnone (by simp [ht])) (.decline hc (hnone (by simp [ht])) ?_)
        refine .decline hc (hnone (by simp [ht])) (.skip hc hahead (by simp [ht]) ?_)
        exact (h.expression _).bind fun _ => (follows_expectPunct _ _).bind fun _ =>
          .pure _ (by omega)
      · next hthis hparent hname hparen =>
        refine follows_nameOrGroup_fail hc (hnone ?_)
        simp only [List.mem_cons, List.not_mem_nil, or_false, not_or]
        exact ⟨hthis, hparent, hname, hparen⟩

theorem follows_calls (m : Nat) (callee : Expr) :
    Follows m m (Rule.calls (n + 1) callee) (calls (n + 1) callee) := by
  rw [Rule.calls, calls]
  refine .pass fun start hstart => .ifPunct ?_ (.ifPunct ?_ (.pure callee hstart))
  · exact (((h.arguments _ 0).le (Nat.le_succ _)).whenNot).bind fun args =>
      (follows_expectPunct _ _).bind fun paren => .goOn (by omega) ((h.calls _ _).le (by omega))
  · exact (follows_expect _ _).bind fun name => .goOn (by omega) ((h.calls _ _).le (by omega))

theorem follows_arguments (m count : Nat) :
    Follows m (m + 1) (Rule.arguments (n + 1) count) (arguments (n + 1) count) := by
  rw [Rule.arguments, arguments]
  refine .pass fun start hstart => .limited ((h.expression _).bind fun e =>
    .ifPunct (.goOn (by omega) ?_) (.pure _ (by omega)))
  exact (h.arguments _ _).bind fun es => .pure _ (by omega)

end

theorem expressionsFollow (n : Nat) : ExpressionsFollow n := by
  induction n with
  | zero => constructor <;> intros <;> exact follows_exhausted
  | succ n h =>
    refine ⟨fun m => ?_, fun m levels => ?_, fun m level tighter left => ?_, fun m => ?_,
      follows_calls h, follows_arguments h, follows_primary h⟩
    · rw [Rule.expression, expression]
      refine (h.operation _ _).bind fun target => .accept (fun equals => ?_) (.pure target le_rfl)
      exact (h.expression _).bind fun value => (follows_assignment _ _ _).le (by omega)
    · cases levels with
      | nil =>
        rw [Rule.operation, operation]
        exact h.unary _
      | cons level tighter =>
        rw [Rule.operation, operation]
        exact (h.operation _ _).bind fun left => h.operations _ _ _ _
    · rw [Rule.operations, operations]
      refine .pass fun start hstart => .acceptAny (fun op => ?_) (.pure left hstart)
      exact (h.operation _ _).bind fun right => .goOn (by omega) ((h.operations _ _ _ _).le (by omega))
    · rw [Rule.unary, unary]
      refine .acceptAny (fun op => ?_) ?_
      · exact (h.unary _).bind fun e => .pure _ (by omega)
      · exact (h.primary _).bind fun callee => h.calls _ _

/-! ### Statements -/

theorem follows_expression (m : Nat) : Follows m (m + 1) (Rule.expression n) (expression n) :=
  (expressionsFollow n).expression m

theorem follows_initialValue (m : Nat) : Follows m m (Rule.initialValue n) (initialValue n) :=
  .ifPunct ((follows_expression _).bind fun e => .pure (some e) (by omega)) (.pure none le_rfl)

theorem follows_varDeclaration (m : Nat) :
    Follows m (m + 1) (Rule.varDeclaration n) (varDeclaration n) :=
  (follows_expect _ _).bind fun _ => (follows_initialValue _).bind fun _ =>
    (follows_expectPunct _ _).bind fun _ => .pure _ (by omega)

theorem follows_expressionStatement (m : Nat) :
    Follows m (m + 1) (Rule.expressionStatement n) (expressionStatement n) :=
  (follows_expression _).bind fun _ => (follows_expectPunct _ _).bind fun _ => .pure _ (by omega)

theorem follows_printStatement (m : Nat) :
    Follows m (m + 1) (Rule.printStatement n) (printStatement n) :=
  (follows_expression _).bind fun _ => (follows_expectPunct _ _).bind fun _ => .pure _ (by omega)

theorem follows_clause (m : Nat) (a : Terminal) :
    Follows m m (Rule.whenNot a (Rule.expression n)) (whenNot a (expression n)) :=
  ((follows_expression _).le (Nat.le_succ _)).whenNot

theorem follows_returnStatement (m : Nat) (word : Token) :
    Follows m (m + 1) (Rule.returnStatement n word) (returnStatement n word) :=
  (follows_clause _ _).bind fun _ => (follows_expectPunct _ _).bind fun _ => .pure _ le_rfl

section
variable {s : Treewalk.Rule Stmt} {s' : Rule Stmt} (h : ∀ m, Follows m (m + 1) s s')
include h

theorem follows_ifStatement (m : Nat) :
    Follows m (m + 1) (Rule.ifStatement n s) (ifStatement n s') :=
  (follows_expectPunct _ _).bind fun _ => (follows_expression _).bind fun _ =>
    (follows_expectPunct _ _).bind fun _ => (h _).bind fun _ =>
    .accept (fun _ => (h _).bind fun _ => .pure _ (by omega)) (.pure _ (by omega))

theorem follows_whileStatement (m : Nat) :
    Follows m (m + 1) (Rule.whileStatement n s) (whileStatement n s') :=
  (follows_expectPunct _ _).bind fun _ => (follows_expression _).bind fun _ =>
    (follows_expectPunct _ _).bind fun _ => (h _).bind fun _ => .pure _ (by omega)

omit h in
theorem follows_forInitial (m : Nat) : Follows m (m + 1) (Rule.forInitial n) (forInitial n) :=
  .ifPunct (.pure none le_rfl) <|
    .accept (fun _ => (follows_varDeclaration _).bind fun s => .pure (some s) (by omega))
      ((follows_expressionStatement _).bind fun s => .pure (some s) le_rfl)

theorem follows_forStatement (m : Nat) :
    Follows m (m + 1) (Rule.forStatement n s) (forStatement n s') :=
  (follows_expectPunct _ _).bind fun _ => (follows_forInitial _).bind fun _ =>
    (follows_clause _ _).bind fun _ => (follows_expectPunct _ _).bind fun _ =>
    (follows_clause _ _).bind fun _ => (follows_expectPunct _ _).bind fun _ =>
    (h _).bind fun _ => .pure _ (by omega)

end

theorem follows_parameters (m count : Nat) :
    Follows m (m + 1) (Rule.parameters n count) (parameters n count) := by
  induction n generalizing m count with
  | zero => exact follows_exhausted
  | succ n ih =>
    rw [Rule.parameters, parameters]
    refine .pass fun start hstart => .limited ((follows_expect _ _).bind fun name =>
      .ifPunct (.goOn (by omega) ?_) (.pure _ (by omega)))
    exact (ih _ _).bind fun names => .pure _ (by omega)

theorem follows_function (sort : FunctionSort) {b : Treewalk.Rule (List Stmt)}
    {b' : Rule (List Stmt)} (h : ∀ m, Follows m m b b') (m : Nat) :
    Follows m (m + 1) (Rule.function n sort b) (function n sort b') :=
  (follows_expect _ _).bind fun _ => (follows_expectPunct _ _).bind fun _ =>
    ((follows_parameters _ 0).le (Nat.le_succ _)).whenNot.bind fun _ =>
    (follows_expectPunct _ _).bind fun _ => (follows_expectPunct _ _).bind fun _ =>
    (h _).bind fun _ => .pure _ (by omega)

theorem follows_heritage (m : Nat) : Follows m m Rule.heritage heritage :=
  .ifPunct ((follows_expect _ _).bind fun parent => (follows_number parent).bind fun ref =>
    .pure (some ref) (by omega)) (.pure none le_rfl)

theorem follows_classDeclaration {d : Treewalk.Rule (List FunctionDecl)}
    {d' : Rule (List FunctionDecl)} (h : ∀ m, Follows m m d d') (m : Nat) :
    Follows m (m + 1) (Rule.classDeclaration d) (classDeclaration d') :=
  (follows_expect _ _).bind fun _ => (follows_heritage _).bind fun _ =>
    (follows_expectPunct _ _).bind fun _ => (h _).bind fun _ =>
    (follows_expectPunct _ _).bind fun _ => .pure _ (by omega)

/-- The rules for statements and declarations, within a depth. A declaration begins at a token. -/
structure StatementsFollow (n : Nat) : Prop where
  declaration : ∀ before c, Cursor.Ended c → c.ahead ≠ [] →
    FollowsAt before (before.length + 1) (Rule.declaration n) (declaration n) c
  statement : ∀ m, Follows m (m + 1) (Rule.statement n) (statement n)
  block : ∀ m, Follows m m (Rule.block n) (block n)
  methods : ∀ m, Follows m m (Rule.methods n) (methods n)

section
variable (h : StatementsFollow n)
include h

theorem follows_declaration (hc : c.Ended) (hne : c.ahead ≠ []) :
    FollowsAt before (before.length + 1) (Rule.declaration (n + 1)) (declaration (n + 1)) c := by
  rw [Rule.declaration, declaration, FollowsAt, bind_of_ok peek_tape]
  refine FollowsAt.recovering hc hne ?_
  refine Follows.accept (fun _ => ?_) (.accept (fun _ => ?_) (.accept (fun _ => ?_) ?_)) before c hc
    (le_refl before.length)
  · exact (follows_classDeclaration h.methods _).le (by omega)
  · exact (follows_function _ h.block _).bind fun _ => .pure _ (by omega)
  · exact (follows_varDeclaration _).le (by omega)
  · exact h.statement _

theorem follows_statement (m : Nat) :
    Follows m (m + 1) (Rule.statement (n + 1)) (statement (n + 1)) := by
  rw [Rule.statement, statement]
  refine .accept (fun _ => (follows_forStatement h.statement _).le (by omega)) ?_
  refine .accept (fun _ => (follows_ifStatement h.statement _).le (by omega)) ?_
  refine .accept (fun _ => (follows_whileStatement h.statement _).le (by omega)) ?_
  refine .accept (fun word => (follows_returnStatement _ word).le (by omega)) ?_
  refine .ifPunct ((h.block _).bind fun _ => .pure _ le_rfl) ?_
  exact .accept (fun _ => (follows_printStatement _).le (by omega)) (follows_expressionStatement _)

end

theorem statementsFollow (n : Nat) : StatementsFollow n := by
  induction n with
  | zero =>
    exact ⟨fun _ _ _ _ => .exhausted, fun _ => follows_exhausted, fun _ => follows_exhausted,
      fun _ => follows_exhausted⟩
  | succ n h =>
    refine ⟨fun before c hc hne => follows_declaration h hc hne, follows_statement h, fun m => ?_,
      fun m => ?_⟩
    · rw [Rule.block, block]
      refine .unlessClosed (fun before c hc hne hm => .pass ?_)
        ((follows_expectPunct _ _).bind fun _ => .pure _ (by omega))
      exact (h.declaration before c hc hne).bind hc fun _ => .goOn (Nat.lt_succ_self _)
        ((h.block _).bind fun _ => .pure _ (by omega))
    · rw [Rule.methods, methods]
      refine .unlessClosed (fun before c hc _ hm => .pass ?_) (.pure _ le_rfl)
      exact (follows_function _ h.block _ before c hc (le_refl before.length)).bind hc fun _ =>
        .goOn (Nat.lt_succ_self _) ((h.methods _).bind fun _ => .pure _ (by omega))

theorem follows_program (m : Nat) : Follows m m (Rule.program n) (program n) := by
  induction n generalizing m with
  | zero => exact follows_exhausted
  | succ n ih =>
    intro before c hc hm
    rw [Rule.program, program, FollowsAt, bind_of_ok (Rule.atEnd_apply c), bind_of_ok (atEnd_tape hc)]
    split
    · exact Follows.pure [] le_rfl before c hc hm
    · next hmore =>
      have hne : c.ahead ≠ [] := by simpa using hmore
      refine FollowsAt.pass ?_
      exact ((statementsFollow n).declaration before c hc hne).bind hc fun _ =>
        .goOn (Nat.lt_succ_self _) ((ih _).bind fun _ => .pure _ (by omega))

/-! ### The whole sequence -/

section
variable {tokens : List Token} {finish : Token} {depth : Nat}
  (hfinish : finish.terminal = .eof) (htokens : ∀ t ∈ tokens, t.terminal ≠ .eof)
  (hdepth : parsingDepth tokens.length ≤ depth)
include hfinish htokens hdepth

theorem program_tape (i : NodeId) :
    program depth ⟨tokens ++ [finish], 0, i, []⟩ = .ok (parse tokens finish i).program
      ⟨tokens ++ [finish], tokens.length, (parse tokens finish i).nextId,
        (parse tokens finish i).faults⟩ := by
  obtain ⟨c, hrun, hend, hfaults, hnextId⟩ := program_eq_parse finish i hdepth
  have h := follows_program (n := depth) 0 [] ⟨tokens, finish, i, []⟩ ⟨hfinish, htokens⟩
    (Nat.zero_le _)
  rw [FollowsAt, hrun] at h
  generalize htape : program depth (Cursor.tape ⟨tokens, finish, i, []⟩ []) = r at h
  cases h with
  | @ok _ taken _ hahead hfinish' _ =>
    rw [hend, List.append_nil] at hahead
    cases hahead
    refine htape.trans ?_
    simp [Cursor.tape, hend, hfinish', hfaults, hnextId]

theorem declaration_tape {tape : Tape} (htape : tape.tokens = tokens ++ [finish])
    (hhead : tape.head < tokens.length) :
    ∃ first tape', declaration depth tape = .ok first tape' ∧ tape'.tokens = tape.tokens ∧
      tape.head < tape'.head ∧ tape'.head ≤ tokens.length := by
  let c : Cursor := ⟨tokens.drop tape.head, finish, tape.nextId, tape.faults⟩
  have hlength : c.ahead.length = tokens.length - tape.head := List.length_drop
  have hended : c.Ended := ⟨hfinish, fun t ht => htokens t (List.mem_of_mem_drop ht)⟩
  have hne : c.ahead ≠ [] := List.ne_nil_of_length_pos (by omega)
  have hc : c.tape (tokens.take tape.head) = tape := by
    simp only [c, Cursor.tape, ← List.append_assoc, List.take_append_drop, ← htape,
      List.length_take, Nat.min_eq_left hhead.le]
  have hroom : 16 * c.ahead.length + 12 ≤ depth := by
    unfold parsingDepth at hdepth
    omega
  obtain ⟨first, c₁, hrun, -, -⟩ := Rule.declaration_settles le_rfl hroom hne
  have h := (statementsFollow depth).declaration (tokens.take tape.head) c hended hne
  rw [FollowsAt, hrun, hc] at h
  generalize hresult : declaration depth tape = r at h
  cases h with
  | @ok _ taken _ hahead hfinish' hout =>
    have htaken := congrArg List.length hahead
    rw [List.length_append] at htaken
    simp only [List.length_append, List.length_take, Nat.min_eq_left hhead.le] at hout
    refine ⟨first, _, rfl, ?_, ?_, ?_⟩
    · rw [← Cursor.tokens_tape hahead hfinish', hc]
    all_goals
      simp only [Cursor.tape, List.length_append, List.length_take, Nat.min_eq_left hhead.le]
      omega

/-- The parser finishes, whatever the tokens in front of the end mark are. Over the whole sequence the
head reads what the parser reads and stops at the end mark. It is never asked for a token that is not
there, and no pass of a loop is without a token: each of these would have stopped it for good. Wherever
a declaration begins at a token, it is read or given up, and the head has gone on. -/
theorem program_finishes (i : NodeId) :
    program depth ⟨tokens ++ [finish], 0, i, []⟩ = .ok (parse tokens finish i).program
        ⟨tokens ++ [finish], tokens.length, (parse tokens finish i).nextId,
          (parse tokens finish i).faults⟩ ∧
      ∀ tape : Tape, tape.tokens = tokens ++ [finish] → tape.head < tokens.length →
        ∃ first tape', declaration depth tape = .ok first tape' ∧ tape'.tokens = tape.tokens ∧
          tape.head < tape'.head ∧ tape'.head ≤ tokens.length :=
  ⟨program_tape hfinish htokens hdepth i,
    fun _ htape hhead => declaration_tape hfinish htokens hdepth htape hhead⟩

end

/-- Without an end mark the head would leave the tape. -/
example : ∃ tape, program (parsingDepth 1) ⟨[⟨.keyword .printWord, "print", 1⟩], 0, 0, []⟩ =
    .error .outside tape :=
  ⟨_, rfl⟩

/-- In an open block the parser gives up at a closing parenthesis, and once more at the end mark, where
recovery moves the head no further. -/
theorem program_finishes_open_block :
    let lb : Token := ⟨.punct .leftBrace, "\x7b", 1⟩
    let rp : Token := ⟨.punct .rightParen, ")", 1⟩
    let finish : Token := ⟨.eof, "", 1⟩
    finish.terminal = .eof ∧ (∀ t ∈ [lb, rp], t.terminal ≠ .eof) ∧
      program (parsingDepth 2) ⟨[lb, rp, finish], 0, 0, []⟩ =
        .ok [] ⟨[lb, rp, finish], 2, 0, [.parse rp .expression, .parse finish .blockClosing]⟩ ∧
      ∃ first tape', declaration (parsingDepth 2) ⟨[lb, rp, finish], 1, 0, []⟩ = .ok first tape' ∧
        tape'.head = 2 := by
  intro lb rp finish
  have hfinish : finish.terminal = .eof := rfl
  have htokens : ∀ t ∈ [lb, rp], t.terminal ≠ .eof := by decide
  obtain ⟨hprogram, hdeclaration⟩ := program_finishes hfinish htokens le_rfl 0
  refine ⟨hfinish, htokens, hprogram.trans (by cbv), ?_⟩
  obtain ⟨first, tape', hrun, -, hon, hwithin⟩ :=
    hdeclaration ⟨[lb, rp, finish], 1, 0, []⟩ rfl (by decide)
  exact ⟨first, tape', hrun, Nat.le_antisymm hwithin hon⟩

end Tape

end Treewalk
