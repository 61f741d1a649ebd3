import Treewalk.Proofs.Grammar.Segments

/-! Depth. At most sixteen rules are entered one inside the other before another token is taken, so a
depth that grows with the number of tokens ahead is never used up, whatever the tokens are, and a
greater one changes nothing. -/

namespace Treewalk

/-- Recovery leaves fewer tokens, or none of none. -/
theorem recoverAt_length_le (ts : List Token) : (recoverAt ts).length ≤ ts.length - 1 := by
  cases ts with
  | nil => exact le_rfl
  | cons t rest => exact nextStatement_length_le t rest

namespace Rule

variable {α β : Type} {x x' y y' : Rule α} {f f' : α → Rule β} {len mid out n n' : Nat}
  {c c₁ : Cursor} {a : α}

/-- No more tokens are ahead than there were at `c`, and at most `out` where the rule yields. The
depth is not used up. -/
def EndsWithin (out : Nat) (c : Cursor) : EStateM.Result Unparsed Cursor α → Prop
  | .ok _ c₁ => c₁.ahead.length ≤ c.ahead.length ∧ c₁.ahead.length ≤ out
  | .error (.fault _) c₁ => c₁.ahead.length ≤ c.ahead.length
  | .error .exhausted _ => False

/-- The second rule does what the first one does, and that ends. -/
structure SettlesAt (out : Nat) (x x' : Rule α) (c : Cursor) : Prop where
  same : x' c = x c
  ends : EndsWithin out c (x c)

/-- Wherever at most `len` tokens are ahead, the second rule does what the first one does, and at most
`out` tokens are ahead where they yield. -/
def Settles (len out : Nat) (x x' : Rule α) : Prop :=
  ∀ c : Cursor, c.ahead.length ≤ len → SettlesAt out x x' c

theorem EndsWithin.trans {r : EStateM.Result Unparsed Cursor α} (h : EndsWithin out c₁ r)
    (hle : c₁.ahead.length ≤ c.ahead.length) : EndsWithin out c r := by
  match r, h with
  | .ok _ _, ⟨hback, hout⟩ => exact ⟨hback.trans hle, hout⟩
  | .error (.fault _) _, hback => exact Nat.le_trans hback hle

/-- Where both rules have begun alike, it depends on how they go on. -/
theorem SettlesAt.of_ok (hrun : x c = .ok a c₁) (hrun' : x' c = .ok a c₁)
    (hle : c₁.ahead.length ≤ c.ahead.length) (h : SettlesAt out (f a) (f' a) c₁) :
    SettlesAt out (x >>= f) (x' >>= f') c := by
  constructor
  · rw [bind_of_ok hrun, bind_of_ok hrun', h.same]
  · rw [bind_of_ok hrun]
    exact h.ends.trans hle

theorem SettlesAt.bind (hx : SettlesAt mid x x' c) (hf : ∀ a, Settles mid out (f a) (f' a)) :
    SettlesAt out (x >>= f) (x' >>= f') c := by
  obtain ⟨hsame, hends⟩ := hx
  cases hrun : x c with
  | ok a c₁ =>
    rw [hrun] at hsame hends
    exact .of_ok hrun hsame hends.1 (hf a c₁ hends.2)
  | error reason c₁ =>
    rw [hrun] at hsame hends
    cases reason with
    | fault found =>
      refine ⟨by rw [bind_of_error hrun, bind_of_error hsame], ?_⟩
      rw [bind_of_error hrun]
      exact hends
    | exhausted => exact hends.elim

theorem Settles.bind (hx : Settles len mid x x') (hf : ∀ a, Settles mid out (f a) (f' a)) :
    Settles len out (x >>= f) (x' >>= f') :=
  fun c hc => (hx c hc).bind hf

theorem Settles.pure (a : α) (h : len ≤ out) : Settles len out (pure a) (pure a) :=
  fun _ hc => ⟨rfl, le_rfl, hc.trans h⟩

/-- The bound on what is left may be greater. -/
theorem Settles.le (h : Settles len mid x x') (hmid : mid ≤ out) : Settles len out x x' := by
  intro c hc
  obtain ⟨hsame, hends⟩ := h c hc
  refine ⟨hsame, ?_⟩
  match x c, hends with
  | .ok _ _, ⟨hback, hout⟩ => exact ⟨hback, hout.trans hmid⟩
  | .error (.fault _) _, hback => exact hback

/-- As many tokens as before are left at most. -/
theorem Settles.back (h : Settles len (len - 1) x x') : Settles len len x x' :=
  h.le (Nat.sub_le len 1)

/-! ### The moves -/

theorem settles_fail (fault : ParseFault) : Settles len out (fail fault : Rule α) (fail fault) :=
  fun c _ => ⟨rfl, le_refl c.ahead.length⟩

/-- Both rules take the next token or neither does. -/
theorem Settles.acceptAny {as : List Terminal} {f f' : Option Token → Rule β}
    (hsome : ∀ t, 0 < len → Settles (len - 1) out (f (some t)) (f' (some t)))
    (hnone : Settles len out (f none) (f' none)) :
    Settles len out (Rule.acceptAny as >>= f) (Rule.acceptAny as >>= f') := by
  intro c hc
  cases hahead : c.ahead with
  | nil =>
    have hrun : Rule.acceptAny as c = .ok none c := by rw [acceptAny_apply, hahead]
    exact .of_ok hrun hrun le_rfl (hnone c hc)
  | cons t rest =>
    by_cases ht : t.terminal ∈ as
    · have hlen : rest.length + 1 ≤ len := by simpa [hahead] using hc
      have hrun := acceptAny_of_mem hahead ht
      exact .of_ok hrun hrun (by simp [hahead])
        (hsome t (Nat.zero_lt_of_lt hlen) _ (Nat.le_sub_one_of_lt hlen))
    · have hrun := acceptAny_of_not_mem hahead ht
      exact .of_ok hrun hrun le_rfl (hnone c hc)

theorem Settles.accept {t : Terminal} {f f' : Option Token → Rule β}
    (hsome : ∀ t, 0 < len → Settles (len - 1) out (f (some t)) (f' (some t)))
    (hnone : Settles len out (f none) (f' none)) :
    Settles len out (Rule.accept t >>= f) (Rule.accept t >>= f') :=
  .acceptAny hsome hnone

theorem Settles.ifPunct {p : Punct} (hx : 0 < len → Settles (len - 1) out x x')
    (hy : Settles len out y y') :
    Settles len out (do if ← acceptPunct p then x else y)
      (do if ← acceptPunct p then x' else y') := by
  simp only [acceptPunct, bind_assoc, pure_bind]
  exact .accept (fun _ hpos => hx hpos) hy

theorem settles_expect (t : Terminal) (fault : ParseFault) :
    Settles len (len - 1) (expect t fault) (expect t fault) :=
  .accept (fun token _ => .pure token le_rfl) (settles_fail fault)

theorem settles_expectPunct (p : Punct) (fault : ParseFault) :
    Settles len (len - 1) (expectPunct p fault) (expectPunct p fault) :=
  settles_expect _ fault

theorem settles_record (token : Token) (fault : ParseFault) :
    Settles len len (record token fault) (record token fault) :=
  fun c hc => ⟨rfl, le_refl c.ahead.length, hc⟩

theorem settles_number (name : Token) : Settles len len (number name) (number name) :=
  fun c hc => ⟨rfl, le_refl c.ahead.length, hc⟩

theorem settles_peek : Settles len len peek peek :=
  fun c hc => ⟨rfl, le_refl c.ahead.length, hc⟩

theorem settles_check (t : Terminal) : Settles len len (check t) (check t) := by
  refine fun c hc => ⟨rfl, ?_⟩
  rw [check_apply]
  exact ⟨le_rfl, hc⟩

/-- One entry too many is noted in both. -/
theorem Settles.limited {count : Nat} {fault : ParseFault} (h : Settles len out x x') :
    Settles len out
      (do
        if maxArguments ≤ count then record (← peek) fault
        x)
      (do
        if maxArguments ≤ count then record (← peek) fault
        x') := by
  split
  · exact settles_peek.bind fun t => (settles_record t fault).bind fun _ => h
  · exact h

theorem Settles.whenNot {t : Terminal} (h : Settles len len x x') :
    Settles len len (whenNot t x) (whenNot t x') := by
  refine (settles_check t).bind fun here => ?_
  cases here with
  | true => exact .pure none le_rfl
  | false => exact h.bind fun a => .pure (some a) le_rfl

/-- A list in braces ends at a brace or where no token is left. -/
theorem Settles.unlessClosed {t : Terminal} (hx : 0 < len → Settles len out x x')
    (hy : Settles len out y y') :
    Settles len out (do if (← atEnd) || (← check t) then y else x)
      (do if (← atEnd) || (← check t) then y' else x') := by
  intro c hc
  refine .of_ok (atEnd_apply c) (atEnd_apply c) le_rfl ?_
  refine .of_ok (check_apply t c) (check_apply t c) le_rfl ?_
  cases hahead : c.ahead with
  | nil => exact hy c hc
  | cons u rest =>
    have hpos : 0 < len := Nat.zero_lt_of_lt (hahead ▸ hc)
    by_cases hface : c.Faces t
    · simpa [hface] using hy c hc
    · simpa [hface] using hx hpos c hc

theorem settles_assignment (target : Expr) (equals : Token) (value : Expr) :
    Settles len len (assignment target equals value) (assignment target equals value) := by
  unfold assignment
  split
  · exact (settles_number _).bind fun _ => .pure _ le_rfl
  · exact .pure _ le_rfl
  · exact (settles_record _ _).bind fun _ => .pure _ le_rfl

/-! ### Expressions -/

/-- The rules for expressions, within two depths of which the smaller one allows for `len` tokens. -/
structure ExpressionsSettle (n n' : Nat) : Prop where
  expression : ∀ len, 16 * len + 10 ≤ n →
    Settles len (len - 1) (expression n) (expression n')
  operation : ∀ len levels, levels <:+ Level.all → 16 * len + levels.length + 3 ≤ n →
    Settles len (len - 1) (operation n levels) (operation n' levels)
  operations : ∀ len level tighter left, level :: tighter <:+ Level.all → 16 * len + 1 ≤ n →
    Settles len len (operations n level tighter left) (operations n' level tighter left)
  unary : ∀ len, 16 * len + 2 ≤ n → Settles len (len - 1) (unary n) (unary n')
  calls : ∀ len callee, 16 * len + 1 ≤ n → Settles len len (calls n callee) (calls n' callee)
  arguments : ∀ len count, 16 * len + 11 ≤ n →
    Settles len (len - 1) (arguments n count) (arguments n' count)
  primary : ∀ len, 16 * len + 1 ≤ n → Settles len (len - 1) (primary n) (primary n')

section
variable (h : ExpressionsSettle n n')
include h

theorem settles_primary (hlen : 16 * len + 1 ≤ n + 1) :
    Settles len (len - 1) (primary (n + 1)) (primary (n' + 1)) := by
  intro c hc
  rw [primary, primary]
  refine .of_ok get_apply get_apply le_rfl ?_
  cases hahead : c.ahead with
  | nil => exact settles_fail _ c hc
  | cons t rest =>
    have hrest : rest.length + 1 ≤ len := by simpa [hahead] using hc
    have hskip : SettlesAt (len - 1) skip skip c := by
      refine ⟨rfl, ?_⟩
      rw [skip, modify_apply, hahead]
      exact ⟨by simp [hahead], Nat.le_sub_one_of_lt hrest⟩
    dsimp only
    split
    · exact hskip.bind fun _ => .pure _ le_rfl
    · split
      · exact hskip.bind fun _ => (settles_number _).bind fun _ => .pure _ le_rfl
      · exact hskip.bind fun _ => (settles_expectPunct _ _).back.bind fun _ =>
          (settles_expect _ _).back.bind fun _ => (settles_number _).bind fun _ => .pure _ le_rfl
      · exact hskip.bind fun _ => (settles_number _).bind fun _ => .pure _ le_rfl
      · exact hskip.bind fun _ => (h.expression _ (by omega)).back.bind fun _ =>
          (settles_expectPunct _ _).back.bind fun _ => .pure _ le_rfl
      · exact settles_fail _ c hc

theorem settles_calls (callee : Expr) (hlen : 16 * len + 1 ≤ n + 1) :
    Settles len len (calls (n + 1) callee) (calls (n' + 1) callee) := by
  rw [calls, calls]
  refine .ifPunct (fun hpos => ?_) (.ifPunct (fun hpos => ?_) (.pure callee le_rfl))
  · exact (h.arguments _ 0 (by omega)).back.whenNot.bind fun args =>
      (settles_expectPunct _ _).bind fun paren => (h.calls _ _ (by omega)).le (by omega)
  · exact (settles_expect _ _).bind fun name => (h.calls _ _ (by omega)).le (by omega)

theorem settles_arguments (count : Nat) (hlen : 16 * len + 11 ≤ n + 1) :
    Settles len (len - 1) (arguments (n + 1) count) (arguments (n' + 1) count) := by
  rw [arguments, arguments]
  refine .limited ((h.expression _ (by omega)).bind fun e =>
    .ifPunct (fun hpos => ?_) (.pure _ le_rfl))
  exact (h.arguments _ _ (by omega)).bind fun es => .pure _ (by omega)

end

theorem expressionsSettle (hdepth : n ≤ n') : ExpressionsSettle n n' := by
  induction n generalizing n' with
  | zero => constructor <;> intros <;> omega
  | succ n ih =>
    obtain ⟨n', rfl⟩ := Nat.exists_eq_add_one_of_ne_zero (Nat.ne_zero_of_lt hdepth)
    have h := ih (Nat.le_of_succ_le_succ hdepth)
    refine ⟨fun len hlen => ?_, fun len levels hlevels hlen => ?_,
      fun len level tighter left hlevels hlen => ?_, fun len hlen => ?_,
      fun _ callee hlen => settles_calls h callee hlen,
      fun _ count hlen => settles_arguments h count hlen, fun _ hlen => settles_primary h hlen⟩
    · rw [expression, expression]
      have hcount : Level.all.length = 6 := rfl
      refine (h.operation len _ (List.suffix_refl _) (by omega)).bind fun target =>
        .accept (fun equals hpos => ?_) (.pure target le_rfl)
      exact (h.expression _ (by omega)).bind fun value => (settles_assignment _ _ _).le (by omega)
    · cases levels with
      | nil =>
        rw [operation, operation]
        exact h.unary _ (Nat.le_of_succ_le_succ hlen)
      | cons level tighter =>
        rw [operation, operation]
        rw [List.length_cons] at hlen
        exact (h.operation _ _ ((List.suffix_cons level tighter).trans hlevels) (by omega)).bind
          fun left => h.operations _ _ _ _ hlevels (by omega)
    · rw [operations, operations]
      have hcount : tighter.length < 6 := hlevels.length_le
      refine .acceptAny (fun op hpos => ?_) (.pure left le_rfl)
      exact (h.operation _ _ ((List.suffix_cons level tighter).trans hlevels) (by omega)).bind
        fun right => (h.operations _ _ _ _ hlevels (by omega)).le (by omega)
    · rw [unary, unary]
      refine .acceptAny (fun op hpos => ?_) ?_
      · exact (h.unary _ (by omega)).bind fun e => .pure _ (by omega)
      · exact (h.primary _ (by omega)).bind fun callee => h.calls _ _ (by omega)

/-! ### Statements -/

section
variable (hdepth : n ≤ n')
include hdepth

theorem settles_expression (hlen : 16 * len + 10 ≤ n) :
    Settles len (len - 1) (expression n) (expression n') :=
  (expressionsSettle hdepth).expression len hlen

theorem settles_initialValue (hlen : 16 * len ≤ n) :
    Settles len len (initialValue n) (initialValue n') :=
  .ifPunct (fun hpos => (settles_expression hdepth (by omega)).bind fun e =>
    .pure (some e) (by omega)) (.pure none le_rfl)

theorem settles_varDeclaration (hlen : 16 * len ≤ n) :
    Settles len (len - 1) (varDeclaration n) (varDeclaration n') :=
  (settles_expect _ _).bind fun name => (settles_initialValue hdepth (by omega)).bind fun initial =>
    (settles_expectPunct _ _).bind fun _ => .pure _ (by omega)

theorem settles_expressionStatement (hlen : 16 * len + 10 ≤ n) :
    Settles len (len - 1) (expressionStatement n) (expressionStatement n') :=
  (settles_expression hdepth hlen).bind fun _ => (settles_expectPunct _ _).bind fun _ =>
    .pure _ (by omega)

theorem settles_printStatement (hlen : 16 * len + 10 ≤ n) :
    Settles len (len - 1) (printStatement n) (printStatement n') :=
  (settles_expression hdepth hlen).bind fun _ => (settles_expectPunct _ _).bind fun _ =>
    .pure _ (by omega)

theorem settles_returnStatement (word : Token) (hlen : 16 * len + 10 ≤ n) :
    Settles len (len - 1) (returnStatement n word) (returnStatement n' word) :=
  (settles_expression hdepth hlen).back.whenNot.bind fun _ =>
    (settles_expectPunct _ _).bind fun _ => .pure _ le_rfl

theorem settles_ifStatement {statement statement' : Rule Stmt} (hlen : 16 * len + 10 ≤ n)
    (h : ∀ m ≤ len, Settles m (m - 1) statement statement') :
    Settles len (len - 1) (ifStatement n statement) (ifStatement n' statement') :=
  (settles_expectPunct _ _).bind fun _ => (settles_expression hdepth (by omega)).bind fun _ =>
    (settles_expectPunct _ _).bind fun _ => (h _ (by omega)).bind fun _ =>
    .accept (fun _ _ => (h _ (by omega)).bind fun _ => .pure _ (by omega)) (.pure _ (by omega))

theorem settles_whileStatement {statement statement' : Rule Stmt} (hlen : 16 * len + 10 ≤ n)
    (h : ∀ m ≤ len, Settles m (m - 1) statement statement') :
    Settles len (len - 1) (whileStatement n statement) (whileStatement n' statement') :=
  (settles_expectPunct _ _).bind fun _ => (settles_expression hdepth (by omega)).bind fun _ =>
    (settles_expectPunct _ _).bind fun _ => (h _ (by omega)).bind fun _ => .pure _ (by omega)

theorem settles_forInitial (hlen : 16 * len + 10 ≤ n) :
    Settles len (len - 1) (forInitial n) (forInitial n') :=
  .ifPunct (fun _ => .pure none le_rfl) <|
    .accept (fun _ _ => (settles_varDeclaration hdepth (by omega)).bind fun s =>
      .pure (some s) (by omega))
    ((settles_expressionStatement hdepth hlen).bind fun s => .pure (some s) le_rfl)

theorem settles_forStatement {statement statement' : Rule Stmt} (hlen : 16 * len + 10 ≤ n)
    (h : ∀ m ≤ len, Settles m (m - 1) statement statement') :
    Settles len (len - 1) (forStatement n statement) (forStatement n' statement') :=
  (settles_expectPunct _ _).bind fun _ => (settles_forInitial hdepth (by omega)).bind fun _ =>
    (settles_expression hdepth (by omega)).back.whenNot.bind fun _ =>
    (settles_expectPunct _ _).bind fun _ =>
    (settles_expression hdepth (by omega)).back.whenNot.bind fun _ =>
    (settles_expectPunct _ _).bind fun _ => (h _ (by omega)).bind fun _ => .pure _ (by omega)

omit hdepth in
theorem settles_parameters (count : Nat) (hdepth : n ≤ n') (hlen : 16 * len + 1 ≤ n) :
    Settles len (len - 1) (parameters n count) (parameters n' count) := by
  induction n generalizing n' len count with
  | zero => omega
  | succ n ih =>
    obtain ⟨n', rfl⟩ := Nat.exists_eq_add_one_of_ne_zero (Nat.ne_zero_of_lt hdepth)
    rw [parameters, parameters]
    refine .limited ((settles_expect _ _).bind fun name =>
      .ifPunct (fun hpos => ?_) (.pure _ le_rfl))
    exact (ih _ (Nat.le_of_succ_le_succ hdepth) (by omega)).bind fun names => .pure _ (by omega)

theorem settles_function (sort : FunctionSort) {body body' : Rule (List Stmt)}
    (hlen : 16 * len + 1 ≤ n) (h : ∀ m ≤ len - 1, Settles m m body body') :
    Settles len (len - 1) (function n sort body) (function n' sort body') :=
  (settles_expect _ _).bind fun _ => (settles_expectPunct _ _).bind fun _ =>
    (settles_parameters 0 hdepth (by omega)).back.whenNot.bind fun _ =>
    (settles_expectPunct _ _).bind fun _ => (settles_expectPunct _ _).bind fun _ =>
    (h _ (by omega)).bind fun _ => .pure _ (by omega)

end

theorem settles_heritage : Settles len len heritage heritage :=
  .ifPunct (fun _ => (settles_expect _ _).bind fun parent => (settles_number parent).bind fun ref =>
    .pure (some ref) (by omega)) (.pure none le_rfl)

theorem settles_classDeclaration {methods methods' : Rule (List FunctionDecl)}
    (h : ∀ m ≤ len, Settles m m methods methods') :
    Settles len (len - 1) (classDeclaration methods) (classDeclaration methods') :=
  (settles_expect _ _).bind fun _ => settles_heritage.bind fun _ =>
    (settles_expectPunct _ _).bind fun _ => (h _ (by omega)).bind fun _ =>
    (settles_expectPunct _ _).bind fun _ => .pure _ (by omega)

/-- Recovery takes a token where there is one. -/
theorem Settles.recovering (h : ∀ m ≤ len, Settles m (m - 1) x x') :
    Settles len (len - 1) (recovering x) (recovering x') := by
  intro c hc
  obtain ⟨hsame, hends⟩ := h _ hc c le_rfl
  cases hrun : x c with
  | ok a c₁ =>
    rw [hrun] at hsame hends
    rw [EndsWithin] at hends
    refine ⟨by simp only [Rule.recovering, hrun, hsame], ?_⟩
    simp only [Rule.recovering, hrun, EndsWithin]
    omega
  | error reason c₁ =>
    rw [hrun] at hsame hends
    cases reason with
    | fault found =>
      rw [EndsWithin] at hends
      refine ⟨by simp only [Rule.recovering, hrun, hsame], ?_⟩
      simp only [Rule.recovering, hrun, EndsWithin]
      have hless := recoverAt_length_le c₁.ahead
      omega
    | exhausted => exact hends.elim

/-- The rules for statements and declarations, within two depths of which the smaller one allows for
`len` tokens. -/
structure StatementsSettle (n n' : Nat) : Prop where
  declaration : ∀ len, 16 * len + 12 ≤ n →
    Settles len (len - 1) (declaration n) (declaration n')
  statement : ∀ len, 16 * len + 11 ≤ n → Settles len (len - 1) (statement n) (statement n')
  block : ∀ len, 16 * len + 13 ≤ n → Settles len len (block n) (block n')
  methods : ∀ len, 16 * len + 13 ≤ n → Settles len len (methods n) (methods n')

section
variable (hdepth : n ≤ n') (h : StatementsSettle n n')
include hdepth h

theorem settles_statement (hlen : 16 * len + 11 ≤ n + 1) :
    Settles len (len - 1) (statement (n + 1)) (statement (n' + 1)) := by
  have hbody (m : Nat) (hpos : 0 < len) (hm : m ≤ len - 1) :
      Settles m (m - 1) (statement n) (statement n') := h.statement m (by omega)
  rw [statement, statement]
  refine .accept (fun _ hpos => (settles_forStatement hdepth (by omega)
    fun m => hbody m hpos).le (by omega)) ?_
  refine .accept (fun _ hpos => (settles_ifStatement hdepth (by omega)
    fun m => hbody m hpos).le (by omega)) ?_
  refine .accept (fun _ hpos => (settles_whileStatement hdepth (by omega)
    fun m => hbody m hpos).le (by omega)) ?_
  refine .accept (fun word hpos => (settles_returnStatement hdepth word (by omega)).le (by omega)) ?_
  refine .ifPunct (fun hpos => (h.block _ (by omega)).bind fun _ => .pure _ le_rfl) ?_
  exact .accept (fun _ hpos => (settles_printStatement hdepth (by omega)).le (by omega))
    (settles_expressionStatement hdepth (by omega))

theorem settles_declaration (hlen : 16 * len + 12 ≤ n + 1) :
    Settles len (len - 1) (declaration (n + 1)) (declaration (n' + 1)) := by
  rw [declaration, declaration]
  refine .recovering fun m hm => ?_
  refine .accept (fun _ hpos => (settles_classDeclaration fun k hk =>
    h.methods k (by omega)).le (by omega)) ?_
  refine .accept (fun _ hpos => (settles_function hdepth _ (by omega) fun k hk =>
    h.block k (by omega)).bind fun _ => .pure _ (by omega)) ?_
  exact .accept (fun _ hpos => (settles_varDeclaration hdepth (by omega)).le (by omega))
    (h.statement _ (by omega))

end

theorem statementsSettle (hdepth : n ≤ n') : StatementsSettle n n' := by
  induction n generalizing n' with
  | zero => constructor <;> intros <;> omega
  | succ n ih =>
    obtain ⟨n', rfl⟩ := Nat.exists_eq_add_one_of_ne_zero (Nat.ne_zero_of_lt hdepth)
    have hdepth : n ≤ n' := Nat.le_of_succ_le_succ hdepth
    have h := ih hdepth
    refine ⟨fun _ hlen => settles_declaration hdepth h hlen,
      fun _ hlen => settles_statement hdepth h hlen, fun len hlen => ?_, fun len hlen => ?_⟩
    · rw [block, block]
      refine .unlessClosed (fun hpos => ?_) ((settles_expectPunct _ _).bind fun _ => .pure _ (by omega))
      exact (h.declaration _ (by omega)).bind fun _ => (h.block _ (by omega)).bind fun _ =>
        .pure _ (by omega)
    · rw [methods, methods]
      refine .unlessClosed (fun hpos => ?_) (.pure _ le_rfl)
      exact (settles_function hdepth _ (by omega) fun m hm => h.block m (by omega)).bind fun _ =>
        (h.methods _ (by omega)).bind fun _ => .pure _ (by omega)

/-- A declaration that fails is given up. -/
theorem declaration_ne_fault {found : Diagnostic} : declaration n c ≠ .error (.fault found) c₁ := by
  cases n with
  | zero =>
    rw [declaration]
    rintro ⟨⟩
  | succ n =>
    rw [declaration, Rule.recovering]
    split <;> rintro ⟨⟩

/-- A declaration is read or given up, and takes a token where there is one. -/
theorem declaration_settles (hdepth : n ≤ n') (hlen : 16 * c.ahead.length + 12 ≤ n)
    (hne : c.ahead ≠ []) : ∃ first c₁, declaration n c = .ok first c₁ ∧
      declaration n' c = .ok first c₁ ∧ c₁.ahead.length < c.ahead.length := by
  obtain ⟨hsame, hends⟩ := (statementsSettle hdepth).declaration _ hlen c le_rfl
  cases hrun : declaration n c with
  | ok first c₁ =>
    rw [hrun] at hsame hends
    have hpos := List.length_pos_of_ne_nil hne
    exact ⟨first, c₁, rfl, hsame, hends.2.trans_lt (Nat.sub_one_lt_of_lt hpos)⟩
  | error reason c₁ =>
    cases reason with
    | fault found => exact absurd hrun declaration_ne_fault
    | exhausted =>
      rw [hrun] at hends
      exact hends.elim

/-- A program is read to the end, whatever the tokens are. -/
theorem program_settles (hdepth : n ≤ n') (hlen : 16 * c.ahead.length + 13 ≤ n) :
    ∃ ss c₁, program n c = .ok ss c₁ ∧ program n' c = .ok ss c₁ ∧ c₁.ahead = [] := by
  induction n generalizing n' c with
  | zero => omega
  | succ n ih =>
    obtain ⟨n', rfl⟩ := Nat.exists_eq_add_one_of_ne_zero (Nat.ne_zero_of_lt hdepth)
    have hdepth : n ≤ n' := Nat.le_of_succ_le_succ hdepth
    by_cases hend : c.ahead = []
    · exact ⟨[], c, program_end hend, program_end hend, hend⟩
    · obtain ⟨first, c₁, hfirst, hfirst', hless⟩ := declaration_settles hdepth (by omega) hend
      obtain ⟨ss, c₂, hrest, hrest', hdone⟩ := ih (c := c₁) hdepth (by omega)
      refine ⟨first.toList ++ ss, c₂, ?_, ?_, hdone⟩
      · rw [program_of_declaration hend hfirst, bind_of_ok hrest]
        rfl
      · rw [program_of_declaration hend hfirst', bind_of_ok hrest']
        rfl

end Rule

/-- Every depth that allows for the tokens gives what parsing them gives. -/
theorem program_eq_parse {tokens : List Token} (finish : Token) (i : NodeId) {n : Nat}
    (hdepth : parsingDepth tokens.length ≤ n) :
    ∃ c, Rule.program n ⟨tokens, finish, i, []⟩ = .ok (parse tokens finish i).program c ∧
      c.ahead = [] ∧ c.faults = (parse tokens finish i).faults ∧
      c.nextId = (parse tokens finish i).nextId := by
  obtain ⟨ss, c, hrun, hrun', hend⟩ :=
    Rule.program_settles (c := ⟨tokens, finish, i, []⟩) hdepth
      (by simp only [parsingDepth]; omega)
  rw [parse, hrun]
  exact ⟨c, hrun', hend, rfl, rfl⟩

end Treewalk
