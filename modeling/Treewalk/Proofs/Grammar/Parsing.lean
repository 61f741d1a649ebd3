import Treewalk.Proofs.Grammar.Reading
import Treewalk.Proofs.Run

/-! What the parser accepts is read. A run that ends without a recorded fault started without one,
and the tokens between its start and its end have the reading that it yields. -/

namespace Treewalk

/-- The cursor before `ts` was read, `i` being the first free number then. -/
def Cursor.rewind (c : Cursor) (ts : List Token) (i : NodeId) : Cursor :=
  { c with ahead := ts ++ c.ahead, nextId := i }

namespace Cursor

@[simp] theorem faults_rewind (c : Cursor) (ts : List Token) (i : NodeId) :
    (c.rewind ts i).faults = c.faults := rfl

@[simp] theorem ahead_rewind (c : Cursor) (ts : List Token) (i : NodeId) :
    (c.rewind ts i).ahead = ts ++ c.ahead := rfl

@[simp] theorem nextId_rewind (c : Cursor) (ts : List Token) (i : NodeId) :
    (c.rewind ts i).nextId = i := rfl

@[simp] theorem rewind_nil (c : Cursor) : c.rewind [] c.nextId = c := rfl

@[simp] theorem rewind_rewind (c : Cursor) (ts us : List Token) (i j : NodeId) :
    (c.rewind us j).rewind ts i = c.rewind (ts ++ us) i := by
  simp [rewind]

/-- The next token is of class `t`. -/
def Faces (c : Cursor) (t : Terminal) : Prop := c.ahead.head?.map Token.terminal = some t

instance (c : Cursor) (t : Terminal) : Decidable (c.Faces t) :=
  inferInstanceAs (Decidable (_ = _))

end Cursor

namespace Rule

variable {α β : Type} {c c₀ : Cursor}

/-- Whenever `rule` yields `a` and ends at `c` without a fault, it started at `c` rewound by some `ts` and `i`
for which `P a i ts c` holds. -/
def Yields (rule : Rule α) (P : α → NodeId → List Token → Cursor → Prop) : Prop :=
  ∀ ⦃c₀ a c⦄, rule c₀ = .ok a c → c.faults = [] → ∃ ts i, c₀ = c.rewind ts i ∧ P a i ts c

/-- `rule` yields readings. -/
def Reading (rule : Rule α) (phrase : α → Phrase) : Prop :=
  rule.Yields fun a i ts c => Reads (phrase a) i ts c.nextId

theorem acceptAny_apply (ts : List Terminal) (c : Cursor) :
    acceptAny ts c = match c.ahead with
      | [] => .ok none c
      | t :: rest =>
        if t.terminal ∈ ts then .ok (some t) { c with ahead := rest } else .ok none c := by
  cases h : c.ahead with
  | nil => simp [acceptAny, bind, EStateM.bind, h]
  | cons t rest =>
    by_cases ht : t.terminal ∈ ts <;> simp [acceptAny, bind, EStateM.bind, h, ht]

theorem acceptAny_ok {ts : List Terminal} {found : Option Token}
    (h : acceptAny ts c₀ = .ok found c) :
    (found = none ∧ c₀ = c ∧ ∀ t ∈ ts, ¬c.Faces t) ∨
      ∃ t, found = some t ∧ t.terminal ∈ ts ∧ c₀ = c.rewind [t] c.nextId := by
  rw [acceptAny_apply] at h
  split at h
  · next hahead =>
    cases h
    exact .inl ⟨rfl, rfl, by simp [Cursor.Faces, hahead]⟩
  · next t rest hahead =>
    split at h <;> cases h
    · next ht => exact .inr ⟨t, rfl, ht, by cases c₀; cases hahead; rfl⟩
    · next ht =>
      refine .inl ⟨rfl, rfl, fun u hu hface => ht ?_⟩
      simp only [Cursor.Faces, hahead, List.head?_cons, Option.map_some, Option.some.injEq] at hface
      exact hface ▸ hu

theorem accept_ok {t : Terminal} {found : Option Token} (h : accept t c₀ = .ok found c) :
    (found = none ∧ c₀ = c ∧ ¬c.Faces t) ∨
      ∃ token, found = some token ∧ token.terminal = t ∧ c₀ = c.rewind [token] c.nextId := by
  simpa using acceptAny_ok h

theorem acceptPunct_ok {p : Punct} {found : Bool} (h : acceptPunct p c₀ = .ok found c) :
    (found = false ∧ c₀ = c ∧ ¬c.Faces (.punct p)) ∨
      ∃ token, found = true ∧ token.terminal = .punct p ∧ c₀ = c.rewind [token] c.nextId := by
  unfold acceptPunct at h
  obtain ⟨found, r, haccept, ⟨⟩⟩ := bind_eq_ok.mp h
  obtain ⟨rfl, hnone⟩ | ⟨t, rfl, hsome⟩ := accept_ok haccept
  · exact .inl ⟨rfl, hnone⟩
  · exact .inr ⟨t, rfl, hsome⟩

theorem fail_ne_ok {fault : ParseFault} {a : α} : fail fault c₀ ≠ .ok a c := by
  simp [fail, bind_eq_ok]

theorem expect_ok {t : Terminal} {fault : ParseFault} {token : Token}
    (h : expect t fault c₀ = .ok token c) :
    token.terminal = t ∧ c₀ = c.rewind [token] c.nextId := by
  unfold expect at h
  obtain ⟨found, r, haccept, hend⟩ := bind_eq_ok.mp h
  obtain ⟨rfl, -⟩ | ⟨found, rfl, ht, hc⟩ := accept_ok haccept
  · exact absurd hend fail_ne_ok
  · cases hend
    exact ⟨ht, hc⟩

theorem check_apply (t : Terminal) (c : Cursor) :
    check t c = .ok (decide (c.Faces t)) c := by
  cases h : c.ahead <;> simp [check, bind, EStateM.bind, Cursor.Faces, h, beq_eq_decide]

theorem whenNot_ok {t : Terminal} {rule : Rule α} {found : Option α}
    (h : whenNot t rule c₀ = .ok found c) :
    (found = none ∧ c₀ = c ∧ c.Faces t) ∨ ∃ a, found = some a ∧ rule c₀ = .ok a c := by
  unfold whenNot at h
  rw [bind_of_ok (check_apply t c₀)] at h
  by_cases hface : c₀.Faces t
  · simp only [hface, decide_true, if_true] at h
    cases h
    exact .inl ⟨rfl, rfl, hface⟩
  · simp only [hface, decide_false, Bool.false_eq_true, if_false] at h
    obtain ⟨a, r, ha, ⟨⟩⟩ := bind_eq_ok.mp h
    exact .inr ⟨a, rfl, ha⟩

theorem number_ok {name : Token} {ref : Reference} (h : number name c₀ = .ok ref c) :
    ∃ i, ref = ⟨i, name⟩ ∧ c.nextId = i + 1 ∧ c₀ = c.rewind [] i := by
  cases h
  exact ⟨c₀.nextId, rfl, rfl, rfl⟩

theorem skip_ok {t : Token} {rest : List Token} {u : Unit} (hahead : c₀.ahead = t :: rest)
    (h : skip c₀ = .ok u c) : c₀ = c.rewind [t] c.nextId := by
  cases h
  cases c₀
  cases hahead
  rfl

theorem assignment_ok {target v e : Expr} {eq : Token} (h : assignment target eq v c₀ = .ok e c)
    (hclean : c.faults = []) :
    (∃ ref k, target = .variable ref ∧ e = .assign ⟨k, ref.name⟩ v ∧ c.nextId = k + 1 ∧
      c₀ = c.rewind [] k) ∨
    (∃ object name, target = .get object name ∧ e = .set object name v ∧ c₀ = c) := by
  unfold assignment at h
  split at h
  · next ref =>
    cases h
    exact .inl ⟨ref, c₀.nextId, rfl, rfl, rfl, rfl⟩
  · next object name =>
    cases h
    exact .inr ⟨object, name, rfl, rfl, rfl⟩
  · cases h
    simp at hclean

/-- An entry beyond the limit leaves a fault behind. -/
theorem limit_ok {limit count : Nat} {fault : ParseFault} {k : Unit → Rule α} {a : α}
    (h : (if limit ≤ count then do
        let token ← peek
        let r ← record token fault
        k r
      else k ()) c₀ = .ok a c) :
    ∃ c₁, k () c₁ = .ok a c ∧ (c₁ = c₀ ∧ count < limit ∨ c₁.faults ≠ []) := by
  split at h
  · simp only [bind_eq_ok] at h
    obtain ⟨token, r, -, u, c₁, hrecord, h⟩ := h
    cases hrecord
    exact ⟨_, h, .inr (by simp)⟩
  · next hcount => exact ⟨c₀, h, .inl ⟨rfl, Nat.lt_of_not_le hcount⟩⟩

/-- What the rules for expressions yield within a depth. -/
structure ExpressionsRead (n : Nat) : Prop where
  expression : (expression n).Reading .expression
  operation : ∀ levels, (operation n levels).Reading (.operation levels)
  operations : ∀ level tighter left,
    (operations n level tighter left).Reading (.operations level tighter left)
  unary : (unary n).Reading .unary
  calls : ∀ callee, (calls n callee).Reading (.calls callee)
  arguments : ∀ count, (arguments n count).Yields fun es i ts c =>
    Reads (.arguments es) i ts c.nextId ∧ count + es.length ≤ maxArguments
  primary : (primary n).Reading .primary

variable {n : Nat}

theorem expression_reading (ih : ExpressionsRead n) : (expression (n + 1)).Reading .expression := by
  intro c₀ e c h hclean
  simp only [expression, bind_eq_ok] at h
  obtain ⟨target, c₁, htarget, found, c₂, hfound, h⟩ := h
  obtain ⟨rfl, rfl, -⟩ | ⟨eq, rfl, heq, rfl⟩ := accept_ok hfound
  · cases h
    obtain ⟨ts, i, rfl, hread⟩ := ih.operation _ htarget hclean
    exact ⟨ts, i, rfl, .value hread⟩
  · simp only [bind_eq_ok] at h
    obtain ⟨v, c₃, hv, h⟩ := h
    -- The target decides which assignment it is; a wrong one would have left a fault behind.
    obtain ⟨ref, k, rfl, rfl, hk, rfl⟩ | ⟨object, name, rfl, rfl, rfl⟩ := assignment_ok h hclean
    · obtain ⟨us, j, rfl, hvalue⟩ := ih.expression hv hclean
      obtain ⟨ts, i, rfl, hread⟩ := ih.operation _ htarget hclean
      refine ⟨ts ++ eq :: us, i, by simp, ?_⟩
      show Reads _ i _ c.nextId
      rw [hk]
      exact .assign hread heq hvalue
    · obtain ⟨us, j, rfl, hvalue⟩ := ih.expression hv hclean
      obtain ⟨ts, i, rfl, hread⟩ := ih.operation _ htarget hclean
      exact ⟨ts ++ eq :: us, i, by simp, .set hread heq hvalue⟩

theorem operation_reading (ih : ExpressionsRead n) (levels : List Level) :
    (operation (n + 1) levels).Reading (.operation levels) := by
  intro c₀ e c h hclean
  cases levels with
  | nil =>
    obtain ⟨ts, i, rfl, hread⟩ := ih.unary h hclean
    exact ⟨ts, i, rfl, .tightest hread⟩
  | cons level tighter =>
    simp only [operation, bind_eq_ok] at h
    obtain ⟨left, c₁, hleft, h⟩ := h
    obtain ⟨us, j, rfl, hrest⟩ := ih.operations _ _ _ h hclean
    obtain ⟨ts, i, rfl, hread⟩ := ih.operation _ hleft hclean
    exact ⟨ts ++ us, i, by simp, .level hread hrest⟩

theorem operations_reading (ih : ExpressionsRead n) (level : Level) (tighter : List Level)
    (left : Expr) :
    (operations (n + 1) level tighter left).Reading (.operations level tighter left) := by
  intro c₀ e c h hclean
  simp only [operations, bind_eq_ok] at h
  obtain ⟨found, c₁, hfound, h⟩ := h
  obtain ⟨rfl, rfl, -⟩ | ⟨op, rfl, hop, rfl⟩ := acceptAny_ok hfound
  · cases h
    exact ⟨[], _, by simp, .operationsNil⟩
  · simp only [bind_eq_ok] at h
    obtain ⟨right, c₂, hright, h⟩ := h
    obtain ⟨us, j, rfl, hrest⟩ := ih.operations _ _ _ h hclean
    obtain ⟨ts, i, rfl, hread⟩ := ih.operation _ hright hclean
    exact ⟨op :: ts ++ us, i, by simp, .operationsCons hop hread hrest⟩

theorem unary_reading (ih : ExpressionsRead n) : (unary (n + 1)).Reading .unary := by
  intro c₀ e c h hclean
  simp only [unary, bind_eq_ok] at h
  obtain ⟨found, c₁, hfound, h⟩ := h
  obtain ⟨rfl, rfl, -⟩ | ⟨op, rfl, hop, rfl⟩ := acceptAny_ok hfound
  · simp only [bind_eq_ok] at h
    obtain ⟨callee, c₂, hcallee, h⟩ := h
    obtain ⟨us, j, rfl, hcalls⟩ := ih.calls _ h hclean
    obtain ⟨ts, i, rfl, hread⟩ := ih.primary hcallee hclean
    exact ⟨ts ++ us, i, by simp, .operand hread hcalls⟩
  · simp only [bind_eq_ok] at h
    obtain ⟨operand, c₂, hoperand, h⟩ := h
    cases h
    obtain ⟨ts, i, rfl, hread⟩ := ih.unary hoperand hclean
    exact ⟨op :: ts, i, by simp, .sign hop hread⟩

theorem calls_reading (ih : ExpressionsRead n) (callee : Expr) :
    (calls (n + 1) callee).Reading (.calls callee) := by
  intro c₀ e c h hclean
  simp only [calls, bind_eq_ok] at h
  obtain ⟨found, c₁, hfound, h⟩ := h
  obtain ⟨rfl, rfl, -⟩ | ⟨lp, rfl, hlp, rfl⟩ := acceptPunct_ok hfound
  · simp only [Bool.false_eq_true, if_false, bind_eq_ok] at h
    obtain ⟨found, c₂, hfound, h⟩ := h
    obtain ⟨rfl, rfl, -⟩ | ⟨dot, rfl, hdot, rfl⟩ := acceptPunct_ok hfound
    · cases h
      exact ⟨[], _, by simp, .callsNil⟩
    · simp only [if_true, bind_eq_ok] at h
      obtain ⟨name, c₃, hname, h⟩ := h
      obtain ⟨isName, rfl⟩ := expect_ok hname
      obtain ⟨us, j, rfl, hcalls⟩ := ih.calls _ h hclean
      exact ⟨dot :: name :: us, j, by simp, .get hdot isName hcalls⟩
  · simp only [if_true, bind_eq_ok] at h
    obtain ⟨args, c₂, hargs, rp, c₃, hrp, h⟩ := h
    obtain ⟨isParen, rfl⟩ := expect_ok hrp
    obtain ⟨us, k, rfl, hcalls⟩ := ih.calls _ h hclean
    obtain ⟨rfl, rfl, -⟩ | ⟨es, rfl, hes⟩ := whenNot_ok hargs
    · exact ⟨lp :: [] ++ rp :: us, k, by simp, .call hlp .noArguments isParen hcalls⟩
    · obtain ⟨ts, i, rfl, hread, hcount⟩ := ih.arguments 0 hes hclean
      exact ⟨lp :: ts ++ rp :: us, i, by simp,
        .call hlp (.someArguments hread (by simpa using hcount)) isParen hcalls⟩

theorem arguments_reading (ih : ExpressionsRead n) (count : Nat) :
    (arguments (n + 1) count).Yields fun es i ts c =>
      Reads (.arguments es) i ts c.nextId ∧ count + es.length ≤ maxArguments := by
  intro c₀ es c h hclean
  rw [arguments] at h
  obtain ⟨c₁, h, hlimit⟩ := limit_ok h
  simp only [bind_eq_ok] at h
  obtain ⟨e, c₂, he, found, c₃, hfound, h⟩ := h
  obtain ⟨rfl, rfl, -⟩ | ⟨comma, rfl, hcomma, rfl⟩ := acceptPunct_ok hfound
  · cases h
    obtain ⟨ts, i, rfl, hread⟩ := ih.expression he hclean
    obtain ⟨rfl, hcount⟩ := hlimit.resolve_right (by simpa using hclean)
    exact ⟨ts, i, rfl, .argumentsOne hread, hcount⟩
  · simp only [if_true, bind_eq_ok] at h
    obtain ⟨others, c₄, hothers, h⟩ := h
    cases h
    obtain ⟨us, j, rfl, hrest, hcount⟩ := ih.arguments _ hothers hclean
    obtain ⟨ts, i, rfl, hread⟩ := ih.expression he hclean
    obtain ⟨rfl, -⟩ := hlimit.resolve_right (by simpa using hclean)
    refine ⟨ts ++ comma :: us, i, by simp, .argumentsCons hread hcomma hrest, ?_⟩
    rw [List.length_cons]
    omega

theorem primary_reading (ih : ExpressionsRead n) : (primary (n + 1)).Reading .primary := by
  intro c₀ e c h hclean
  rw [primary, bind_of_ok get_apply] at h
  generalize hahead : c₀.ahead = ahead at h
  cases ahead with
  | nil => exact absurd h fail_ne_ok
  | cons token rest =>
  dsimp only at h
  generalize hliteral : token.literal? = value at h
  cases value with
  | some value =>
    simp only [bind_eq_ok] at h
    obtain ⟨_, c₂, hskip, h⟩ := h
    cases h
    exact ⟨[token], _, skip_ok hahead hskip, .literal hliteral⟩
  | none =>
    dsimp only at h
    generalize hterminal : token.terminal = terminal at h
    split at h
    · simp only [bind_eq_ok] at h
      obtain ⟨_, c₂, hskip, ref, c₃, hnumber, h⟩ := h
      cases h
      obtain ⟨i, rfl, hi, rfl⟩ := number_ok hnumber
      refine ⟨[token], i, by simp [skip_ok hahead hskip], ?_⟩
      show Reads _ i _ c.nextId
      rw [hi]
      exact .this hterminal
    · simp only [bind_eq_ok] at h
      obtain ⟨_, c₂, hskip, dot, c₃, hdot, method, c₄, hmethod, ref, c₅, hnumber, h⟩ := h
      cases h
      obtain ⟨i, rfl, hi, rfl⟩ := number_ok hnumber
      obtain ⟨isMethod, rfl⟩ := expect_ok hmethod
      obtain ⟨isDot, rfl⟩ := expect_ok hdot
      refine ⟨[token, dot, method], i, by simp [skip_ok hahead hskip], ?_⟩
      show Reads _ i _ c.nextId
      rw [hi]
      exact .parent hterminal isDot isMethod
    · simp only [bind_eq_ok] at h
      obtain ⟨_, c₂, hskip, ref, c₃, hnumber, h⟩ := h
      cases h
      obtain ⟨i, rfl, hi, rfl⟩ := number_ok hnumber
      refine ⟨[token], i, by simp [skip_ok hahead hskip], ?_⟩
      show Reads _ i _ c.nextId
      rw [hi]
      exact .name hterminal
    · simp only [bind_eq_ok] at h
      obtain ⟨_, c₂, hskip, inner, c₃, hinner, rp, c₄, hrp, h⟩ := h
      cases h
      obtain ⟨isParen, rfl⟩ := expect_ok hrp
      obtain ⟨ts, i, rfl, hread⟩ := ih.expression hinner hclean
      exact ⟨token :: ts ++ [rp], i, by simp [skip_ok hahead hskip],
        .grouping hterminal hread isParen⟩
    · exact absurd h fail_ne_ok

theorem expressions_read (n : Nat) : ExpressionsRead n := by
  induction n with
  | zero =>
    constructor <;> intros <;> rintro c₀ a c ⟨⟩
  | succ n ih =>
    exact ⟨expression_reading ih, operation_reading ih, operations_reading ih, unary_reading ih,
      calls_reading ih, arguments_reading ih, primary_reading ih⟩

theorem clause_reading {t : Terminal} (n : Nat) :
    (whenNot t (Rule.expression n)).Reading .clause := by
  intro c₀ found c h hclean
  obtain ⟨rfl, rfl, -⟩ | ⟨e, rfl, he⟩ := whenNot_ok h
  · exact ⟨[], _, by simp, .noClause⟩
  · obtain ⟨ts, i, rfl, hread⟩ := (expressions_read n).expression he hclean
    exact ⟨ts, i, rfl, .someClause hread⟩

theorem expressionStatement_reading (n : Nat) :
    (Rule.expressionStatement n).Reading .expressionStatement := by
  intro c₀ s c h hclean
  simp only [expressionStatement, bind_eq_ok] at h
  obtain ⟨e, c₁, he, semi, c₂, hsemi, h⟩ := h
  cases h
  obtain ⟨isSemi, rfl⟩ := expect_ok hsemi
  obtain ⟨ts, i, rfl, hread⟩ := (expressions_read n).expression he hclean
  exact ⟨ts ++ [semi], i, by simp, .expressionStatement hread isSemi⟩

theorem initialValue_reading (n : Nat) : (initialValue n).Reading .initial := by
  intro c₀ initial c h hclean
  simp only [initialValue, bind_eq_ok] at h
  obtain ⟨found, c₁, hfound, h⟩ := h
  obtain ⟨rfl, rfl, -⟩ | ⟨eq, rfl, heq, rfl⟩ := acceptPunct_ok hfound
  · cases h
    exact ⟨[], _, by simp, .noInitial⟩
  · simp only [if_true, bind_eq_ok] at h
    obtain ⟨e, c₂, he, h⟩ := h
    cases h
    obtain ⟨ts, i, rfl, hread⟩ := (expressions_read n).expression he hclean
    exact ⟨eq :: ts, i, by simp, .someInitial heq hread⟩

/-- A variable is read with the word in front of it. -/
theorem varDeclaration_yields (n : Nat) :
    (varDeclaration n).Yields fun s i ts c =>
      ∀ word, word.terminal = .keyword .varWord → Reads (.binding s) i (word :: ts) c.nextId := by
  intro c₀ s c h hclean
  simp only [varDeclaration, bind_eq_ok] at h
  obtain ⟨name, c₁, hname, initial, c₂, hinitial, semi, c₃, hsemi, h⟩ := h
  cases h
  obtain ⟨isName, rfl⟩ := expect_ok hname
  obtain ⟨isSemi, rfl⟩ := expect_ok hsemi
  obtain ⟨ts, i, rfl, hread⟩ := initialValue_reading n hinitial hclean
  exact ⟨name :: ts ++ [semi], i, by simp, fun word isWord =>
    .binding isWord isName hread isSemi⟩

theorem forInitial_reading (n : Nat) : (forInitial n).Reading .firstClause := by
  intro c₀ s c h hclean
  simp only [forInitial, bind_eq_ok] at h
  obtain ⟨found, c₁, hfound, h⟩ := h
  obtain ⟨rfl, rfl, -⟩ | ⟨semi, rfl, isSemi, rfl⟩ := acceptPunct_ok hfound
  · simp only [Bool.false_eq_true, if_false, bind_eq_ok] at h
    obtain ⟨found, c₂, hfound, h⟩ := h
    obtain ⟨rfl, rfl, -⟩ | ⟨word, rfl, isWord, rfl⟩ := accept_ok hfound
    · simp only [Option.isSome_none, Bool.false_eq_true, if_false, bind_eq_ok] at h
      obtain ⟨s, c₃, hs, h⟩ := h
      cases h
      obtain ⟨ts, i, rfl, hread⟩ := expressionStatement_reading n hs hclean
      exact ⟨ts, i, rfl, .firstExpression hread⟩
    · simp only [Option.isSome_some, if_true, bind_eq_ok] at h
      obtain ⟨s, c₃, hs, h⟩ := h
      cases h
      obtain ⟨ts, i, rfl, hread⟩ := varDeclaration_yields n hs hclean
      exact ⟨word :: ts, i, by simp, .firstVariable (hread word isWord)⟩
  · cases h
    exact ⟨[semi], _, rfl, .firstNone isSemi⟩

/-- `rule` yields readings of statements. Where an open one ends, no `else` follows. -/
def YieldsStatement (rule : Rule Stmt) : Prop :=
  rule.Yields fun s i ts c => ∃ isOpen, Reads (.statement isOpen s) i ts c.nextId ∧
    (isOpen = true → ¬c.Faces (.keyword .elseWord))

/-- `rule` yields readings of statements that start with the word `k`, which is read already. -/
def YieldsBehind (k : Keyword) (rule : Rule Stmt) : Prop :=
  rule.Yields fun s i ts c => ∀ word, word.terminal = .keyword k →
    ∃ isOpen, Reads (.statement isOpen s) i (word :: ts) c.nextId ∧
      (isOpen = true → ¬c.Faces (.keyword .elseWord))

theorem printStatement_yields (n : Nat) : (printStatement n).YieldsBehind .printWord := by
  intro c₀ s c h hclean
  simp only [printStatement, bind_eq_ok] at h
  obtain ⟨e, c₁, he, semi, c₂, hsemi, h⟩ := h
  cases h
  obtain ⟨isSemi, rfl⟩ := expect_ok hsemi
  obtain ⟨ts, i, rfl, hread⟩ := (expressions_read n).expression he hclean
  exact ⟨ts ++ [semi], i, by simp, fun word isWord =>
    ⟨false, .print isWord hread isSemi, by simp⟩⟩

theorem returnStatement_yields (n : Nat) (word : Token) (isWord : word.terminal = .keyword .returnWord) :
    (returnStatement n word).Yields fun s i ts c =>
      Reads (.statement false s) i (word :: ts) c.nextId := by
  intro c₀ s c h hclean
  simp only [returnStatement, bind_eq_ok] at h
  obtain ⟨e, c₁, he, semi, c₂, hsemi, h⟩ := h
  cases h
  obtain ⟨isSemi, rfl⟩ := expect_ok hsemi
  obtain ⟨ts, i, rfl, hread⟩ := clause_reading n he hclean
  exact ⟨ts ++ [semi], i, by simp, .giveBack isWord hread isSemi⟩

theorem ifStatement_yields (n : Nat) {statement : Rule Stmt} (hstatement : statement.YieldsStatement) :
    (ifStatement n statement).YieldsBehind .ifWord := by
  intro c₀ s c h hclean
  simp only [ifStatement, bind_eq_ok] at h
  obtain ⟨lp, c₁, hlp, e, c₂, he, rp, c₃, hrp, s₁, c₄, hs₁, found, c₅, hfound, h⟩ := h
  obtain ⟨isOpening, rfl⟩ := expect_ok hlp
  obtain ⟨isClosing, rfl⟩ := expect_ok hrp
  obtain ⟨rfl, rfl, hface⟩ | ⟨other, rfl, isOther, rfl⟩ := accept_ok hfound
  · cases h
    obtain ⟨us, j, rfl, o, hread₁, -⟩ := hstatement hs₁ hclean
    obtain ⟨ts, i, rfl, hread⟩ := (expressions_read n).expression he hclean
    exact ⟨lp :: ts ++ rp :: us, i, by simp, fun word isWord =>
      ⟨true, .branch isWord isOpening hread isClosing hread₁, fun _ => hface⟩⟩
  · simp only [bind_eq_ok] at h
    obtain ⟨s₂, c₆, hs₂, h⟩ := h
    cases h
    obtain ⟨vs, k, rfl, o, hread₂, hopen⟩ := hstatement hs₂ hclean
    obtain ⟨us, j, rfl, o₁, hread₁, hopen₁⟩ := hstatement hs₁ hclean
    obtain ⟨ts, i, rfl, hread⟩ := (expressions_read n).expression he hclean
    -- An open statement in front of the `else` would have taken it.
    obtain rfl : o₁ = false := by
      cases o₁ with
      | false => rfl
      | true => exact absurd (by simp [Cursor.Faces, isOther]) (hopen₁ rfl)
    exact ⟨lp :: ts ++ rp :: us ++ other :: vs, i, by simp, fun word isWord =>
      ⟨o, .branchElse isWord isOpening hread isClosing hread₁ isOther hread₂, hopen⟩⟩

theorem whileStatement_yields (n : Nat) {statement : Rule Stmt} (hstatement : statement.YieldsStatement) :
    (whileStatement n statement).YieldsBehind .whileWord := by
  intro c₀ s c h hclean
  simp only [whileStatement, bind_eq_ok] at h
  obtain ⟨lp, c₁, hlp, e, c₂, he, rp, c₃, hrp, body, c₄, hbody, h⟩ := h
  cases h
  obtain ⟨isOpening, rfl⟩ := expect_ok hlp
  obtain ⟨isClosing, rfl⟩ := expect_ok hrp
  obtain ⟨us, j, rfl, o, hread₁, hopen⟩ := hstatement hbody hclean
  obtain ⟨ts, i, rfl, hread⟩ := (expressions_read n).expression he hclean
  exact ⟨lp :: ts ++ rp :: us, i, by simp, fun word isWord =>
    ⟨o, .loop isWord isOpening hread isClosing hread₁, hopen⟩⟩

theorem forStatement_yields (n : Nat) {statement : Rule Stmt} (hstatement : statement.YieldsStatement) :
    (forStatement n statement).YieldsBehind .forWord := by
  intro c₀ s c h hclean
  simp only [forStatement, bind_eq_ok] at h
  obtain ⟨lp, c₁, hlp, first, c₂, hfirst, condition, c₃, hcondition, semi, c₄, hsemi, step, c₅,
    hstep, rp, c₆, hrp, body, c₇, hbody, h⟩ := h
  cases h
  obtain ⟨isOpening, rfl⟩ := expect_ok hlp
  obtain ⟨isSemi, rfl⟩ := expect_ok hsemi
  obtain ⟨isClosing, rfl⟩ := expect_ok hrp
  obtain ⟨ws, l, rfl, o, hread₄, hopen⟩ := hstatement hbody hclean
  obtain ⟨vs, k, rfl, hread₃⟩ := clause_reading n hstep hclean
  obtain ⟨us, j, rfl, hread₂⟩ := clause_reading n hcondition hclean
  obtain ⟨ts, i, rfl, hread₁⟩ := forInitial_reading n hfirst hclean
  exact ⟨lp :: ts ++ us ++ semi :: vs ++ rp :: ws, i, by simp, fun word isWord =>
    ⟨o, .counting isWord isOpening hread₁ hread₂ isSemi hread₃ isClosing hread₄, hopen⟩⟩

theorem parameters_yields (n count : Nat) :
    (parameters n count).Yields fun ps i ts c =>
      Reads (.parameters ps) i ts c.nextId ∧ i = c.nextId ∧ count + ps.length ≤ maxArguments := by
  induction n generalizing count with
  | zero => rintro c₀ ps c ⟨⟩
  | succ n ih =>
    intro c₀ ps c h hclean
    rw [parameters] at h
    obtain ⟨c₁, h, hlimit⟩ := limit_ok h
    simp only [bind_eq_ok] at h
    obtain ⟨p, c₂, hp, found, c₃, hfound, h⟩ := h
    obtain ⟨isName, rfl⟩ := expect_ok hp
    obtain ⟨rfl, rfl, -⟩ | ⟨comma, rfl, hcomma, rfl⟩ := acceptPunct_ok hfound
    · cases h
      obtain ⟨rfl, hcount⟩ := hlimit.resolve_right (by simpa using hclean)
      exact ⟨[p], _, rfl, .parametersOne isName, rfl, hcount⟩
    · simp only [if_true, bind_eq_ok] at h
      obtain ⟨others, c₄, hothers, h⟩ := h
      cases h
      obtain ⟨ts, i, rfl, hrest, rfl, hcount⟩ := ih _ hothers hclean
      obtain ⟨rfl, -⟩ := hlimit.resolve_right (by simpa using hclean)
      refine ⟨p :: comma :: ts, _, by simp, .parametersCons isName hcomma hrest, rfl, ?_⟩
      rw [List.length_cons]
      omega

/-- `rule` yields readings of declarations that a closing brace follows. -/
def YieldsBlock (rule : Rule (List Stmt)) : Prop :=
  rule.Yields fun ss i ts c => ∃ us rb, ts = us ++ [rb] ∧ rb.terminal = .punct .rightBrace ∧
    Reads (.declarations ss) i us c.nextId

theorem function_reading (n : Nat) (sort : FunctionSort) {body : Rule (List Stmt)}
    (hbody : body.YieldsBlock) : (Rule.function n sort body).Reading .function := by
  intro c₀ decl c h hclean
  simp only [Rule.function, bind_eq_ok] at h
  obtain ⟨name, c₁, hname, lp, c₂, hlp, params, c₃, hparams, rp, c₄, hrp, lb, c₅, hlb, ss, c₆, hss,
    h⟩ := h
  cases h
  obtain ⟨isName, rfl⟩ := expect_ok hname
  obtain ⟨isOpening, rfl⟩ := expect_ok hlp
  obtain ⟨isClosing, rfl⟩ := expect_ok hrp
  obtain ⟨isBrace, rfl⟩ := expect_ok hlb
  obtain ⟨_, i, rfl, us, rb, rfl, isEnd, hread⟩ := hbody hss hclean
  obtain ⟨rfl, rfl, -⟩ | ⟨ps, rfl, hps⟩ := whenNot_ok hparams
  · exact ⟨name :: lp :: [] ++ rp :: lb :: us ++ [rb], i, by simp,
      .function isName isOpening .noParameters isClosing isBrace hread isEnd⟩
  · obtain ⟨ts, k, rfl, hreadPs, rfl, hcount⟩ := parameters_yields n 0 hps hclean
    exact ⟨name :: lp :: ts ++ rp :: lb :: us ++ [rb], _, by simp,
      .function isName isOpening (.someParameters hreadPs (by simpa using hcount)) isClosing isBrace
        hread isEnd⟩

theorem heritage_reading : heritage.Reading .heritage := by
  intro c₀ parent c h hclean
  simp only [heritage, bind_eq_ok] at h
  obtain ⟨found, c₁, hfound, h⟩ := h
  obtain ⟨rfl, rfl, -⟩ | ⟨less, rfl, isLess, rfl⟩ := acceptPunct_ok hfound
  · cases h
    exact ⟨[], _, by simp, .noHeritage⟩
  · simp only [if_true, bind_eq_ok] at h
    obtain ⟨name, c₂, hname, ref, c₃, hnumber, h⟩ := h
    cases h
    obtain ⟨i, rfl, hi, rfl⟩ := number_ok hnumber
    obtain ⟨isName, rfl⟩ := expect_ok hname
    refine ⟨[less, name], i, by simp, ?_⟩
    show Reads _ i _ c.nextId
    rw [hi]
    exact .someHeritage isLess isName

theorem classDeclaration_yields {methods : Rule (List FunctionDecl)}
    (hmethods : methods.Reading .functions) :
    (classDeclaration methods).Yields fun s i ts c =>
      ∀ word, word.terminal = .keyword .classWord → Reads (.declaration s) i (word :: ts) c.nextId := by
  intro c₀ s c h hclean
  simp only [classDeclaration, bind_eq_ok] at h
  obtain ⟨name, c₁, hname, parent, c₂, hparent, lb, c₃, hlb, decls, c₄, hdecls, rb, c₅, hrb, h⟩ := h
  cases h
  obtain ⟨isName, rfl⟩ := expect_ok hname
  obtain ⟨isBrace, rfl⟩ := expect_ok hlb
  obtain ⟨isEnd, rfl⟩ := expect_ok hrb
  obtain ⟨us, j, rfl, hreadMethods⟩ := hmethods hdecls hclean
  obtain ⟨ts, i, rfl, hread⟩ := heritage_reading hparent hclean
  exact ⟨name :: ts ++ lb :: us ++ [rb], i, by simp, fun word isWord =>
    .classDecl isWord isName hread isBrace hreadMethods isEnd⟩

theorem recovering_ok {rule : Rule α} {found : Option α} (h : recovering rule c₀ = .ok found c)
    (hclean : c.faults = []) : ∃ a, found = some a ∧ rule c₀ = .ok a c := by
  unfold recovering at h
  split at h
  · next a c₁ hrule => cases h; exact ⟨a, rfl, hrule⟩
  · cases h; simp at hclean
  · cases h

theorem atEnd_apply (c : Cursor) : atEnd c = .ok c.ahead.isEmpty c := rfl

/-- What the rules for statements yield within a depth. -/
structure StatementsRead (n : Nat) : Prop where
  declaration : (declaration n).Yields fun found i ts c =>
    ∃ s, found = some s ∧ Reads (.declaration s) i ts c.nextId
  statement : (statement n).YieldsStatement
  block : (block n).YieldsBlock
  methods : (methods n).Reading .functions

theorem declaration_yields (ih : StatementsRead n) :
    (declaration (n + 1)).Yields fun found i ts c =>
      ∃ s, found = some s ∧ Reads (.declaration s) i ts c.nextId := by
  intro c₀ found c h hclean
  rw [declaration] at h
  obtain ⟨s, rfl, hrule⟩ := recovering_ok h hclean
  rw [bind_eq_ok] at hrule
  clear h
  obtain ⟨found, c₁, hfound, h⟩ := hrule
  obtain ⟨rfl, rfl, -⟩ | ⟨word, rfl, isWord, rfl⟩ := accept_ok hfound
  · simp only [Option.isSome_none, Bool.false_eq_true, if_false, bind_eq_ok] at h
    obtain ⟨found, c₂, hfound, h⟩ := h
    obtain ⟨rfl, rfl, -⟩ | ⟨word, rfl, isWord, rfl⟩ := accept_ok hfound
    · simp only [Option.isSome_none, Bool.false_eq_true, if_false, bind_eq_ok] at h
      obtain ⟨found, c₃, hfound, h⟩ := h
      obtain ⟨rfl, rfl, -⟩ | ⟨word, rfl, isWord, rfl⟩ := accept_ok hfound
      · obtain ⟨ts, i, rfl, o, hread, -⟩ := ih.statement h hclean
        exact ⟨ts, i, rfl, s, rfl, .statement hread⟩
      · obtain ⟨ts, i, rfl, hread⟩ := varDeclaration_yields n h hclean
        exact ⟨word :: ts, i, by simp, s, rfl, .varDecl (hread word isWord)⟩
    · simp only [Option.isSome_some, if_true, bind_eq_ok] at h
      obtain ⟨decl, c₃, hdecl, h⟩ := h
      cases h
      obtain ⟨ts, i, rfl, hread⟩ := function_reading n _ ih.block hdecl hclean
      exact ⟨word :: ts, i, by simp, _, rfl, .funcDecl isWord hread⟩
  · obtain ⟨ts, i, rfl, hread⟩ := classDeclaration_yields ih.methods h hclean
    exact ⟨word :: ts, i, by simp, s, rfl, hread word isWord⟩

/-- A statement whose first word is read is a statement. -/
theorem YieldsBehind.statement {k : Keyword} {rule : Rule Stmt} (hrule : rule.YieldsBehind k)
    {word : Token} (isWord : word.terminal = .keyword k) {s : Stmt} (h : rule c₀ = .ok s c)
    (hclean : c.faults = []) :
    ∃ ts i, c₀.rewind [word] c₀.nextId = c.rewind ts i ∧ ∃ isOpen,
      Reads (.statement isOpen s) i ts c.nextId ∧ (isOpen = true → ¬c.Faces (.keyword .elseWord)) := by
  obtain ⟨ts, i, rfl, hread⟩ := hrule h hclean
  exact ⟨word :: ts, i, by simp, hread word isWord⟩

theorem statement_yields (ih : StatementsRead n) : (statement (n + 1)).YieldsStatement := by
  intro c₀ s c h hclean
  rw [statement, bind_eq_ok] at h
  obtain ⟨found, c₁, hfound, h⟩ := h
  obtain ⟨rfl, rfl, -⟩ | ⟨word, rfl, isWord, rfl⟩ := accept_ok hfound
  case inr =>
    exact (forStatement_yields n ih.statement).statement isWord h hclean
  simp only [Option.isSome_none, Bool.false_eq_true, if_false, bind_eq_ok] at h
  obtain ⟨found, c₂, hfound, h⟩ := h
  obtain ⟨rfl, rfl, -⟩ | ⟨word, rfl, isWord, rfl⟩ := accept_ok hfound
  case inr =>
    exact (ifStatement_yields n ih.statement).statement isWord h hclean
  simp only [Option.isSome_none, Bool.false_eq_true, if_false, bind_eq_ok] at h
  obtain ⟨found, c₃, hfound, h⟩ := h
  obtain ⟨rfl, rfl, -⟩ | ⟨word, rfl, isWord, rfl⟩ := accept_ok hfound
  case inr =>
    exact (whileStatement_yields n ih.statement).statement isWord h hclean
  simp only [Option.isSome_none, Bool.false_eq_true, if_false, bind_eq_ok] at h
  obtain ⟨found, c₄, hfound, h⟩ := h
  obtain ⟨rfl, rfl, -⟩ | ⟨word, rfl, isWord, rfl⟩ := accept_ok hfound
  case inr =>
    obtain ⟨ts, i, rfl, hread⟩ := returnStatement_yields n word isWord h hclean
    exact ⟨word :: ts, i, by simp, false, hread, by simp⟩
  simp only [bind_eq_ok] at h
  obtain ⟨found, c₅, hfound, h⟩ := h
  obtain ⟨rfl, rfl, -⟩ | ⟨lb, rfl, isBrace, rfl⟩ := acceptPunct_ok hfound
  case inr =>
    simp only [if_true, bind_eq_ok] at h
    obtain ⟨ss, c₆, hss, h⟩ := h
    cases h
    obtain ⟨_, i, rfl, ts, rb, rfl, isEnd, hread⟩ := ih.block hss hclean
    exact ⟨lb :: ts ++ [rb], i, by simp, false, .block isBrace hread isEnd, by simp⟩
  simp only [Bool.false_eq_true, if_false, bind_eq_ok] at h
  obtain ⟨found, c₆, hfound, h⟩ := h
  obtain ⟨rfl, rfl, -⟩ | ⟨word, rfl, isWord, rfl⟩ := accept_ok hfound
  case inr =>
    exact (printStatement_yields n).statement isWord h hclean
  · obtain ⟨ts, i, rfl, hread⟩ := expressionStatement_reading n h hclean
    exact ⟨ts, i, rfl, false, .expression hread, by simp⟩

theorem block_yields (ih : StatementsRead n) : (block (n + 1)).YieldsBlock := by
  intro c₀ ss c h hclean
  rw [block, bind_of_ok (atEnd_apply c₀), bind_of_ok (check_apply _ c₀)] at h
  split at h
  · simp only [bind_eq_ok] at h
    obtain ⟨rb, c₁, hrb, h⟩ := h
    cases h
    obtain ⟨isEnd, rfl⟩ := expect_ok hrb
    exact ⟨[rb], _, rfl, [], rb, rfl, isEnd, .declarationsNil⟩
  · simp only [bind_eq_ok] at h
    obtain ⟨first, c₁, hfirst, others, c₂, hothers, h⟩ := h
    cases h
    obtain ⟨_, j, rfl, us, rb, rfl, isEnd, hrest⟩ := ih.block hothers hclean
    obtain ⟨ts, i, rfl, s, rfl, hread⟩ := ih.declaration hfirst hclean
    exact ⟨ts ++ (us ++ [rb]), i, by simp, ts ++ us, rb, by simp, isEnd,
      .declarationsCons hread hrest⟩

theorem methods_reading (ih : StatementsRead n) : (methods (n + 1)).Reading .functions := by
  intro c₀ decls c h hclean
  rw [methods, bind_of_ok (atEnd_apply c₀), bind_of_ok (check_apply _ c₀)] at h
  split at h
  · cases h
    exact ⟨[], _, by simp, .functionsNil⟩
  · simp only [bind_eq_ok] at h
    obtain ⟨first, c₁, hfirst, others, c₂, hothers, h⟩ := h
    cases h
    obtain ⟨us, j, rfl, hrest⟩ := ih.methods hothers hclean
    obtain ⟨ts, i, rfl, hread⟩ := function_reading n _ ih.block hfirst hclean
    exact ⟨ts ++ us, i, by simp, .functionsCons hread hrest⟩

theorem statements_read (n : Nat) : StatementsRead n := by
  induction n with
  | zero =>
    refine ⟨?_, ?_, ?_, ?_⟩ <;> rintro c₀ a c ⟨⟩
  | succ n ih =>
    exact ⟨declaration_yields ih, statement_yields ih, block_yields ih, methods_reading ih⟩

theorem program_yields (n : Nat) :
    (program n).Yields fun ss i ts c => Reads (.declarations ss) i ts c.nextId ∧ c.ahead = [] := by
  induction n with
  | zero => rintro c₀ a c ⟨⟩
  | succ n ih =>
    intro c₀ ss c h hclean
    rw [program, bind_of_ok (atEnd_apply c₀)] at h
    split at h
    · next hend =>
      cases h
      exact ⟨[], _, by simp, .declarationsNil, by simpa using hend⟩
    · simp only [bind_eq_ok] at h
      obtain ⟨first, c₁, hfirst, others, c₂, hothers, h⟩ := h
      cases h
      obtain ⟨us, j, rfl, hrest, hend⟩ := ih hothers hclean
      obtain ⟨ts, i, rfl, s, rfl, hread⟩ := (statements_read n).declaration hfirst hclean
      exact ⟨ts ++ us, i, by simp, .declarationsCons hread hrest, hend⟩

end Rule

/-- A program that is parsed without faults has a reading. -/
theorem reads_of_parse {tokens : List Token} {finish : Token} {i : NodeId}
    (h : (parse tokens finish i).faults = []) :
    Reads (.declarations (parse tokens finish i).program) i tokens
      (parse tokens finish i).nextId := by
  unfold parse at h ⊢
  cases hrun : Rule.program (parsingDepth tokens.length) ⟨tokens, finish, i, []⟩ with
  | ok program c =>
    rw [hrun] at h
    obtain ⟨ts, j, hstart, hread, hend⟩ := Rule.program_yields _ hrun h
    simp only [Cursor.rewind, hend, List.append_nil, Cursor.mk.injEq] at hstart
    obtain ⟨rfl, -, rfl, -⟩ := hstart
    exact hread
  | error reason c => cases reason <;> simp [hrun] at h

end Treewalk
