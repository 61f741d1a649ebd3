import Treewalk.Grammar.Statement
import Treewalk.Proofs.Run

/-! What only grows while a text is read, even where a rule fails. The numbers for occurrences never
run backwards, and faults of the grammar are noted behind those that were found before. -/

namespace Treewalk

/-- Faults of the grammar. -/
def ParseFault.diagnostics (found : List (Token × ParseFault)) : List Diagnostic :=
  found.map fun (token, fault) => .parse token fault

/-- The second cursor is left by a rule in front of which the first one was: no number that was given
out is free again, and no fault is forgotten. -/
structure Cursor.Precedes (c c' : Cursor) : Prop where
  nextId : c.nextId ≤ c'.nextId
  faults : ∃ found, c'.faults = c.faults ++ ParseFault.diagnostics found

theorem Cursor.Precedes.of_faults {c c' : Cursor} (hid : c.nextId ≤ c'.nextId)
    (hfaults : c'.faults = c.faults) : c.Precedes c' :=
  ⟨hid, [], hfaults.trans (List.append_nil _).symm⟩

theorem Cursor.Precedes.refl (c : Cursor) : c.Precedes c := .of_faults (Nat.le_refl _) rfl

theorem Cursor.Precedes.trans {c c' c'' : Cursor} (h : c.Precedes c') (h' : c'.Precedes c'') :
    c.Precedes c'' where
  nextId := Nat.le_trans h.nextId h'.nextId
  faults := by
    obtain ⟨found, hfound⟩ := h.faults
    obtain ⟨found', hfound'⟩ := h'.faults
    refine ⟨found ++ found', ?_⟩
    rw [hfound', hfound, List.append_assoc, ParseFault.diagnostics, ParseFault.diagnostics,
      ← List.map_append, ParseFault.diagnostics]

/-- One more fault is noted. -/
theorem Cursor.Precedes.noted (c : Cursor) (ahead : List Token) (token : Token) (fault : ParseFault) :
    c.Precedes { c with ahead, faults := c.faults ++ [.parse token fault] } :=
  ⟨Nat.le_refl _, [(token, fault)], rfl⟩

/-- A rule fails at a fault of the grammar, if it fails at a fault. -/
def Unparsed.OfGrammar : Unparsed → Prop
  | fault found => ∃ token fault, found = .parse token fault
  | exhausted => True

namespace Rule

variable {α β : Type} {rule : Rule α} {f : α → Rule β}

/-- However the rule ends, nothing was taken back. -/
def Advances (rule : Rule α) : Prop :=
  ∀ c, match rule c with
    | .ok _ c' => c.Precedes c'
    | .error reason c' => c.Precedes c' ∧ reason.OfGrammar

theorem Advances.of_ok (h : rule.Advances) {c c' : Cursor} {a : α} (hrun : rule c = .ok a c') :
    c.Precedes c' := by
  have hc := h c
  rwa [hrun] at hc

theorem Advances.of_error (h : rule.Advances) {c c' : Cursor} {reason : Unparsed}
    (hrun : rule c = .error reason c') : c.Precedes c' ∧ reason.OfGrammar := by
  have hc := h c
  rwa [hrun] at hc

theorem Advances.pure (a : α) : Advances (pure a : Rule α) := fun c => .refl c

theorem advances_throw {reason : Unparsed} (h : reason.OfGrammar) :
    Advances (throw reason : Rule α) :=
  fun c => ⟨.refl c, h⟩

theorem advances_exhausted : Advances (exhausted : Rule α) := advances_throw trivial

theorem advances_get : Advances (get : Rule Cursor) := fun c => .refl c

theorem Advances.bind (h : rule.Advances) (hf : ∀ a, (f a).Advances) : (rule >>= f).Advances := by
  intro c
  cases hrun : rule c with
  | ok a c' =>
    have hfirst := h.of_ok hrun
    rw [bind_of_ok hrun]
    cases hrest : f a c' with
    | ok b c'' => exact hfirst.trans ((hf a).of_ok hrest)
    | error reason c'' =>
      obtain ⟨hsecond, hreason⟩ := (hf a).of_error hrest
      exact ⟨hfirst.trans hsecond, hreason⟩
  | error reason c' =>
    rw [bind_of_error hrun]
    exact h.of_error hrun

theorem Advances.map {g : α → β} (h : rule.Advances) : (g <$> rule).Advances := by
  rw [map_eq_pure_bind]
  exact h.bind fun a => .pure _

theorem advances_fail (fault : ParseFault) : Advances (fail fault : Rule α) :=
  (Advances.bind advances_get fun _ => .pure _).bind fun _ => advances_throw ⟨_, _, rfl⟩

theorem advances_acceptAny (ts : List Terminal) : (acceptAny ts).Advances := by
  refine Advances.bind advances_get fun c => ?_
  cases c.ahead with
  | nil => exact .pure _
  | cons next rest =>
    dsimp only
    split
    · exact Advances.bind (fun c => .of_faults (Nat.le_refl _) rfl) fun _ => .pure _
    · exact .pure _

theorem advances_accept (t : Terminal) : (accept t).Advances := advances_acceptAny [t]

theorem advances_acceptPunct (p : Punct) : (acceptPunct p).Advances :=
  (advances_accept _).bind fun _ => .pure _

theorem advances_check (t : Terminal) : (check t).Advances := by
  refine Advances.bind advances_get fun c => ?_
  cases c.ahead <;> exact .pure _

theorem advances_atEnd : atEnd.Advances := Advances.bind advances_get fun _ => .pure _

theorem advances_peek : peek.Advances := Advances.bind advances_get fun _ => .pure _

theorem advances_skip : skip.Advances := fun _ => .of_faults (Nat.le_refl _) rfl

theorem advances_expect (t : Terminal) (fault : ParseFault) : (expect t fault).Advances := by
  refine (advances_accept t).bind fun found => ?_
  cases found with
  | none => exact advances_fail fault
  | some token => exact .pure _

theorem advances_record (token : Token) (fault : ParseFault) : (record token fault).Advances :=
  fun c => .noted c c.ahead token fault

theorem advances_number (name : Token) : (number name).Advances :=
  fun c => .of_faults (Nat.le_succ c.nextId) rfl

theorem Advances.whenNot (t : Terminal) (h : rule.Advances) : (whenNot t rule).Advances := by
  refine (advances_check t).bind fun here => ?_
  cases here with
  | true => exact .pure _
  | false => exact h.bind fun _ => .pure _

theorem advances_assignment (target : Expr) (equals : Token) (value : Expr) :
    (assignment target equals value).Advances := by
  unfold assignment
  split
  · exact (advances_number _).bind fun _ => .pure _
  · exact .pure _
  · exact (advances_record _ _).bind fun _ => .pure _

/-- The rules for expressions, within one depth. -/
structure ExpressionsAdvance (n : Nat) : Prop where
  expression : (expression n).Advances
  operation : ∀ levels, (operation n levels).Advances
  operations : ∀ level tighter left, (operations n level tighter left).Advances
  unary : (unary n).Advances
  calls : ∀ callee, (calls n callee).Advances
  arguments : ∀ count, (arguments n count).Advances
  primary : (primary n).Advances

theorem advances_primary {n : Nat} (h : ExpressionsAdvance n) : (primary (n + 1)).Advances := by
  rw [primary]
  refine Advances.bind advances_get fun c => ?_
  cases c.ahead with
  | nil => exact advances_fail _
  | cons token rest =>
    dsimp only
    split
    · exact advances_skip.bind fun _ => .pure _
    · split
      · exact advances_skip.bind fun _ => (advances_number _).bind fun _ => .pure _
      · exact advances_skip.bind fun _ => (advances_expect _ _).bind fun _ =>
          (advances_expect _ _).bind fun _ => (advances_number _).bind fun _ => .pure _
      · exact advances_skip.bind fun _ => (advances_number _).bind fun _ => .pure _
      · exact advances_skip.bind fun _ => h.expression.bind fun _ =>
          (advances_expect _ _).bind fun _ => .pure _
      · exact advances_fail _

theorem advances_calls {n : Nat} (h : ExpressionsAdvance n) (callee : Expr) :
    (calls (n + 1) callee).Advances := by
  rw [calls]
  refine (advances_acceptPunct _).bind fun here => ?_
  split
  · exact (h.arguments 0).whenNot _ |>.bind fun _ => (advances_expect _ _).bind fun _ => h.calls _
  · refine (advances_acceptPunct _).bind fun here => ?_
    split
    · exact (advances_expect _ _).bind fun _ => h.calls _
    · exact .pure _

theorem advances_arguments {n : Nat} (h : ExpressionsAdvance n) (count : Nat) :
    (arguments (n + 1) count).Advances := by
  have hread : Advances (do
      let argument ← expression n
      if ← acceptPunct .comma then
        let others ← arguments n (count + 1)
        return argument :: others
      else
        return [argument]) := by
    refine h.expression.bind fun _ => (advances_acceptPunct _).bind fun here => ?_
    split
    · exact (h.arguments _).bind fun _ => .pure _
    · exact .pure _
  rw [arguments]
  split
  · exact advances_peek.bind fun _ => (advances_record _ _).bind fun _ => hread
  · exact hread

theorem expressionsAdvance (n : Nat) : ExpressionsAdvance n := by
  induction n with
  | zero => constructor <;> intros <;> exact advances_exhausted
  | succ n h =>
    refine ⟨?_, fun levels => ?_, fun level tighter left => ?_, ?_, advances_calls h,
      advances_arguments h, advances_primary h⟩
    · rw [expression]
      refine (h.operation _).bind fun target => (advances_accept _).bind fun found => ?_
      cases found with
      | none => exact .pure _
      | some equals => exact h.expression.bind fun _ => advances_assignment _ _ _
    · cases levels with
      | nil => rw [operation]; exact h.unary
      | cons level tighter =>
        rw [operation]
        exact (h.operation _).bind fun _ => h.operations _ _ _
    · rw [operations]
      refine (advances_acceptAny _).bind fun found => ?_
      cases found with
      | none => exact .pure _
      | some operator => exact (h.operation _).bind fun _ => h.operations _ _ _
    · rw [unary]
      refine (advances_acceptAny _).bind fun found => ?_
      cases found with
      | none => exact h.primary.bind fun _ => h.calls _
      | some operator => exact h.unary.bind fun _ => .pure _

theorem advances_expression (n : Nat) : (expression n).Advances := (expressionsAdvance n).expression

theorem advances_varDeclaration (n : Nat) : (varDeclaration n).Advances := by
  have hinitial : (initialValue n).Advances := by
    refine (advances_acceptPunct _).bind fun here => ?_
    split
    · exact (advances_expression n).bind fun _ => .pure _
    · exact .pure _
  exact (advances_expect _ _).bind fun _ => hinitial.bind fun _ =>
    (advances_expect _ _).bind fun _ => .pure _

theorem advances_expressionStatement (n : Nat) : (expressionStatement n).Advances :=
  (advances_expression n).bind fun _ => (advances_expect _ _).bind fun _ => .pure _

theorem advances_ifStatement (n : Nat) {statement : Rule Stmt} (h : statement.Advances) :
    (ifStatement n statement).Advances := by
  refine (advances_expect _ _).bind fun _ => (advances_expression n).bind fun _ =>
    (advances_expect _ _).bind fun _ => h.bind fun _ => (advances_accept _).bind fun found => ?_
  cases found with
  | none => exact .pure _
  | some word => exact h.bind fun _ => .pure _

theorem advances_forStatement (n : Nat) {statement : Rule Stmt} (h : statement.Advances) :
    (forStatement n statement).Advances := by
  have hfirst : (forInitial n).Advances := by
    refine (advances_acceptPunct _).bind fun here => ?_
    split
    · exact .pure _
    · refine (advances_accept _).bind fun found => ?_
      split
      · exact (advances_varDeclaration n).bind fun _ => .pure _
      · exact (advances_expressionStatement n).bind fun _ => .pure _
  exact (advances_expect _ _).bind fun _ => hfirst.bind fun _ =>
    ((advances_expression n).whenNot _).bind fun _ => (advances_expect _ _).bind fun _ =>
    ((advances_expression n).whenNot _).bind fun _ => (advances_expect _ _).bind fun _ =>
    h.bind fun _ => .pure _

theorem advances_parameters (n count : Nat) : (parameters n count).Advances := by
  induction n generalizing count with
  | zero => exact advances_exhausted
  | succ n ih =>
    have hread : Advances (do
        let name ← expect .identifier .parameterName
        if ← acceptPunct .comma then
          let others ← parameters n (count + 1)
          return name :: others
        else
          return [name]) := by
      refine (advances_expect _ _).bind fun _ => (advances_acceptPunct _).bind fun here => ?_
      split
      · exact (ih _).bind fun _ => .pure _
      · exact .pure _
    rw [parameters]
    split
    · exact advances_peek.bind fun _ => (advances_record _ _).bind fun _ => hread
    · exact hread

theorem advances_function (n : Nat) (sort : FunctionSort) {body : Rule (List Stmt)}
    (h : body.Advances) : (function n sort body).Advances :=
  (advances_expect _ _).bind fun _ => (advances_expect _ _).bind fun _ =>
    ((advances_parameters n 0).whenNot _).bind fun _ => (advances_expect _ _).bind fun _ =>
    (advances_expect _ _).bind fun _ => h.bind fun _ => .pure _

theorem advances_classDeclaration {methods : Rule (List FunctionDecl)} (h : methods.Advances) :
    (classDeclaration methods).Advances := by
  have hheritage : heritage.Advances := by
    refine (advances_acceptPunct _).bind fun here => ?_
    split
    · exact (advances_expect _ _).bind fun _ => (advances_number _).bind fun _ => .pure _
    · exact .pure _
  exact (advances_expect _ _).bind fun _ => hheritage.bind fun _ => (advances_expect _ _).bind fun _ =>
    h.bind fun _ => (advances_expect _ _).bind fun _ => .pure _

theorem Advances.recovering (h : rule.Advances) : (recovering rule).Advances := by
  intro c
  unfold Rule.recovering
  cases hrun : rule c with
  | ok a c' => exact h.of_ok hrun
  | error reason c' =>
    obtain ⟨hfirst, hreason⟩ := h.of_error hrun
    cases reason with
    | exhausted => exact ⟨hfirst, hreason⟩
    | fault found =>
      obtain ⟨token, fault, rfl⟩ := hreason
      exact hfirst.trans (.noted c' _ token fault)

/-- The rules for statements and declarations, within one depth. -/
structure StatementsAdvance (n : Nat) : Prop where
  declaration : (declaration n).Advances
  statement : (statement n).Advances
  block : (block n).Advances
  methods : (methods n).Advances

theorem advances_statement {n : Nat} (h : StatementsAdvance n) : (statement (n + 1)).Advances := by
  rw [statement]
  refine (advances_accept _).bind fun found => ?_
  split
  · exact advances_forStatement n h.statement
  refine (advances_accept _).bind fun found => ?_
  split
  · exact advances_ifStatement n h.statement
  refine (advances_accept _).bind fun found => ?_
  split
  · exact (advances_expect _ _).bind fun _ => (advances_expression n).bind fun _ =>
      (advances_expect _ _).bind fun _ => h.statement.bind fun _ => .pure _
  refine (advances_accept _).bind fun found => ?_
  cases found with
  | some keyword =>
    exact ((advances_expression n).whenNot _).bind fun _ => (advances_expect _ _).bind fun _ => .pure _
  | none =>
    refine (advances_acceptPunct _).bind fun here => ?_
    split
    · exact h.block.bind fun _ => .pure _
    refine (advances_accept _).bind fun found => ?_
    split
    · exact (advances_expression n).bind fun _ => (advances_expect _ _).bind fun _ => .pure _
    · exact advances_expressionStatement n

theorem statementsAdvance (n : Nat) : StatementsAdvance n := by
  induction n with
  | zero => constructor <;> exact advances_exhausted
  | succ n h =>
    refine ⟨?_, advances_statement h, ?_, ?_⟩
    · rw [declaration]
      refine Advances.recovering ?_
      refine (advances_accept _).bind fun found => ?_
      split
      · exact advances_classDeclaration h.methods
      refine (advances_accept _).bind fun found => ?_
      split
      · exact (advances_function n _ h.block).bind fun _ => .pure _
      refine (advances_accept _).bind fun found => ?_
      split
      · exact advances_varDeclaration n
      · exact h.statement
    · rw [block]
      refine advances_atEnd.bind fun _ => (advances_check _).bind fun _ => ?_
      split
      · exact (advances_expect _ _).bind fun _ => .pure _
      · exact h.declaration.bind fun _ => h.block.bind fun _ => .pure _
    · rw [methods]
      refine advances_atEnd.bind fun _ => (advances_check _).bind fun _ => ?_
      split
      · exact .pure _
      · exact (advances_function n _ h.block).bind fun _ => h.methods.bind fun _ => .pure _

theorem advances_program (n : Nat) : (program n).Advances := by
  induction n with
  | zero => exact advances_exhausted
  | succ n ih =>
    rw [program]
    refine advances_atEnd.bind fun _ => ?_
    split
    · exact .pure _
    · exact (statementsAdvance n).declaration.bind fun _ => ih.bind fun _ => .pure _

end Rule

/-- Numbers that were given out before are not given out again, whatever the text, and all faults that
are found are faults of the grammar. -/
theorem parse_advances (tokens : List Token) (finish : Token) (i : NodeId) :
    i ≤ (parse tokens finish i).nextId ∧
      ∃ found, (parse tokens finish i).faults = ParseFault.diagnostics found := by
  have hprogram := Rule.advances_program (parsingDepth tokens.length)
  unfold parse
  cases hrun : Rule.program (parsingDepth tokens.length) ⟨tokens, finish, i, []⟩ with
  | ok program c =>
    have hend := hprogram.of_ok hrun
    exact ⟨hend.nextId, hend.faults⟩
  | error reason c =>
    obtain ⟨hend, hreason⟩ := hprogram.of_error hrun
    cases reason with
    | exhausted =>
      have hnoted := hend.trans (.noted c c.ahead finish .expression)
      exact ⟨hnoted.nextId, hnoted.faults⟩
    | fault found =>
      obtain ⟨token, fault, rfl⟩ := hreason
      have hnoted := hend.trans (.noted c c.ahead token fault)
      exact ⟨hnoted.nextId, hnoted.faults⟩

theorem le_nextId_parse (tokens : List Token) (finish : Token) (i : NodeId) :
    i ≤ (parse tokens finish i).nextId :=
  (parse_advances tokens finish i).1

end Treewalk
