import Mathlib.Data.List.Forall2
import Treewalk.Proofs.Direct.Trees
import Treewalk.Proofs.Grammar.Counting

/-! Reading programs with nodes. The grammar with nodes reads the same tokens in the same way, gives
out the same numbers and finds the same faults, and what it reads unfolds to what the grammar reads
without nodes. -/

namespace Treewalk

/-- Occurrences lie anywhere. -/
abbrev Anywhere : Layers → NodeId → Prop := fun _ _ => True

namespace Rule

variable {α β : Type} {x x' : Rule α} {f f' : α → Rule β} {P Q : α → α → Prop} {R : β → β → Prop}

/-- From any cursor the two rules go the same way: both yield, `Q` relating what they yield, or both
fail for the same reason. -/
def Pairs (x x' : Rule α) (Q : α → α → Prop) : Prop :=
  ∀ c, match x c, x' c with
    | .ok a c₁, .ok a' c₁' => c₁' = c₁ ∧ Q a a'
    | .error reason c₁, .error reason' c₁' => c₁' = c₁ ∧ reason' = reason
    | _, _ => False

theorem Pairs.self (x : Rule α) : Pairs x x Eq := by
  intro c
  cases x c <;> exact ⟨rfl, rfl⟩

theorem Pairs.mono (h : Pairs x x' P) (hPQ : ∀ a a', P a a' → Q a a') : Pairs x x' Q := by
  intro c
  have hrun := h c
  split at hrun
  · exact ⟨hrun.1, hPQ _ _ hrun.2⟩
  · exact hrun
  · exact hrun

theorem Pairs.pure {a a' : α} (h : Q a a') : Pairs (pure a) (pure a') Q :=
  fun _ => ⟨rfl, h⟩

theorem pairs_exhausted : Pairs (exhausted : Rule α) exhausted Q :=
  fun _ => ⟨rfl, rfl⟩

theorem Pairs.bind (hx : Pairs x x' P) (hf : ∀ a a', P a a' → Pairs (f a) (f' a') R) :
    Pairs (x >>= f) (x' >>= f') R := by
  intro c
  have hrun := hx c
  cases hok : x c with
  | ok a c₁ =>
    cases hok' : x' c with
    | ok a' c₁' =>
      rw [hok, hok'] at hrun
      obtain ⟨rfl, ha⟩ := hrun
      rw [bind_of_ok hok, bind_of_ok hok']
      exact hf a a' ha c₁'
    | error reason' c₁' => rw [hok, hok'] at hrun; exact hrun.elim
  | error reason c₁ =>
    cases hok' : x' c with
    | ok a' c₁' => rw [hok, hok'] at hrun; exact hrun.elim
    | error reason' c₁' =>
      rw [hok, hok'] at hrun
      rw [bind_of_error hok, bind_of_error hok']
      exact hrun

/-- Behind the same rule, rules that go the same way do so. -/
theorem Pairs.behind (x : Rule α) (hf : ∀ a, Pairs (f a) (f' a) R) :
    Pairs (x >>= f) (x >>= f') R :=
  (Pairs.self x).bind fun a _ h => h ▸ hf a

theorem Pairs.ite {p : Prop} [Decidable p] {y y' : Rule α} (hx : Pairs x x' Q)
    (hy : Pairs y y' Q) : Pairs (if p then x else y) (if p then x' else y') Q := by
  split
  · exact hx
  · exact hy

theorem Pairs.recovering (h : Pairs x x' P) :
    Pairs (recovering x) (recovering x') (Option.Rel P) := by
  intro c
  have hrun := h c
  unfold Rule.recovering
  cases hok : x c with
  | ok a c₁ =>
    cases hok' : x' c with
    | ok a' c₁' =>
      rw [hok, hok'] at hrun
      exact ⟨hrun.1, .some hrun.2⟩
    | error reason' c₁' => rw [hok, hok'] at hrun; exact hrun.elim
  | error reason c₁ =>
    cases hok' : x' c with
    | ok a' c₁' => rw [hok, hok'] at hrun; exact hrun.elim
    | error reason' c₁' =>
      rw [hok, hok'] at hrun
      obtain ⟨rfl, rfl⟩ := hrun
      cases reason' with
      | fault found => exact ⟨rfl, .none⟩
      | exhausted => exact ⟨rfl, rfl⟩

/-- What two rules for a statement yield: the second one what the first one unfolds to, wherever it
may stand. -/
def Statements (s s' : Stmt) : Prop :=
  s.declared? = none ∧ ∀ π, s.Unfolds Anywhere π s'

/-- What two rules for a declaration yield. -/
def Declarations (s s' : Stmt) : Prop :=
  ∀ π : Layers, π.Declares → s.Unfolds Anywhere π s'

theorem Statements.declarations {s s' : Stmt} (h : Statements s s') : Declarations s s' :=
  fun π _ => h.2 π

theorem pairs_varDeclaration (n : Nat) :
    Pairs (varDeclaration n) (varDeclaration n) Declarations := by
  unfold varDeclaration
  refine .behind _ fun x => .behind _ fun initial => .behind _ fun _ => .pure fun π hπ => ?_
  exact .var hπ fun _ _ => trivial

theorem pairs_expressionStatement (n : Nat) :
    Pairs (expressionStatement n) (expressionStatement n) Statements :=
  .behind _ fun _ => .behind _ fun _ => .pure ⟨rfl, fun _ => .expression fun _ _ => trivial⟩

theorem pairs_printStatement (n : Nat) :
    Pairs (printStatement n) (printStatement n) Statements :=
  .behind _ fun _ => .behind _ fun _ => .pure ⟨rfl, fun _ => .print fun _ _ => trivial⟩

theorem pairs_returnStatement (n : Nat) (keyword : Token) :
    Pairs (returnStatement n keyword) (returnStatement n keyword) Statements :=
  .behind _ fun _ => .behind _ fun _ => .pure ⟨rfl, fun _ => .giveBack fun _ _ => trivial⟩

/-- The first clause is declared in the scope of the loop. -/
theorem pairs_forInitial (n : Nat) : Pairs (forInitial n) (forInitial n) fun first first' =>
    ∀ π, Stmt.AllUnfold Anywhere (.shared :: π) first.toList first'.toList := by
  unfold forInitial
  refine .behind _ fun _ => .ite (.pure fun _ => .nil) (.behind _ fun _ => .ite ?_ ?_)
  · exact (pairs_varDeclaration n).bind fun s s' hs => .pure fun π =>
      .cons (hs (.shared :: π) trivial) .nil
  · exact (pairs_expressionStatement n).bind fun s s' hs => .pure fun π => .cons (hs.2 _) .nil

section
variable {statement statement' : Rule Stmt} (h : Pairs statement statement' Statements)
include h

/-- In place of a node stands the tree that it unfolds to. -/
theorem pairs_forStatement (n : Nat) :
    Pairs (forStatementWith Counting.node n statement) (forStatement n statement') Statements := by
  unfold forStatementWith forStatement
  refine .behind _ fun _ => (pairs_forInitial n).bind fun first first' hfirst => ?_
  refine .behind _ fun condition => .behind _ fun _ => .behind _ fun step => .behind _ fun _ => ?_
  refine h.bind fun body body' hbody => .pure ⟨rfl, fun π => ?_⟩
  exact .counting (c := ⟨first, condition, step, body⟩) (hfirst π) (fun _ _ => trivial)
    (hbody.2 _) fun _ _ => trivial

theorem pairs_ifStatement (n : Nat) :
    Pairs (ifStatement n statement) (ifStatement n statement') Statements := by
  unfold ifStatement
  refine .behind _ fun _ => .behind _ fun condition => .behind _ fun _ => h.bind fun s s' hs => ?_
  refine .behind _ fun found => ?_
  cases found with
  | none => exact .pure ⟨rfl, fun π => .branch (fun _ _ => trivial) (hs.2 π)⟩
  | some _ =>
    exact h.bind fun o o' ho =>
      .pure ⟨rfl, fun π => .branchElse (fun _ _ => trivial) (hs.2 π) (ho.2 π)⟩

theorem pairs_whileStatement (n : Nat) :
    Pairs (whileStatement n statement) (whileStatement n statement') Statements := by
  unfold whileStatement
  refine .behind _ fun _ => .behind _ fun condition => .behind _ fun _ => h.bind fun s s' hs => ?_
  exact .pure ⟨rfl, fun π => .loop hs.1 (fun _ _ => trivial) (hs.2 π)⟩

end

section
variable {body body' : Rule (List Stmt)}
  (h : Pairs body body' fun ss ss' => ∀ π : Layers, π.Declares → Stmt.AllUnfold Anywhere π ss ss')

include h in
theorem pairs_function (n : Nat) (sort : FunctionSort) :
    Pairs (function n sort body) (function n sort body') fun decl decl' =>
      ∀ π, decl.Unfolds Anywhere π decl' := by
  unfold function
  refine .behind _ fun name => .behind _ fun _ => .behind _ fun params => .behind _ fun _ => ?_
  exact .behind _ fun _ => h.bind fun ss ss' hss => .pure fun π => .mk (hss (.shared :: π) trivial)

theorem pairs_classDeclaration {methods methods' : Rule (List FunctionDecl)}
    (h : Pairs methods methods' fun decls decls' =>
      ∀ π, FunctionDecl.AllUnfold Anywhere π decls decls') :
    Pairs (classDeclaration methods) (classDeclaration methods') Declarations := by
  unfold classDeclaration
  refine .behind _ fun name => .behind _ fun parent => .behind _ fun _ => ?_
  refine h.bind fun decls decls' hdecls => .behind _ fun _ => .pure fun π hπ => ?_
  exact .classDecl hπ (fun _ _ => trivial) (hdecls _)

end

/-- Statements go on alike behind one that was read or given up. -/
theorem allUnfold_consOption {s s' : Option Stmt} {ss ss' : List Stmt}
    (hs : Option.Rel Declarations s s')
    (hss : ∀ π : Layers, π.Declares → Stmt.AllUnfold Anywhere π ss ss') {π : Layers}
    (hπ : π.Declares) : Stmt.AllUnfold Anywhere π (s.toList ++ ss) (s'.toList ++ ss') := by
  cases hs with
  | none => exact hss π hπ
  | some hs => exact .cons (hs π hπ) (hss π hπ)

/-- The rules for statements and declarations go the same way within a depth. -/
structure StatementsPair (n : Nat) : Prop where
  declaration : Pairs (declarationWith Counting.node n) (declaration n) (Option.Rel Declarations)
  statement : Pairs (statementWith Counting.node n) (statement n) Statements
  block : Pairs (blockWith Counting.node n) (block n) fun ss ss' =>
    ∀ π : Layers, π.Declares → Stmt.AllUnfold Anywhere π ss ss'
  methods : Pairs (methodsWith Counting.node n) (methods n) fun decls decls' =>
    ∀ π, FunctionDecl.AllUnfold Anywhere π decls decls'

theorem pairs_statement {n : Nat} (h : StatementsPair n) :
    Pairs (statementWith Counting.node (n + 1)) (statement (n + 1)) Statements := by
  rw [statementWith, statement]
  refine .behind _ fun _ => .ite (pairs_forStatement h.statement n) ?_
  refine .behind _ fun _ => .ite (pairs_ifStatement h.statement n) ?_
  refine .behind _ fun _ => .ite (pairs_whileStatement h.statement n) (.behind _ fun found => ?_)
  cases found with
  | some keyword => exact pairs_returnStatement n keyword
  | none =>
    refine .behind _ fun _ => .ite ?_ ?_
    · exact h.block.bind fun ss ss' hss => .pure ⟨rfl, fun π => .block (hss (.shared :: π) trivial)⟩
    · exact .behind _ fun _ => .ite (pairs_printStatement n) (pairs_expressionStatement n)

theorem statementsPair (n : Nat) : StatementsPair n := by
  induction n with
  | zero => constructor <;> exact pairs_exhausted
  | succ n h =>
    refine ⟨?_, pairs_statement h, ?_, ?_⟩
    · rw [declarationWith, declaration]
      refine .recovering (.behind _ fun _ => .ite (pairs_classDeclaration h.methods) ?_)
      refine .behind _ fun _ => .ite ?_ (.behind _ fun _ => .ite (pairs_varDeclaration n) ?_)
      · exact (pairs_function h.block n .function).bind fun decl decl' hdecl =>
          .pure fun π hπ => .function hπ (hdecl π)
      · exact h.statement.mono fun _ _ hs => hs.declarations
    · rw [blockWith, block]
      refine .behind _ fun _ => .behind _ fun _ => .ite (.behind _ fun _ => .pure fun _ _ => .nil) ?_
      exact h.declaration.bind fun s s' hs => h.block.bind fun ss ss' hss =>
        .pure fun π hπ => allUnfold_consOption hs hss hπ
    · rw [methodsWith, methods]
      refine .behind _ fun _ => .behind _ fun _ => .ite (.pure fun _ => .nil) ?_
      exact (pairs_function h.block n .method).bind fun decl decl' hdecl =>
        h.methods.bind fun decls decls' hdecls => .pure fun π => .cons (hdecl π) (hdecls π)

theorem pairs_program (n : Nat) : Pairs (programWith Counting.node n) (program n)
    fun ss ss' => ∀ π : Layers, π.Declares → Stmt.AllUnfold Anywhere π ss ss' := by
  induction n with
  | zero => exact pairs_exhausted
  | succ n ih =>
    rw [programWith, program]
    refine .behind _ fun _ => .ite (.pure fun _ _ => .nil) ?_
    exact (statementsPair n).declaration.bind fun s s' hs => ih.bind fun ss ss' hss =>
      .pure fun π hπ => allUnfold_consOption hs hss hπ

end Rule

/-- With nodes and without, the same is found in a text and the same numbers are given out; the
program with nodes unfolds to the one without. -/
theorem parseWith_node (tokens : List Token) (finish : Token) (i : NodeId) :
    (parseWith Counting.node tokens finish i).faults = (parse tokens finish i).faults ∧
      (parseWith Counting.node tokens finish i).nextId = (parse tokens finish i).nextId ∧
      Stmt.AllUnfold Anywhere [] (parseWith Counting.node tokens finish i).program
        (parse tokens finish i).program := by
  have hrun := Rule.pairs_program (parsingDepth tokens.length) ⟨tokens, finish, i, []⟩
  unfold parseWith parse
  cases hok : Rule.programWith Counting.node (parsingDepth tokens.length) ⟨tokens, finish, i, []⟩ with
  | ok program c =>
    cases hok' : Rule.program (parsingDepth tokens.length) ⟨tokens, finish, i, []⟩ with
    | ok program' c' =>
      rw [hok, hok'] at hrun
      obtain ⟨rfl, hprogram⟩ := hrun
      exact ⟨rfl, rfl, hprogram [] trivial⟩
    | error reason' c' => rw [hok, hok'] at hrun; exact hrun.elim
  | error reason c =>
    cases hok' : Rule.program (parsingDepth tokens.length) ⟨tokens, finish, i, []⟩ with
    | ok program' c' => rw [hok, hok'] at hrun; exact hrun.elim
    | error reason' c' =>
      rw [hok, hok'] at hrun
      obtain ⟨rfl, rfl⟩ := hrun
      cases reason' <;> exact ⟨rfl, rfl, .nil⟩

end Treewalk
