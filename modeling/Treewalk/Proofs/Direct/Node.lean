import Treewalk.Grammar.Statement
import Treewalk.Resolution

/-! A node of its own for the loop with three clauses: the language in which such a loop is not
written in terms of other statements. This module says how the node is read and resolved. Its four
parts share one scope. -/

namespace Treewalk

/-- The parts of a loop with three clauses. -/
structure Counting where
  initial : Option Stmt
  condition : Option Expr
  step : Option Expr
  body : Stmt

namespace Counting

/-- The loop in terms of blocks and of the loop with one clause. -/
def tree (c : Counting) : Stmt :=
  .counting c.initial c.condition c.step c.body

/-- The word under which a node keeps its parts. -/
def word : Token := ⟨.keyword .forWord, "for", 0⟩

/-- The node for the loop. It is written as a loop over a declaration, which the grammar has no
sentence for, so that functions with such nodes in them are values like all others. -/
def node (c : Counting) : Stmt :=
  .loop (.literal .null) (.function ⟨word, [],
    [.branch (.literal .null) c.body c.initial, .giveBack word c.condition, .giveBack word c.step]⟩)

end Counting

/-- The parts of a statement that is a node for a loop with three clauses. -/
def Stmt.counting? : Stmt → Option Counting
  | .loop _ (.function ⟨_, _,
      [.branch _ body initial, .giveBack _ condition, .giveBack _ step]⟩) =>
    some ⟨initial, condition, step, body⟩
  | _ => none

@[simp] theorem Counting.counting?_node (c : Counting) : c.node.counting? = some c := rfl

/-- A loop of the grammar is no such node: its body declares nothing. -/
theorem Stmt.counting?_loop {condition : Expr} {body : Stmt} (h : body.declared? = none) :
    (Stmt.loop condition body).counting? = none := by
  cases body <;> first | rfl | cases h

theorem Stmt.sizeOf_body_of_counting? {s : Stmt} {c : Counting} (h : s.counting? = some c) :
    sizeOf c.body < sizeOf s := by
  unfold counting? at h
  split at h <;> cases h
  simp
  omega

theorem Stmt.sizeOf_initial_of_counting? {s : Stmt} {c : Counting} (h : s.counting? = some c) :
    sizeOf c.initial.toList < sizeOf s := by
  unfold counting? at h
  split at h <;> cases h
  rename_i initial _ _ _ _
  cases initial <;> simp <;> omega

namespace Rule

/-- A loop with three clauses, of which `build` makes a statement, the word being read. -/
def forStatementWith (build : Counting → Stmt) (n : Nat) (statement : Rule Stmt) : Rule Stmt := do
  let _ ← expectPunct .leftParen .forOpening
  let initial ← forInitial n
  let condition ← whenNot (.punct .semicolon) (expression n)
  let _ ← expectPunct .semicolon .forConditionEnd
  let step ← whenNot (.punct .rightParen) (expression n)
  let _ ← expectPunct .rightParen .forClosing
  let body ← statement
  return build ⟨initial, condition, step, body⟩

mutual

/-- `declaration`, with `build` for the loops with three clauses. -/
def declarationWith (build : Counting → Stmt) : Nat → Rule (Option Stmt)
  | 0 => exhausted
  | n + 1 => recovering do
    if (← accept (.keyword .classWord)).isSome then classDeclaration (methodsWith build n)
    else if (← accept (.keyword .funcWord)).isSome then
      return .function (← function n .function (blockWith build n))
    else if (← accept (.keyword .varWord)).isSome then varDeclaration n
    else statementWith build n

def statementWith (build : Counting → Stmt) : Nat → Rule Stmt
  | 0 => exhausted
  | n + 1 => do
    if (← accept (.keyword .forWord)).isSome then forStatementWith build n (statementWith build n)
    else if (← accept (.keyword .ifWord)).isSome then ifStatement n (statementWith build n)
    else if (← accept (.keyword .whileWord)).isSome then whileStatement n (statementWith build n)
    else match ← accept (.keyword .returnWord) with
    | some keyword => returnStatement n keyword
    | none =>
      if ← acceptPunct .leftBrace then return .block (← blockWith build n)
      else if (← accept (.keyword .printWord)).isSome then printStatement n
      else expressionStatement n

def blockWith (build : Counting → Stmt) : Nat → Rule (List Stmt)
  | 0 => exhausted
  | n + 1 => do
    if (← atEnd) || (← check (.punct .rightBrace)) then
      let _ ← expectPunct .rightBrace .blockClosing
      return []
    else
      let first ← declarationWith build n
      let others ← blockWith build n
      return first.toList ++ others

def methodsWith (build : Counting → Stmt) : Nat → Rule (List FunctionDecl)
  | 0 => exhausted
  | n + 1 => do
    if (← atEnd) || (← check (.punct .rightBrace)) then return []
    else
      let first ← function n .method (blockWith build n)
      let others ← methodsWith build n
      return first :: others

end

def programWith (build : Counting → Stmt) : Nat → Rule (List Stmt)
  | 0 => exhausted
  | n + 1 => do
    if ← atEnd then return []
    else
      let first ← declarationWith build n
      let others ← programWith build n
      return first.toList ++ others

/-- The grammar with `build` reads every phrase as the grammar does, if `build` makes blocks and
loops with one clause. -/
theorem with_tree (n : Nat) :
    declarationWith Counting.tree n = declaration n ∧ statementWith Counting.tree n = statement n ∧
      blockWith Counting.tree n = block n ∧ methodsWith Counting.tree n = methods n := by
  induction n with
  | zero => simp only [declarationWith, declaration, statementWith, statement, blockWith, block,
      methodsWith, methods, and_self]
  | succ n ih =>
    obtain ⟨hdeclaration, hstatement, hblock, hmethods⟩ := ih
    refine ⟨?_, ?_, ?_, ?_⟩
    · rw [declarationWith, declaration, hstatement, hblock, hmethods]
    · rw [statementWith, statement, hstatement, hblock]
      rfl
    · rw [blockWith, block, hdeclaration, hblock]
    · rw [methodsWith, methods, hblock, hmethods]

theorem programWith_tree (n : Nat) : programWith Counting.tree n = program n := by
  induction n with
  | zero => rw [programWith, program]
  | succ n ih => rw [programWith, program, (with_tree n).1, ih]

end Rule

/-- Reads a program from its tokens, with `build` for the loops with three clauses. -/
def parseWith (build : Counting → Stmt) (tokens : List Token) (finish : Token) (nextId : NodeId) :
    Parse :=
  match Rule.programWith build (parsingDepth tokens.length) ⟨tokens, finish, nextId, []⟩ with
  | .ok program c => ⟨program, c.faults, c.nextId⟩
  | .error (.fault found) c => ⟨[], c.faults ++ [found], c.nextId⟩
  | .error .exhausted c => ⟨[], c.faults ++ [.parse finish .expression], c.nextId⟩

/-- Without nodes, texts are read as they are. -/
theorem parseWith_tree : parseWith Counting.tree = parse := by
  funext tokens finish i
  rw [parseWith, Rule.programWith_tree]
  rfl

namespace Direct

mutual

/-- What is found in a statement, a loop with three clauses being one scope for its four parts. -/
def findings (ctx : Context) (s : Stmt) : List Finding :=
  match h : s.counting? with
  | some c =>
    let around := c.initial.toList.foldl .after ctx.enter
    allFindings ctx.enter c.initial.toList ++ c.condition.elim [] (·.findings around none) ++
      findings around c.body ++ c.step.elim [] (·.findings around none)
  | none =>
    match s with
    | .block body => allFindings ctx.enter body
    | .branch condition whenTrue none => condition.findings ctx none ++ findings ctx whenTrue
    | .branch condition whenTrue (some whenFalse) =>
      condition.findings ctx none ++ findings ctx whenTrue ++ findings ctx whenFalse
    | .loop condition body => condition.findings ctx none ++ findings ctx body
    | .function decl =>
      decl.name.duplicate ctx ++ functionFindings (ctx.define decl.name.lexeme) .function decl
    | .classDecl name parent methods =>
      let ctx' := ctx.define name.lexeme
      name.duplicate ctx ++
        (match parent with
          | some ref => parentFindings ctx' name ref
          | none => []) ++
        methodFindings (ctx'.methods parent) methods
    | s => s.findings ctx
termination_by sizeOf s
decreasing_by
  all_goals simp_wf
  any_goals omega
  · exact s.sizeOf_initial_of_counting? h
  · exact s.sizeOf_body_of_counting? h

def allFindings (ctx : Context) (ss : List Stmt) : List Finding :=
  match ss with
  | [] => []
  | s :: rest => findings ctx s ++ allFindings (ctx.after s) rest
termination_by sizeOf ss

def functionFindings (ctx : Context) (kind : FunctionContext) (decl : FunctionDecl) :
    List Finding :=
  match decl with
  | ⟨_, params, body⟩ =>
    parameterFindings ctx.enter params ++ allFindings (ctx.body kind params) body
termination_by sizeOf decl

def methodFindings (ctx : Context) (decls : List FunctionDecl) : List Finding :=
  match decls with
  | [] => []
  | decl :: rest =>
    functionFindings ctx (.ofMethod decl.name) decl ++ methodFindings ctx rest
termination_by sizeOf decls

end

section
variable (ctx : Context)

theorem findings_node (c : Counting) : findings ctx c.node =
    allFindings ctx.enter c.initial.toList ++
      c.condition.elim [] (·.findings (c.initial.toList.foldl .after ctx.enter) none) ++
      findings (c.initial.toList.foldl .after ctx.enter) c.body ++
      c.step.elim [] (·.findings (c.initial.toList.foldl .after ctx.enter) none) := by
  rw [findings]
  rfl

theorem findings_expression (e : Expr) :
    findings ctx (.expression e) = (Stmt.expression e).findings ctx := by
  rw [findings]
  rfl

theorem findings_print (e : Expr) :
    findings ctx (.print e) = (Stmt.print e).findings ctx := by
  rw [findings]
  rfl

theorem findings_var (x : Token) (e : Option Expr) :
    findings ctx (.var x e) = (Stmt.var x e).findings ctx := by
  rw [findings]
  rfl

theorem findings_giveBack (word : Token) (e : Option Expr) :
    findings ctx (.giveBack word e) = (Stmt.giveBack word e).findings ctx := by
  rw [findings]
  rfl

theorem findings_block (body : List Stmt) :
    findings ctx (.block body) = allFindings ctx.enter body := by
  rw [findings]
  rfl

theorem findings_branch (condition : Expr) (whenTrue : Stmt) :
    findings ctx (.branch condition whenTrue none) =
      condition.findings ctx none ++ findings ctx whenTrue := by
  rw [findings]
  rfl

theorem findings_branchElse (condition : Expr) (whenTrue whenFalse : Stmt) :
    findings ctx (.branch condition whenTrue (some whenFalse)) =
      condition.findings ctx none ++ findings ctx whenTrue ++ findings ctx whenFalse := by
  rw [findings]
  rfl

theorem findings_loop {condition : Expr} {body : Stmt} (h : body.declared? = none) :
    findings ctx (.loop condition body) = condition.findings ctx none ++ findings ctx body := by
  rw [findings]
  split
  · next hnode => rw [Stmt.counting?_loop h] at hnode; cases hnode
  · rfl

theorem findings_function (decl : FunctionDecl) : findings ctx (.function decl) =
    decl.name.duplicate ctx ++ functionFindings (ctx.define decl.name.lexeme) .function decl := by
  rw [findings]
  rfl

theorem findings_classDecl (name : Token) (parent : Option Reference)
    (methods : List FunctionDecl) : findings ctx (.classDecl name parent methods) =
      name.duplicate ctx ++
        (match parent with
          | some ref => parentFindings (ctx.define name.lexeme) name ref
          | none => []) ++
        methodFindings ((ctx.define name.lexeme).methods parent) methods := by
  rw [findings]
  cases parent <;> rfl

end

end Direct

end Treewalk
