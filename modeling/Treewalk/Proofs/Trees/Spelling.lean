import Treewalk.Proofs.Grammar.Reading
import Treewalk.Proofs.Source.Word
import Treewalk.Resolution

/-! The tokens inside trees. A tree that was read from the tokens of a source text has names where
names belong, the reserved word where it stands for one, and no operator that means nothing; what
holds of all names among the tokens holds of the names in the tree. -/

namespace Treewalk

/-- The operators of the nodes that compute with both operands. -/
def binaryOperators : List Terminal :=
  [.punct .bangEqual, .punct .equalEqual, .punct .greater, .punct .greaterEqual, .punct .less,
    .punct .lessEqual, .punct .minus, .punct .plus, .punct .star, .punct .slash]

mutual

/-- The tokens inside an expression are of the right classes, and its names satisfy `N`. -/
def Expr.Spelled (N : Token → Prop) : Expr → Prop
  | .literal _ => True
  | .unary operator operand =>
    operator.terminal ∈ [Terminal.punct .bang, .punct .minus] ∧ operand.Spelled N
  | .binary left operator right =>
    operator.terminal ∈ binaryOperators ∧ left.Spelled N ∧ right.Spelled N
  | .logical left _ right => left.Spelled N ∧ right.Spelled N
  | .grouping inner => inner.Spelled N
  | .variable target => N target.name
  | .assign target value => N target.name ∧ value.Spelled N
  | .call callee _ arguments => callee.Spelled N ∧ Expr.AllSpelled N arguments
  | .get object _ => object.Spelled N
  | .set object _ value => object.Spelled N ∧ value.Spelled N
  | .this receiver => receiver.name.lexeme = "this"
  | .parent keyword _ => keyword.name.lexeme = "parent"

def Expr.AllSpelled (N : Token → Prop) : List Expr → Prop
  | [] => True
  | e :: rest => e.Spelled N ∧ Expr.AllSpelled N rest

end

mutual

/-- The tokens inside a statement are of the right classes, and what a branch or a loop runs declares
nothing. -/
def Stmt.Spelled (N : Token → Prop) : Stmt → Prop
  | .expression value | .print value => value.Spelled N
  | .var name none => N name
  | .var name (some initial) => N name ∧ initial.Spelled N
  | .block body => Stmt.AllSpelled N body
  | .branch condition whenTrue none =>
    condition.Spelled N ∧ whenTrue.Spelled N ∧ whenTrue.declared? = none
  | .branch condition whenTrue (some whenFalse) =>
    condition.Spelled N ∧ (whenTrue.Spelled N ∧ whenTrue.declared? = none) ∧
      whenFalse.Spelled N ∧ whenFalse.declared? = none
  | .loop condition body => condition.Spelled N ∧ body.Spelled N ∧ body.declared? = none
  | .function decl => decl.Spelled N
  | .giveBack _ none => True
  | .giveBack _ (some value) => value.Spelled N
  | .classDecl name parent methods =>
    N name ∧ (∀ ref ∈ parent, N ref.name) ∧ FunctionDecl.AllSpelled N methods

def Stmt.AllSpelled (N : Token → Prop) : List Stmt → Prop
  | [] => True
  | s :: rest => s.Spelled N ∧ Stmt.AllSpelled N rest

def FunctionDecl.Spelled (N : Token → Prop) : FunctionDecl → Prop
  | ⟨name, params, body⟩ => N name ∧ (∀ p ∈ params, N p) ∧ Stmt.AllSpelled N body

def FunctionDecl.AllSpelled (N : Token → Prop) : List FunctionDecl → Prop
  | [] => True
  | decl :: rest => decl.Spelled N ∧ FunctionDecl.AllSpelled N rest

end

section
variable {N : Token → Prop}

theorem Expr.allSpelled_iff {es : List Expr} : Expr.AllSpelled N es ↔ ∀ e ∈ es, e.Spelled N := by
  induction es with
  | nil => simp [Expr.AllSpelled]
  | cons e rest ih => simp [Expr.AllSpelled, ih]

theorem FunctionDecl.allSpelled_iff {decls : List FunctionDecl} :
    FunctionDecl.AllSpelled N decls ↔ ∀ decl ∈ decls, decl.Spelled N := by
  induction decls with
  | nil => simp [FunctionDecl.AllSpelled]
  | cons decl rest ih => simp [FunctionDecl.AllSpelled, ih]

theorem FunctionDecl.spelled_iff {decl : FunctionDecl} :
    decl.Spelled N ↔
      N decl.name ∧ (∀ p ∈ decl.params, N p) ∧ Stmt.AllSpelled N decl.body := by
  obtain ⟨name, params, body⟩ := decl
  exact Iff.rfl

/-- What runs if a condition holds declares nothing. -/
theorem Stmt.Spelled.whenTrue {condition : Expr} {whenTrue : Stmt} {whenFalse : Option Stmt}
    (h : (Stmt.branch condition whenTrue whenFalse).Spelled N) : whenTrue.declared? = none := by
  cases whenFalse with
  | none => exact h.2.2
  | some whenFalse => exact h.2.1.2

/-- The name that a statement declares is among those that it is made of. -/
theorem Stmt.Spelled.declared {s : Stmt} {name : Token} (h : s.Spelled N)
    (hname : s.declared? = some name) : N name := by
  cases s with
  | var x e =>
    cases hname
    cases e with
    | none => exact h
    | some e => exact h.1
  | function decl => cases hname; exact (FunctionDecl.spelled_iff.mp h).1
  | classDecl x parent methods => cases hname; exact h.1
  | _ => cases hname

theorem Stmt.allSpelled_append {ss us : List Stmt} :
    Stmt.AllSpelled N (ss ++ us) ↔ Stmt.AllSpelled N ss ∧ Stmt.AllSpelled N us := by
  induction ss with
  | nil => simp [Stmt.AllSpelled]
  | cons s rest ih => simp [Stmt.AllSpelled, ih, and_assoc]

/-- The nodes of a level have an operator that means something. -/
theorem Level.spelled_node {level : Level} {tighter : List Level}
    (hs : level :: tighter <:+ Level.all) {left right : Expr} {op : Token}
    (hop : op.terminal ∈ level.operators) (hleft : left.Spelled N) (hright : right.Spelled N) :
    (level.node left op right).Spelled N := by
  simp only [Level.all, List.suffix_cons_iff, List.cons.injEq, List.suffix_nil, reduceCtorEq,
    or_false] at hs
  rcases hs with ⟨rfl, -⟩ | ⟨rfl, -⟩ | ⟨rfl, -⟩ | ⟨rfl, -⟩ | ⟨rfl, -⟩ | ⟨rfl, -⟩
  · exact ⟨hleft, hright⟩
  · exact ⟨hleft, hright⟩
  all_goals
    refine ⟨?_, hleft, hright⟩
    revert hop
    generalize op.terminal = a
    revert a
    decide

/-- The tokens inside the trees of a phrase are of the right classes. Where the trees are put
around one that was read before, they are so if that one is. -/
def Phrase.Spelled (N : Token → Prop) : Phrase → Prop
  | .expression e | .unary e | .primary e => e.Spelled N
  | .operation levels e => levels <:+ Level.all → e.Spelled N
  | .operations level tighter left e =>
    level :: tighter <:+ Level.all → left.Spelled N → e.Spelled N
  | .calls callee e => callee.Spelled N → e.Spelled N
  | .argumentList es | .arguments es => Expr.AllSpelled N es
  | .clause e | .initial e => ∀ x ∈ e, x.Spelled N
  | .binding s | .declaration s => s.Spelled N
  | .expressionStatement s | .statement _ s => s.Spelled N ∧ s.declared? = none
  | .firstClause s => ∀ x ∈ s, x.Spelled N
  | .declarations ss => Stmt.AllSpelled N ss
  | .parameterList ps | .parameters ps => ∀ p ∈ ps, N p
  | .function decl => decl.Spelled N
  | .functions decls => FunctionDecl.AllSpelled N decls
  | .heritage parent => ∀ ref ∈ parent, N ref.name

/-- A loop with three clauses consists of its clauses and its body. -/
theorem Stmt.spelled_counting {first : Option Stmt} {condition step : Option Expr} {body : Stmt}
    (hfirst : ∀ s ∈ first, s.Spelled N) (hcondition : ∀ e ∈ condition, e.Spelled N)
    (hstep : ∀ e ∈ step, e.Spelled N) (hbody : body.Spelled N ∧ body.declared? = none) :
    (Stmt.counting first condition step body).Spelled N := by
  unfold Stmt.counting
  rw [Stmt.Spelled, Stmt.allSpelled_append]
  refine ⟨?_, ⟨?_, ?_⟩, trivial⟩
  · cases first with
    | none => trivial
    | some s => exact ⟨hfirst s rfl, trivial⟩
  · cases condition with
    | none => trivial
    | some e => exact hcondition e rfl
  · cases step with
    | none => exact hbody
    | some e => exact ⟨⟨hbody.1, hstep e rfl, trivial⟩, rfl⟩

/-- What is read from the tokens of a source text has its tokens where they belong. -/
theorem Reads.spelled {phrase : Phrase} {i j : NodeId} {ts : List Token} (h : Reads phrase i ts j)
    (hts : ∀ t ∈ ts, t.Proper ∧ (t.terminal = .identifier → N t)) : phrase.Spelled N := by
  induction h with
    simp -failIfUnchanged only [List.append_assoc, List.cons_append, List.forall_mem_append,
      List.forall_mem_cons] at hts
  | value _ ih => exact ih hts (List.suffix_refl _)
  | assign _ _ _ ih ihv =>
    obtain ⟨htarget, -, hvalue⟩ := hts
    exact ⟨ih htarget (List.suffix_refl _), ihv hvalue⟩
  | set _ _ _ ih ihv =>
    obtain ⟨htarget, -, hvalue⟩ := hts
    exact ⟨ih htarget (List.suffix_refl _), ihv hvalue⟩
  | tightest _ ih => exact fun _ => ih hts
  | level _ _ ih ihRest =>
    intro hs
    exact ihRest hts.2 hs (ih hts.1 ((List.suffix_cons _ _).trans hs))
  | operationsNil => exact fun _ hleft => hleft
  | operationsCons hop _ _ ih ihRest =>
    intro hs hleft
    have hright := ih hts.2.1 ((List.suffix_cons _ _).trans hs)
    exact ihRest hts.2.2 hs (Level.spelled_node hs hop hleft hright)
  | sign hop _ ih => exact ⟨hop, ih hts.2⟩
  | operand _ _ ih ihCalls => exact ihCalls hts.2 (ih hts.1)
  | callsNil => exact fun hcallee => hcallee
  | call _ _ _ _ ih ihCalls =>
    intro hcallee
    exact ihCalls hts.2.2.2 ⟨hcallee, ih hts.2.1⟩
  | get _ _ _ ih => exact fun hcallee => ih hts.2.2 hcallee
  | noArguments => trivial
  | someArguments _ _ ih => exact ih hts
  | argumentsOne _ ih => exact ⟨ih hts, trivial⟩
  | argumentsCons _ _ _ ih ihRest => exact ⟨ih hts.1, ihRest hts.2.2⟩
  | literal _ => trivial
  | this ht => exact Token.lexeme_of_proper hts.1.1 ht
  | parent ht _ _ => exact Token.lexeme_of_proper hts.1.1 ht
  | name ht => exact hts.1.2 ht
  | grouping _ _ _ ih => exact ih hts.2.1
  | noClause | noInitial | firstNone | noHeritage => simp [Phrase.Spelled]
  | someClause _ ih => simpa [Phrase.Spelled] using ih hts
  | someInitial _ _ ih => simpa [Phrase.Spelled] using ih hts.2
  | @binding _ name e _ _ _ _ _ hname _ _ ih =>
    have hinitial := ih hts.2.2.1
    have hname := hts.2.1.2 hname
    cases e with
    | none => exact hname
    | some e => exact ⟨hname, hinitial e rfl⟩
  | expressionStatement _ _ ih => exact ⟨ih hts.1, rfl⟩
  | firstVariable _ ih => simpa [Phrase.Spelled] using ih hts
  | firstExpression _ ih => simpa [Phrase.Spelled] using (ih hts).1
  | expression _ ih => exact ih hts
  | print _ _ _ ih => exact ⟨ih hts.2.1, rfl⟩
  | @giveBack _ e _ _ _ _ _ _ _ ih =>
    have hvalue := ih hts.2.1
    cases e with
    | none => exact ⟨trivial, rfl⟩
    | some e => exact ⟨hvalue e rfl, rfl⟩
  | branch _ _ _ _ _ ih ihBody => exact ⟨⟨ih hts.2.2.1, ihBody hts.2.2.2.2⟩, rfl⟩
  | branchElse _ _ _ _ _ _ _ ih ihBody ihRest =>
    obtain ⟨-, -, hts, -, hus, -, hvs⟩ := hts
    exact ⟨⟨ih hts, ihBody hus, ihRest hvs⟩, rfl⟩
  | loop _ _ _ _ _ ih ihBody => exact ⟨⟨ih hts.2.2.1, ihBody hts.2.2.2.2⟩, rfl⟩
  | counting _ _ _ _ _ _ _ _ ihFirst ihCondition ihStep ihBody =>
    obtain ⟨-, -, hts, hus, -, hvs, -, hws⟩ := hts
    exact ⟨Stmt.spelled_counting (ihFirst hts) (ihCondition hus) (ihStep hvs) (ihBody hws), rfl⟩
  | block _ _ _ ih => exact ⟨ih hts.2.1, rfl⟩
  | declarationsNil | functionsNil => trivial
  | declarationsCons _ _ ih ihRest => exact ⟨ih hts.1, ihRest hts.2⟩
  | classDecl _ hname _ _ _ _ ih ihMethods =>
    obtain ⟨-, hproper, hts, -, hus, -⟩ := hts
    exact ⟨hproper.2 hname, ih hts, ihMethods hus⟩
  | funcDecl _ _ ih => exact ih hts.2
  | varDecl _ ih => exact ih hts
  | statement _ ih => exact (ih hts).1
  | someHeritage _ hname =>
    simpa [Phrase.Spelled] using hts.2.1.2 hname
  | functionsCons _ _ ih ihRest => exact ⟨ih hts.1, ihRest hts.2⟩
  | function hname _ _ _ _ _ _ ih ihBody =>
    obtain ⟨hproper, -, hts, -, -, hus, -⟩ := hts
    exact ⟨hproper.2 hname, ih hts, ihBody hus⟩
  | noParameters => simp [Phrase.Spelled]
  | someParameters _ _ ih => exact ih hts
  | parametersOne hp => simpa [Phrase.Spelled] using hts.1.2 hp
  | parametersCons hp _ _ ih =>
    exact List.forall_mem_cons.mpr ⟨hts.1.2 hp, ih hts.2.2⟩

end

/-- The names in a program that was read from a source text are no reserved words. -/
theorem Reads.spelled_names {source : String} {program : Program} {i j : NodeId}
    (h : Reads (.declarations program) i (Source.tokens source) j) :
    Stmt.AllSpelled Token.IsName program := by
  refine h.spelled fun t ht => ?_
  have hproper := Source.proper_of_mem_tokens ht
  exact ⟨hproper, Token.isName_of_proper hproper⟩

end Treewalk
