import Treewalk.Proofs.Grammar.Reading
import Treewalk.Proofs.Outline.Marks
import Treewalk.Proofs.Source.Spacing
import Treewalk.Proofs.Trees.Spelling

/-! The outlines of trees that were read. Every token in such a tree has a text that is scanned as this
token, and so the outline of the tree is told by nested lists of these texts. -/

namespace Treewalk

open Outline

/-- A token of one of these classes, with a text that is scanned as it. -/
def Token.OneOf (as : List Terminal) (t : Token) : Prop :=
  t.terminal ∈ as ∧ Lexeme t.kind t.lexeme.toList

/-- The constant has an outline that is scanned as it. -/
def Literal.Proper (v : Literal) : Prop :=
  ∃ kind, Lexeme kind v.outline.toList ∧ (Token.mk kind v.outline 0).literal? = some v

mutual

/-- All tokens inside the expression are scanned from its outline. -/
def Expr.Proper : Expr → Prop
  | .literal value => value.Proper
  | .unary operator operand => operator.OneOf [.punct .bang, .punct .minus] ∧ operand.Proper
  | .binary left operator right => operator.OneOf binaryOperators ∧ left.Proper ∧ right.Proper
  | .logical left operator right =>
    operator.OneOf [.keyword .orWord, .keyword .andWord] ∧ left.Proper ∧ right.Proper
  | .grouping inner => inner.Proper
  | .variable target => target.name.OneOf [.identifier]
  | .assign target value => target.name.OneOf [.identifier] ∧ value.Proper
  | .call callee paren arguments =>
    paren.OneOf [.punct .rightParen] ∧ callee.Proper ∧ Expr.AllProper arguments
  | .get object name => name.OneOf [.identifier] ∧ object.Proper
  | .set object name value => name.OneOf [.identifier] ∧ object.Proper ∧ value.Proper
  | .this receiver => receiver.name.OneOf [.keyword .thisWord]
  | .parent keyword method =>
    keyword.name.OneOf [.keyword .parentWord] ∧ method.OneOf [.identifier]

def Expr.AllProper : List Expr → Prop
  | [] => True
  | e :: rest => e.Proper ∧ Expr.AllProper rest

end

mutual

/-- All tokens inside the statement are scanned from its outline. -/
def Stmt.Proper : Stmt → Prop
  | .expression value | .print value => value.Proper
  | .var name none => name.OneOf [.identifier]
  | .var name (some initial) => name.OneOf [.identifier] ∧ initial.Proper
  | .block body => Stmt.AllProper body
  | .branch condition whenTrue none => condition.Proper ∧ whenTrue.Proper
  | .branch condition whenTrue (some whenFalse) =>
    condition.Proper ∧ whenTrue.Proper ∧ whenFalse.Proper
  | .loop condition body => condition.Proper ∧ body.Proper
  | .function decl => decl.Proper
  | .giveBack keyword none => keyword.OneOf [.keyword .returnWord]
  | .giveBack keyword (some value) => keyword.OneOf [.keyword .returnWord] ∧ value.Proper
  | .classDecl name none methods => name.OneOf [.identifier] ∧ FunctionDecl.AllProper methods
  | .classDecl name (some parent) methods =>
    name.OneOf [.identifier] ∧ parent.name.OneOf [.identifier] ∧ FunctionDecl.AllProper methods

def Stmt.AllProper : List Stmt → Prop
  | [] => True
  | s :: rest => s.Proper ∧ Stmt.AllProper rest

def FunctionDecl.Proper : FunctionDecl → Prop
  | ⟨name, params, body⟩ =>
    name.OneOf [.identifier] ∧ (∀ p ∈ params, p.OneOf [.identifier]) ∧ Stmt.AllProper body

def FunctionDecl.AllProper : List FunctionDecl → Prop
  | [] => True
  | decl :: rest => decl.Proper ∧ FunctionDecl.AllProper rest

end

/-! ### Trees that are read -/

theorem Stmt.allProper_append {ss us : List Stmt} :
    Stmt.AllProper (ss ++ us) ↔ Stmt.AllProper ss ∧ Stmt.AllProper us := by
  induction ss with
  | nil => simp [Stmt.AllProper]
  | cons s rest ih => simp [Stmt.AllProper, ih, and_assoc]

/-- The nodes of a level have an operator that means something. -/
theorem Level.proper_node {level : Level} {tighter : List Level}
    (hs : level :: tighter <:+ Level.all) {left right : Expr} {op : Token}
    (hop : op.OneOf level.operators) (hleft : left.Proper) (hright : right.Proper) :
    (level.node left op right).Proper := by
  simp only [Level.all, List.suffix_cons_iff, List.cons.injEq, List.suffix_nil, reduceCtorEq,
    or_false] at hs
  have hclass {as : List Terminal} (hsub : level.operators ⊆ as) : op.OneOf as :=
    ⟨hsub hop.1, hop.2⟩
  rcases hs with ⟨rfl, -⟩ | ⟨rfl, -⟩ | ⟨rfl, -⟩ | ⟨rfl, -⟩ | ⟨rfl, -⟩ | ⟨rfl, -⟩
  all_goals exact ⟨hclass (by decide), hleft, hright⟩

/-- The trees of a phrase are proper. Where the trees are put around one that was read before, they are
so if that one is. -/
def Phrase.Proper : Phrase → Prop
  | .expression e | .unary e | .primary e => e.Proper
  | .operation levels e => levels <:+ Level.all → e.Proper
  | .operations level tighter left e => level :: tighter <:+ Level.all → left.Proper → e.Proper
  | .calls callee e => callee.Proper → e.Proper
  | .argumentList es | .arguments es => Expr.AllProper es
  | .clause e | .initial e => ∀ x ∈ e, x.Proper
  | .binding s | .declaration s | .expressionStatement s | .statement _ s => s.Proper
  | .firstClause s => ∀ x ∈ s, x.Proper
  | .declarations ss => Stmt.AllProper ss
  | .parameterList ps | .parameters ps => ∀ p ∈ ps, p.OneOf [.identifier]
  | .function decl => decl.Proper
  | .functions decls => FunctionDecl.AllProper decls
  | .heritage parent => ∀ ref ∈ parent, ref.name.OneOf [.identifier]

theorem Literal.proper_bool (value : Bool) : (Literal.bool value).Proper := by
  cases value
  · exact ⟨.keyword .falseWord, .reserved .falseWord, rfl⟩
  · exact ⟨.keyword .trueWord, .reserved .trueWord, rfl⟩

/-- A loop with three clauses consists of its clauses and its body. -/
theorem Stmt.proper_counting {first : Option Stmt} {condition step : Option Expr} {body : Stmt}
    (hfirst : ∀ s ∈ first, s.Proper) (hcondition : ∀ e ∈ condition, e.Proper)
    (hstep : ∀ e ∈ step, e.Proper) (hbody : body.Proper) :
    (Stmt.counting first condition step body).Proper := by
  unfold Stmt.counting
  rw [Stmt.Proper, Stmt.allProper_append]
  refine ⟨?_, ⟨?_, ?_⟩, trivial⟩
  · cases first with
    | none => trivial
    | some s => exact ⟨hfirst s rfl, trivial⟩
  · cases condition with
    | none => exact Literal.proper_bool true
    | some e => exact hcondition e rfl
  · cases step with
    | none => exact hbody
    | some e => exact ⟨hbody, hstep e rfl, trivial⟩

/-- What is read from tokens with texts that are scanned as them is proper. -/
theorem Reads.proper {phrase : Phrase} {i j : NodeId} {ts : List Token} (h : Reads phrase i ts j)
    (hts : ∀ t ∈ ts, Lexeme t.kind t.lexeme.toList ∧ ∀ v, t.literal? = some v → v.Proper) :
    phrase.Proper := by
  have hone {t : Token} {a : Terminal} (h : Lexeme t.kind t.lexeme.toList) (ha : t.terminal = a) :
      t.OneOf [a] := ⟨List.mem_singleton.mpr ha, h⟩
  induction h with
    simp -failIfUnchanged only [List.append_assoc, List.cons_append, List.forall_mem_append,
      List.forall_mem_cons] at hts
  | value _ ih => exact ih hts (List.suffix_refl _)
  | assign _ _ _ ih ihv =>
    obtain ⟨htarget, -, hvalue⟩ := hts
    exact ⟨ih htarget (List.suffix_refl _), ihv hvalue⟩
  | set _ _ _ ih ihv =>
    obtain ⟨htarget, -, hvalue⟩ := hts
    have hget := ih htarget (List.suffix_refl _)
    exact ⟨hget.1, hget.2, ihv hvalue⟩
  | tightest _ ih => exact fun _ => ih hts
  | level _ _ ih ihRest =>
    intro hs
    exact ihRest hts.2 hs (ih hts.1 ((List.suffix_cons _ _).trans hs))
  | operationsNil => exact fun _ hleft => hleft
  | operationsCons hop _ _ ih ihRest =>
    intro hs hleft
    have hright := ih hts.2.1 ((List.suffix_cons _ _).trans hs)
    exact ihRest hts.2.2 hs (Level.proper_node hs ⟨hop, hts.1.1⟩ hleft hright)
  | sign hop _ ih => exact ⟨⟨hop, hts.1.1⟩, ih hts.2⟩
  | operand _ _ ih ihCalls => exact ihCalls hts.2 (ih hts.1)
  | callsNil => exact fun hcallee => hcallee
  | call _ _ hparen _ ih ihCalls =>
    intro hcallee
    obtain ⟨-, harguments, hrp, hrest⟩ := hts
    exact ihCalls hrest ⟨hone hrp.1 hparen, hcallee, ih harguments⟩
  | get _ hname _ ih => exact fun hcallee => ih hts.2.2 ⟨hone hts.2.1.1 hname, hcallee⟩
  | noArguments => trivial
  | someArguments _ _ ih => exact ih hts
  | argumentsOne _ ih => exact ⟨ih hts, trivial⟩
  | argumentsCons _ _ _ ih ihRest => exact ⟨ih hts.1, ihRest hts.2.2⟩
  | literal hv => exact hts.1.2 _ hv
  | this ht => exact hone hts.1.1 ht
  | parent ht _ hmethod => exact ⟨hone hts.1.1 ht, hone hts.2.2.1.1 hmethod⟩
  | name ht => exact hone hts.1.1 ht
  | grouping _ _ _ ih => exact ih hts.2.1
  | noClause | noInitial | firstNone | noHeritage => simp [Phrase.Proper]
  | someClause _ ih => simpa [Phrase.Proper] using ih hts
  | someInitial _ _ ih => simpa [Phrase.Proper] using ih hts.2
  | @binding _ name e _ _ _ _ _ hname _ _ ih =>
    have hinitial := ih hts.2.2.1
    have hname := hone hts.2.1.1 hname
    cases e with
    | none => exact hname
    | some e => exact ⟨hname, hinitial e rfl⟩
  | expressionStatement _ _ ih => exact ih hts.1
  | firstVariable _ ih => simpa [Phrase.Proper] using ih hts
  | firstExpression _ ih => simpa [Phrase.Proper] using ih hts
  | expression _ ih => exact ih hts
  | print _ _ _ ih => exact ih hts.2.1
  | @giveBack _ e _ _ _ _ hword _ _ ih =>
    have hvalue := ih hts.2.1
    have hword := hone hts.1.1 hword
    cases e with
    | none => exact hword
    | some e => exact ⟨hword, hvalue e rfl⟩
  | branch _ _ _ _ _ ih ihBody => exact ⟨ih hts.2.2.1, ihBody hts.2.2.2.2⟩
  | branchElse _ _ _ _ _ _ _ ih ihBody ihRest =>
    obtain ⟨-, -, hts, -, hus, -, hvs⟩ := hts
    exact ⟨ih hts, ihBody hus, ihRest hvs⟩
  | loop _ _ _ _ _ ih ihBody => exact ⟨ih hts.2.2.1, ihBody hts.2.2.2.2⟩
  | counting _ _ _ _ _ _ _ _ ihFirst ihCondition ihStep ihBody =>
    obtain ⟨-, -, hts, hus, -, hvs, -, hws⟩ := hts
    exact Stmt.proper_counting (ihFirst hts) (ihCondition hus) (ihStep hvs) (ihBody hws)
  | block _ _ _ ih => exact ih hts.2.1
  | declarationsNil | functionsNil => trivial
  | declarationsCons _ _ ih ihRest => exact ⟨ih hts.1, ihRest hts.2⟩
  | @classDecl _ _ parent _ _ _ _ _ _ _ _ _ hname _ _ _ _ ih ihMethods =>
    obtain ⟨-, hlexeme, hts, -, hus, -⟩ := hts
    have hparent := ih hts
    cases parent with
    | none => exact ⟨hone hlexeme.1 hname, ihMethods hus⟩
    | some parent => exact ⟨hone hlexeme.1 hname, hparent parent rfl, ihMethods hus⟩
  | funcDecl _ _ ih => exact ih hts.2
  | varDecl _ ih => exact ih hts
  | statement _ ih => exact ih hts
  | someHeritage _ hname => simpa [Phrase.Proper] using hone hts.2.1.1 hname
  | functionsCons _ _ ih ihRest => exact ⟨ih hts.1, ihRest hts.2⟩
  | function hname _ _ _ _ _ _ ih ihBody =>
    obtain ⟨hlexeme, -, hts, -, -, hus, -⟩ := hts
    exact ⟨hone hlexeme.1 hname, ih hts, ihBody hus⟩
  | noParameters => simp [Phrase.Proper]
  | someParameters _ _ ih => exact ih hts
  | parametersOne hp => simpa [Phrase.Proper] using hone hts.1.1 hp
  | parametersCons hp _ _ ih => exact List.forall_mem_cons.mpr ⟨hone hts.1.1 hp, ih hts.2.2⟩

end Treewalk
