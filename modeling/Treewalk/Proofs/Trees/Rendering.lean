import Treewalk.Proofs.Grammar.Reading
import Treewalk.Proofs.Source.Word

/-! Rendering: a tree is turned back into tokens, every node into its own tokens in the order of the
source. What was read without a loop with three clauses is rendered as the tokens that it was read
from, but for their lines and for the texts of numbers. -/

namespace Treewalk

/-- A mark, spelled out. -/
def Punct.token (p : Punct) : Token := ⟨.punct p, String.ofList p.spelling, 0⟩

/-- A reserved word, spelled out. -/
def Keyword.token (k : Keyword) : Token := ⟨.keyword k, k.spelling, 0⟩

/-- A constant, spelled out. -/
def Literal.token : Literal → Token
  | .number value => ⟨.number value, String.ofList (Token.numberText value), 0⟩
  | .string contents => ⟨.string contents, "\"" ++ contents ++ "\"", 0⟩
  | .bool true => Keyword.trueWord.token
  | .bool false => Keyword.falseWord.token
  | .null => Keyword.nullWord.token

@[simp] theorem Punct.terminal_token (p : Punct) : p.token.terminal = .punct p := rfl

@[simp] theorem Keyword.terminal_token (k : Keyword) : k.token.terminal = .keyword k := rfl

theorem Literal.literal?_token (v : Literal) : v.token.literal? = some v := by
  cases v with
  | bool value => cases value <;> rfl
  | _ => rfl

/-! ### The tokens of a tree -/

/-- Lists of tokens with commas between them. -/
def listed (lists : List (List Token)) : List Token := List.intercalate [Punct.comma.token] lists

@[simp] theorem listed_singleton (ts : List Token) : listed [ts] = ts := by
  simp [listed, List.intercalate]

theorem listed_cons {ts : List Token} {lists : List (List Token)} (h : lists ≠ []) :
    listed (ts :: lists) = ts ++ Punct.comma.token :: listed lists := by
  cases lists with
  | nil => exact absurd rfl h
  | cons us rest => simp [listed, List.intercalate]

mutual

/-- The tokens of an expression. There are parentheses where the tree has a grouping, and nowhere
else. -/
def Expr.tokens : Expr → List Token
  | .literal value => [value.token]
  | .unary operator operand => operator :: operand.tokens
  | .binary left operator right | .logical left operator right =>
    left.tokens ++ operator :: right.tokens
  | .grouping inner => Punct.leftParen.token :: inner.tokens ++ [Punct.rightParen.token]
  | .variable target => [target.name]
  | .assign target value => target.name :: Punct.equal.token :: value.tokens
  | .call callee paren arguments =>
    callee.tokens ++ Punct.leftParen.token :: listed (Expr.eachTokens arguments) ++ [paren]
  | .get object name => object.tokens ++ [Punct.dot.token, name]
  | .set object name value =>
    object.tokens ++ Punct.dot.token :: name :: Punct.equal.token :: value.tokens
  | .this receiver => [receiver.name]
  | .parent keyword method => [keyword.name, Punct.dot.token, method]

def Expr.eachTokens : List Expr → List (List Token)
  | [] => []
  | e :: rest => e.tokens :: Expr.eachTokens rest

end

/-- The tokens of an expression that may be left out. -/
def clauseTokens : Option Expr → List Token
  | none => []
  | some e => e.tokens

/-- The tokens of an initial value, with its equals sign. -/
def initialTokens : Option Expr → List Token
  | none => []
  | some e => Punct.equal.token :: e.tokens

/-- The tokens of the parent of a class, with its mark. -/
def heritageTokens : Option Reference → List Token
  | none => []
  | some parent => [Punct.less.token, parent.name]

/-- The tokens of parameters, with the commas between them. -/
def parameterTokens (params : List Token) : List Token := listed (params.map ([·]))

mutual

/-- The tokens of a statement. There are braces where the tree has a block, and nowhere else. -/
def Stmt.tokens : Stmt → List Token
  | .expression value => value.tokens ++ [Punct.semicolon.token]
  | .print value => Keyword.printWord.token :: value.tokens ++ [Punct.semicolon.token]
  | .var name initial =>
    Keyword.varWord.token :: name :: initialTokens initial ++ [Punct.semicolon.token]
  | .block body => Punct.leftBrace.token :: Stmt.allTokens body ++ [Punct.rightBrace.token]
  | .branch condition whenTrue none =>
    Keyword.ifWord.token :: Punct.leftParen.token :: condition.tokens ++
      Punct.rightParen.token :: whenTrue.tokens
  | .branch condition whenTrue (some whenFalse) =>
    Keyword.ifWord.token :: Punct.leftParen.token :: condition.tokens ++
      Punct.rightParen.token :: whenTrue.tokens ++ Keyword.elseWord.token :: whenFalse.tokens
  | .loop condition body =>
    Keyword.whileWord.token :: Punct.leftParen.token :: condition.tokens ++
      Punct.rightParen.token :: body.tokens
  | .function decl => Keyword.funcWord.token :: decl.tokens
  | .giveBack keyword value => keyword :: clauseTokens value ++ [Punct.semicolon.token]
  | .classDecl name parent methods =>
    Keyword.classWord.token :: name :: heritageTokens parent ++
      Punct.leftBrace.token :: FunctionDecl.allTokens methods ++ [Punct.rightBrace.token]

def Stmt.allTokens : List Stmt → List Token
  | [] => []
  | s :: rest => s.tokens ++ Stmt.allTokens rest

/-- The tokens of a function, without the word in front of it. -/
def FunctionDecl.tokens : FunctionDecl → List Token
  | ⟨name, params, body⟩ =>
    name :: Punct.leftParen.token :: parameterTokens params ++
      Punct.rightParen.token :: Punct.leftBrace.token :: Stmt.allTokens body ++
        [Punct.rightBrace.token]

def FunctionDecl.allTokens : List FunctionDecl → List Token
  | [] => []
  | decl :: rest => decl.tokens ++ FunctionDecl.allTokens rest

end

/-- The tokens of a program. -/
def render (p : Program) : List Token := Stmt.allTokens p

/-- The node of a level has the tokens of its operands around its own. -/
theorem Level.tokens_node {level : Level} {tighter : List Level}
    (hs : level :: tighter <:+ Level.all) (left right : Expr) (op : Token) :
    (level.node left op right).tokens = left.tokens ++ op :: right.tokens := by
  rcases Level.node_eq hs with h | h <;> rw [h] <;> rfl

theorem Reads.eachTokens_ne_nil {es : List Expr} {i j : NodeId} {ts : List Token}
    (h : Reads (.arguments es) i ts j) : Expr.eachTokens es ≠ [] := by
  cases h <;> exact List.cons_ne_nil _ _

theorem Reads.parameters_ne_nil {ps : List Token} {i j : NodeId} {ts : List Token}
    (h : Reads (.parameters ps) i ts j) : ps.map ([·]) ≠ [] := by
  cases h <;> exact List.cons_ne_nil _ _

/-! ### The tokens that were read -/

/-- The token without its line, and a number without its text. -/
def Token.bare (t : Token) : Token :=
  match t.kind with
  | .number value => ⟨.number value, "", 0⟩
  | kind => ⟨kind, t.lexeme, 0⟩

namespace Token

variable {t : Token}

theorem bare_of_punct {p : Punct} (h : t.kind.SpelledOut t.lexeme) (ht : t.terminal = .punct p) :
    p.token.bare = t.bare := by
  obtain ⟨kind, lexeme, line⟩ := t
  cases kind <;> cases ht
  cases h
  rfl

theorem bare_of_keyword {k : Keyword} (h : t.kind.SpelledOut t.lexeme)
    (ht : t.terminal = .keyword k) : k.token.bare = t.bare := by
  obtain ⟨kind, lexeme, line⟩ := t
  cases kind <;> cases ht
  cases h
  rfl

theorem bare_of_literal? {v : Literal} (h : t.kind.SpelledOut t.lexeme) (ht : t.literal? = some v) :
    v.token.bare = t.bare := by
  obtain ⟨kind, lexeme, line⟩ := t
  cases kind with
  | string contents =>
    cases ht
    cases h
    rfl
  | number value =>
    cases ht
    rfl
  | keyword k => cases k <;> cases ht <;> (cases h; rfl)
  | _ => cases ht

end Token

/-- The tokens are the same but for lines and the texts of numbers. -/
def SameText (ts us : List Token) : Prop := ts.map Token.bare = us.map Token.bare

namespace SameText

variable {t u : Token} {ts us ts' us' : List Token}

theorem refl (ts : List Token) : SameText ts ts := rfl

theorem cons (h : t.bare = u.bare) (hs : SameText ts us) : SameText (t :: ts) (u :: us) := by
  unfold SameText at *
  rw [List.map_cons, List.map_cons, h, hs]

theorem append (h : SameText ts us) (h' : SameText ts' us') : SameText (ts ++ ts') (us ++ us') := by
  unfold SameText at *
  rw [List.map_append, List.map_append, h, h']

end SameText

/-- A token of a text without loops with three clauses. -/
def Token.Rendered (t : Token) : Prop :=
  t.kind.SpelledOut t.lexeme ∧ t.terminal ≠ .keyword .forWord

/-- The tokens of the trees of a phrase are the ones that were read. Where its trees are put around
one that was read before, these are the tokens that they add. -/
def Phrase.Renders (ts : List Token) : Phrase → Prop
  | .expression e | .unary e | .primary e => SameText e.tokens ts
  | .operation levels e => levels <:+ Level.all → SameText e.tokens ts
  | .operations level tighter left e => level :: tighter <:+ Level.all →
    ∃ added, e.tokens = left.tokens ++ added ∧ SameText added ts
  | .calls callee e => ∃ added, e.tokens = callee.tokens ++ added ∧ SameText added ts
  | .argumentList es | .arguments es => SameText (listed (Expr.eachTokens es)) ts
  | .clause e => SameText (clauseTokens e) ts
  | .initial e => SameText (initialTokens e) ts
  | .firstClause _ => True
  | .binding s | .expressionStatement s | .statement _ s | .declaration s => SameText s.tokens ts
  | .declarations ss => SameText (Stmt.allTokens ss) ts
  | .parameterList ps | .parameters ps => SameText (parameterTokens ps) ts
  | .function decl => SameText decl.tokens ts
  | .functions decls => SameText (FunctionDecl.allTokens decls) ts
  | .heritage parent => SameText (heritageTokens parent) ts

/-- What is read without a loop with three clauses is rendered as the tokens that were read. -/
theorem Reads.renders {phrase : Phrase} {i j : NodeId} {ts : List Token} (h : Reads phrase i ts j)
    (hts : ∀ t ∈ ts, t.Rendered) : phrase.Renders ts := by
  induction h with
    simp -failIfUnchanged only [List.append_assoc, List.cons_append, List.forall_mem_append,
      List.forall_mem_cons] at hts
  | value _ ih => exact ih hts (List.suffix_refl _)
  | assign _ heq _ ih ihv =>
    obtain ⟨htarget, hequal, hvalue⟩ := hts
    exact (ih htarget (List.suffix_refl _)).append
      (.cons (Token.bare_of_punct hequal.1 heq) (ihv hvalue))
  | set _ heq _ ih ihv =>
    obtain ⟨htarget, hequal, hvalue⟩ := hts
    have hset := (ih htarget (List.suffix_refl _)).append
      (.cons (Token.bare_of_punct hequal.1 heq) (ihv hvalue))
    simpa [Phrase.Renders, Expr.tokens] using hset
  | tightest _ ih => exact fun _ => ih hts
  | level _ _ ih ihRest =>
    intro hs
    obtain ⟨added, heq, hadded⟩ := ihRest hts.2 hs
    rw [heq]
    exact (ih hts.1 ((List.suffix_cons _ _).trans hs)).append hadded
  | operationsNil => exact fun _ => ⟨[], by simp, .refl []⟩
  | @operationsCons _ _ _ op right _ _ _ _ _ _ _ _ _ ih ihRest =>
    intro hs
    have hright := ih hts.2.1 ((List.suffix_cons _ _).trans hs)
    obtain ⟨added, heq, hadded⟩ := ihRest hts.2.2 hs
    exact ⟨op :: right.tokens ++ added, by simp [heq, Level.tokens_node hs],
      (SameText.cons rfl hright).append hadded⟩
  | sign _ _ ih => exact .cons rfl (ih hts.2)
  | operand _ _ ih ihCalls =>
    obtain ⟨added, heq, hadded⟩ := ihCalls hts.2
    rw [Phrase.Renders, heq]
    exact (ih hts.1).append hadded
  | callsNil => exact ⟨[], by simp, .refl []⟩
  | @call _ _ es rp _ _ _ _ _ _ hlp _ hrp _ ih ihCalls =>
    obtain ⟨hleft, hes, -, hrest⟩ := hts
    obtain ⟨added, heq, hadded⟩ := ihCalls hrest
    exact ⟨Punct.leftParen.token :: listed (Expr.eachTokens es) ++ rp :: added,
      by simp [heq, Expr.tokens],
      (SameText.cons (Token.bare_of_punct hleft.1 hlp) (ih hes)).append (.cons rfl hadded)⟩
  | @get _ _ name _ _ _ _ hdot _ _ ih =>
    obtain ⟨added, heq, hadded⟩ := ih hts.2.2
    exact ⟨Punct.dot.token :: name :: added, by simp [heq, Expr.tokens],
      .cons (Token.bare_of_punct hts.1.1 hdot) (.cons rfl hadded)⟩
  | noArguments | noClause | noInitial | noHeritage | declarationsNil | functionsNil
  | noParameters => exact .refl []
  | someClause _ ih | expression _ ih | varDecl _ ih | statement _ ih => exact ih hts
  | someArguments _ _ ih | someParameters _ _ ih => exact ih hts
  | argumentsOne _ ih => simpa [Phrase.Renders, Expr.eachTokens] using ih hts
  | argumentsCons _ hcomma hrest ih ihRest =>
    rw [Phrase.Renders, Expr.eachTokens, listed_cons hrest.eachTokens_ne_nil]
    exact (ih hts.1).append (.cons (Token.bare_of_punct hts.2.1.1 hcomma) (ihRest hts.2.2))
  | literal hv => exact .cons (Token.bare_of_literal? hts.1.1 hv) (.refl [])
  | this _ | name _ => exact .refl _
  | parent _ hdot _ => exact .cons rfl (.cons (Token.bare_of_punct hts.2.1.1 hdot) (.refl _))
  | grouping hlp _ hrp ih =>
    obtain ⟨hleft, he, hright, -⟩ := hts
    exact (SameText.cons (Token.bare_of_punct hleft.1 hlp) (ih he)).append
      (.cons (Token.bare_of_punct hright.1 hrp) (.refl []))
  | someInitial heq _ ih => exact .cons (Token.bare_of_punct hts.1.1 heq) (ih hts.2)
  | binding hvar _ _ hsemi ih =>
    obtain ⟨hword, -, he, hend, -⟩ := hts
    exact (SameText.cons (Token.bare_of_keyword hword.1 hvar) (.cons rfl (ih he))).append
      (.cons (Token.bare_of_punct hend.1 hsemi) (.refl []))
  | expressionStatement _ hsemi ih =>
    exact (ih hts.1).append (.cons (Token.bare_of_punct hts.2.1.1 hsemi) (.refl []))
  | firstNone | firstVariable _ | firstExpression _ => trivial
  | print hword _ hsemi ih =>
    obtain ⟨hprint, he, hend, -⟩ := hts
    exact (SameText.cons (Token.bare_of_keyword hprint.1 hword) (ih he)).append
      (.cons (Token.bare_of_punct hend.1 hsemi) (.refl []))
  | giveBack _ _ hsemi ih =>
    obtain ⟨-, he, hend, -⟩ := hts
    exact (SameText.cons rfl (ih he)).append
      (.cons (Token.bare_of_punct hend.1 hsemi) (.refl []))
  | branch hword hlp _ hrp _ ih ihBody =>
    obtain ⟨hif, hleft, he, hright, hs⟩ := hts
    exact (SameText.cons (Token.bare_of_keyword hif.1 hword)
      (.cons (Token.bare_of_punct hleft.1 hlp) (ih he))).append
      (.cons (Token.bare_of_punct hright.1 hrp) (ihBody hs))
  | branchElse hword hlp _ hrp _ hother _ ih ihBody ihRest =>
    obtain ⟨hif, hleft, he, hright, hs, helse, hrest⟩ := hts
    exact ((SameText.cons (Token.bare_of_keyword hif.1 hword)
      (.cons (Token.bare_of_punct hleft.1 hlp) (ih he))).append
      (.cons (Token.bare_of_punct hright.1 hrp) (ihBody hs))).append
      (.cons (Token.bare_of_keyword helse.1 hother) (ihRest hrest))
  | loop hword hlp _ hrp _ ih ihBody =>
    obtain ⟨hwhile, hleft, he, hright, hs⟩ := hts
    exact (SameText.cons (Token.bare_of_keyword hwhile.1 hword)
      (.cons (Token.bare_of_punct hleft.1 hlp) (ih he))).append
      (.cons (Token.bare_of_punct hright.1 hrp) (ihBody hs))
  | counting hword => exact absurd hword hts.1.2
  | block hlb _ hrb ih =>
    obtain ⟨hleft, hss, hright, -⟩ := hts
    exact (SameText.cons (Token.bare_of_punct hleft.1 hlb) (ih hss)).append
      (.cons (Token.bare_of_punct hright.1 hrb) (.refl []))
  | declarationsCons _ _ ih ihRest | functionsCons _ _ ih ihRest =>
    exact (ih hts.1).append (ihRest hts.2)
  | classDecl hword _ _ hlb _ hrb ih ihMethods =>
    obtain ⟨hclass, -, hparent, hleft, hmethods, hright, -⟩ := hts
    exact ((SameText.cons (Token.bare_of_keyword hclass.1 hword) (.cons rfl (ih hparent))).append
      (.cons (Token.bare_of_punct hleft.1 hlb) (ihMethods hmethods))).append
      (.cons (Token.bare_of_punct hright.1 hrb) (.refl []))
  | funcDecl hword _ ih => exact .cons (Token.bare_of_keyword hts.1.1 hword) (ih hts.2)
  | someHeritage hless _ => exact .cons (Token.bare_of_punct hts.1.1 hless) (.refl _)
  | function _ hlp _ hrp hlb _ hrb ih ihBody =>
    obtain ⟨-, hleft, hparams, hright, hopen, hbody, hclose, -⟩ := hts
    exact ((SameText.cons rfl (.cons (Token.bare_of_punct hleft.1 hlp) (ih hparams))).append
      (.cons (Token.bare_of_punct hright.1 hrp)
        (.cons (Token.bare_of_punct hopen.1 hlb) (ihBody hbody)))).append
      (.cons (Token.bare_of_punct hclose.1 hrb) (.refl []))
  | parametersOne _ => exact .refl _
  | parametersCons _ hcomma hrest ih =>
    rw [Phrase.Renders, parameterTokens, List.map_cons, listed_cons hrest.parameters_ne_nil]
    exact .cons rfl (.cons (Token.bare_of_punct hts.2.1.1 hcomma) (ih hts.2.2))

end Treewalk
