import Treewalk.Proofs.Grammar.Accepting
import Treewalk.Proofs.Grammar.Deriving

/-! What is derived is read, and so the parser accepts exactly what the grammar derives. The one
place where the grammar leaves a choice is an `else` behind two statements that could take it; the
reading gives it to the nearer one. -/

namespace Treewalk

open Ebnf

/-- From every number on, `ts` is read as the phrase for some tree. -/
def Read {α : Type} (phrase : α → Phrase) (ts : List Token) : Prop :=
  ∀ i, ∃ a j, Reads (phrase a) i ts j

/-- From every number on, `ts` is read as a statement. -/
def ReadStatement (ts : List Token) : Prop :=
  ∀ i, ∃ isOpen s j, Reads (.statement isOpen s) i ts j

/-- From every number on, `ts` is read as a callee with what is called on it. -/
def ReadCall (ts : List Token) : Prop :=
  ∀ i, ∃ callee e us vs k j, ts = us ++ vs ∧ Reads (.primary callee) i us k ∧
    Reads (.calls callee e) k vs j

/-- The token sequences that are read as each symbol. -/
def Ebnf.Symbol.IsRead : Symbol → List Token → Prop
  | .program, ts => ∃ us eof, ts = us ++ [eof] ∧ eof.terminal = .eof ∧ Read .declarations us
  | .declaration, ts | .classDecl, ts | .funcDecl, ts => Read .declaration ts
  | .function, ts => Read .function ts
  | .varDecl, ts => Read .binding ts
  | .exprStmt, ts => Read .expressionStatement ts
  | .statement, ts | .forStmt, ts | .ifStmt, ts | .printStmt, ts | .returnStmt, ts
  | .whileStmt, ts => ReadStatement ts
  | .block, ts => ∃ lb us rb, ts = lb :: us ++ [rb] ∧ lb.terminal = .punct .leftBrace ∧
    rb.terminal = .punct .rightBrace ∧ Read .declarations us
  | .parameters, ts => ∀ i, ∃ ps, Reads (.parameters ps) i ts i ∧ ps.length ≤ maxArguments
  | .expression, ts | .assignment, ts => Read .expression ts
  | .logicOr, ts => Read (.operation Level.all) ts
  | .logicAnd, ts => Read (.operation (Level.all.drop 1)) ts
  | .equality, ts => Read (.operation (Level.all.drop 2)) ts
  | .comparison, ts => Read (.operation (Level.all.drop 3)) ts
  | .term, ts => Read (.operation (Level.all.drop 4)) ts
  | .factor, ts => Read (.operation (Level.all.drop 5)) ts
  | .unary, ts => Read .unary ts
  | .call, ts => ReadCall ts
  | .arguments, ts => ∀ i, ∃ es j, Reads (.arguments es) i ts j ∧ es.length ≤ maxArguments
  | .primary, ts => Read .primary ts

section
variable {ts us vs : List Token} {i j k : NodeId}

/-- A property may stand behind whatever calls. -/
theorem Reads.calls_snoc {callee e : Expr} {dot name : Token} (h : Reads (.calls callee e) i ts j)
    (hdot : dot.terminal = .punct .dot) (hname : name.terminal = .identifier) :
    Reads (.calls callee (.get e name)) i (ts ++ [dot, name]) j := by
  generalize hphrase : Phrase.calls callee e = phrase at h
  induction h generalizing callee with cases hphrase
  | callsNil => exact .get hdot hname .callsNil
  | call hlp hargs hrp _ _ ih =>
    have h := Reads.call hlp hargs hrp (ih rfl)
    simpa using h
  | get hdot' hname' _ ih => exact .get hdot' hname' (ih rfl)

/-- An `else` behind an open statement becomes part of it. -/
theorem Reads.statement_else {s : Stmt} {other : Token} (h : Reads (.statement true s) i ts j)
    (hother : other.terminal = .keyword .elseWord) (hrest : ReadStatement us) :
    ∃ isOpen s' k, Reads (.statement isOpen s') i (ts ++ other :: us) k := by
  generalize hphrase : Phrase.statement true s = phrase at h
  induction h generalizing s with cases hphrase
  | @branch word lp e rp s o i ts j vs k hword hlp he hrp hbody _ ih =>
    cases o with
    | true =>
      obtain ⟨isOpen, s', l, hbody'⟩ := ih rfl
      exact ⟨true, _, l, by simpa using Reads.branch hword hlp he hrp hbody'⟩
    | false =>
      obtain ⟨isOpen, s', l, hrest⟩ := hrest k
      exact ⟨isOpen, _, l, Reads.branchElse hword hlp he hrp hbody hother hrest⟩
  | branchElse hword hlp he hrp hbody hother' _ _ _ ih =>
    obtain ⟨isOpen, s', l, hrest'⟩ := ih rfl
    exact ⟨isOpen, _, l, by simpa using Reads.branchElse hword hlp he hrp hbody hother' hrest'⟩
  | loop hword hlp he hrp _ _ ih =>
    obtain ⟨isOpen, s', l, hbody⟩ := ih rfl
    exact ⟨isOpen, _, l, by simpa using Reads.loop hword hlp he hrp hbody⟩
  | counting hword hlp hfirst hcondition hsemi hstep hrp _ _ _ _ ih =>
    obtain ⟨isOpen, s', l, hbody⟩ := ih rfl
    exact ⟨isOpen, _, l,
      by simpa using Reads.counting hword hlp hfirst hcondition hsemi hstep hrp hbody⟩

/-- The operators of a level with their operands, one behind the other. -/
theorem Read.operations {level : Level} {tighter : List Level} {parts : List (List Token)}
    (hparts : ∀ ts ∈ parts, ∃ op us, ts = op :: us ∧ op.terminal ∈ level.operators ∧
      Read (.operation tighter) us) (left : Expr) :
    Read (.operations level tighter left) parts.flatten := by
  induction parts generalizing left with
  | nil => exact fun i => ⟨left, i, .operationsNil⟩
  | cons part parts ih =>
    intro i
    obtain ⟨⟨op, us, rfl, hop, hright⟩, hothers⟩ := List.forall_mem_cons.mp hparts
    obtain ⟨right, j, hright⟩ := hright i
    obtain ⟨e, k, hrest⟩ := ih hothers (level.node left op right) j
    exact ⟨e, k, .operationsCons hop hright hrest⟩

/-- A level in the grammar is a level of operators. -/
theorem Read.level {level : Level} {tighter : List Level} (operator : Form) {operand : Symbol}
    (hoperator : ∀ us, operator.Matches Symbol.IsRead us →
      ∃ op, us = [op] ∧ op.terminal ∈ level.operators)
    (hoperand : ∀ us, operand.IsRead us → Read (.operation tighter) us)
    (h : (operand ++ Form.many (operator ++ (operand : Form))).Matches Symbol.IsRead ts) :
    Read (.operation (level :: tighter)) ts := by
  obtain ⟨us, _, hleft, ⟨parts, hparts, rfl⟩, rfl⟩ := h
  intro i
  obtain ⟨left, j, hleft⟩ := hoperand us hleft i
  obtain ⟨e, k, hrest⟩ := Read.operations
    (fun ts hts => by
      obtain ⟨_, vs, hmatches, hright, rfl⟩ := hparts ts hts
      obtain ⟨op, rfl, hop⟩ := hoperator _ hmatches
      exact ⟨op, vs, rfl, hop, hoperand vs hright⟩) left j
  exact ⟨e, k, .level hleft hrest⟩

theorem Reads.parameters_flatten {p : Token} (hp : p.terminal = .identifier)
    {parts : List (List Token)}
    (hparts : ∀ ts ∈ parts, (mark .comma ++ ident).Matches Symbol.IsRead ts) (i : NodeId) :
    ∃ ps, Reads (.parameters ps) i (p :: parts.flatten) i ∧ ps.length = parts.length + 1 := by
  induction parts generalizing p with
  | nil => exact ⟨[p], .parametersOne hp, rfl⟩
  | cons part parts ih =>
    obtain ⟨⟨_, _, ⟨comma, hcomma, rfl⟩, ⟨q, hq, rfl⟩, rfl⟩, hothers⟩ :=
      List.forall_mem_cons.mp hparts
    obtain ⟨ps, hread, hlength⟩ := ih hq hothers
    exact ⟨p :: ps, .parametersCons hp hcomma hread, by simp [hlength]⟩

theorem Reads.arguments_flatten (h : Read .expression ts) {parts : List (List Token)}
    (hparts : ∀ ts ∈ parts,
      (mark .comma ++ (Symbol.expression : Form)).Matches Symbol.IsRead ts) (i : NodeId) :
    ∃ es j, Reads (.arguments es) i (ts ++ parts.flatten) j ∧ es.length = parts.length + 1 := by
  induction parts generalizing ts i with
  | nil =>
    obtain ⟨e, j, he⟩ := h i
    exact ⟨[e], j, by simpa using Reads.argumentsOne he, rfl⟩
  | cons part parts ih =>
    obtain ⟨⟨_, us, ⟨comma, hcomma, rfl⟩, hus, rfl⟩, hothers⟩ := List.forall_mem_cons.mp hparts
    obtain ⟨e, j, he⟩ := h i
    obtain ⟨es, k, hread, hlength⟩ := ih hus hothers j
    exact ⟨e :: es, k, by simpa using Reads.argumentsCons he hcomma hread, by simp [hlength]⟩

/-- Calls and properties, one behind the other. -/
theorem Read.calls {parts : List (List Token)}
    (hparts : ∀ ts ∈ parts, (mark .leftParen ++ Form.opt Symbol.arguments ++ mark .rightParen |||
      mark .dot ++ ident).Matches Symbol.IsRead ts) (callee : Expr) :
    Read (.calls callee) parts.flatten := by
  induction parts generalizing callee with
  | nil => exact fun i => ⟨callee, i, .callsNil⟩
  | cons part parts ih =>
    intro i
    obtain ⟨hfirst, hothers⟩ := List.forall_mem_cons.mp hparts
    obtain ⟨_, _, ⟨_, ts, ⟨lp, hlp, rfl⟩, hargs, rfl⟩, ⟨rp, hrp, rfl⟩, rfl⟩ |
      ⟨_, _, ⟨dot, hdot, rfl⟩, ⟨name, hname, rfl⟩, rfl⟩ := hfirst
    · obtain ⟨es, j, hargs⟩ : ∃ es j, Reads (.argumentList es) i ts j := by
        obtain rfl | hargs := hargs
        · exact ⟨[], i, .noArguments⟩
        · obtain ⟨es, j, hread, hlength⟩ := hargs i
          exact ⟨es, j, .someArguments hread hlength⟩
      obtain ⟨e, k, hrest⟩ := ih hothers (.call callee rp es) j
      exact ⟨e, k, by simpa using Reads.call hlp hargs hrp hrest⟩
    · obtain ⟨e, j, hrest⟩ := ih hothers (.get callee name) i
      exact ⟨e, j, .get hdot hname hrest⟩

/-- A list is read part by part. -/
theorem Read.flatten {α : Type} {one : α → Phrase} {many : List α → Phrase}
    {parts : List (List Token)} (hnil : ∀ i, Reads (many []) i [] i)
    (hcons : ∀ {a as i ts j us k}, Reads (one a) i ts j → Reads (many as) j us k →
      Reads (many (a :: as)) i (ts ++ us) k)
    (hparts : ∀ ts ∈ parts, Read one ts) : Read many parts.flatten := by
  induction parts with
  | nil => exact fun i => ⟨[], i, hnil i⟩
  | cons part parts ih =>
    intro i
    obtain ⟨hfirst, hothers⟩ := List.forall_mem_cons.mp hparts
    obtain ⟨a, j, ha⟩ := hfirst i
    obtain ⟨as, k, has⟩ := ih hothers j
    exact ⟨a :: as, k, hcons ha has⟩

theorem Read.declarations {parts : List (List Token)} (h : ∀ ts ∈ parts, Read .declaration ts) :
    Read .declarations parts.flatten :=
  Read.flatten (fun _ => .declarationsNil) .declarationsCons h

theorem Read.functions {parts : List (List Token)} (h : ∀ ts ∈ parts, Read .function ts) :
    Read .functions parts.flatten :=
  Read.flatten (fun _ => .functionsNil) .functionsCons h

theorem Read.clause (h : ts = [] ∨ Read .expression ts) : Read .clause ts := by
  intro i
  obtain rfl | h := h
  · exact ⟨none, i, .noClause⟩
  · obtain ⟨e, j, he⟩ := h i
    exact ⟨some e, j, .someClause he⟩

end

/-- What a right-hand side makes of parts that are read is read. -/
theorem Ebnf.Symbol.isRead_of_matches (s : Symbol) (ts : List Token)
    (h : s.form.Matches Symbol.IsRead ts) : s.IsRead ts := by
  cases s with
  | program =>
    obtain ⟨_, _, ⟨parts, hparts, rfl⟩, ⟨eof, heof, rfl⟩, rfl⟩ := h
    exact ⟨_, eof, rfl, heof, Read.declarations hparts⟩
  | declaration =>
    obtain ((h | h) | h) | h := h
    · exact h
    · exact h
    · intro i
      obtain ⟨s, j, hs⟩ := h i
      exact ⟨s, j, .varDecl hs⟩
    · intro i
      obtain ⟨o, s, j, hs⟩ := h i
      exact ⟨s, j, .statement hs⟩
  | classDecl =>
    obtain ⟨_, _, ⟨_, _, ⟨_, _, ⟨_, heritage, ⟨_, _, ⟨word, hword, rfl⟩, ⟨name, hname, rfl⟩, rfl⟩,
      hheritage, rfl⟩, ⟨lb, hlb, rfl⟩, rfl⟩, ⟨parts, hparts, rfl⟩, rfl⟩, ⟨rb, hrb, rfl⟩, rfl⟩ := h
    intro i
    obtain ⟨parent, j, hparent⟩ : ∃ parent j, Reads (.heritage parent) i heritage j := by
      obtain rfl | ⟨_, _, ⟨less, hless, rfl⟩, ⟨parent, hparent, rfl⟩, rfl⟩ := hheritage
      · exact ⟨none, i, .noHeritage⟩
      · exact ⟨some ⟨i, parent⟩, i + 1, .someHeritage hless hparent⟩
    obtain ⟨methods, k, hmethods⟩ := Read.functions hparts j
    exact ⟨_, k, by simpa using Reads.classDecl hword hname hparent hlb hmethods hrb⟩
  | funcDecl =>
    obtain ⟨_, us, ⟨word, hword, rfl⟩, h, rfl⟩ := h
    intro i
    obtain ⟨decl, j, hdecl⟩ := h i
    exact ⟨_, j, .funcDecl hword hdecl⟩
  | function =>
    obtain ⟨_, _, ⟨_, _, ⟨_, us, ⟨_, _, ⟨name, hname, rfl⟩, ⟨lp, hlp, rfl⟩, rfl⟩, hparams, rfl⟩,
      ⟨rp, hrp, rfl⟩, rfl⟩, ⟨lb, vs, rb, rfl, hlb, hrb, hbody⟩, rfl⟩ := h
    intro i
    obtain ⟨params, hparams⟩ : ∃ params, Reads (.parameterList params) i us i := by
      obtain rfl | hparams := hparams
      · exact ⟨[], .noParameters⟩
      · obtain ⟨ps, hread, hlength⟩ := hparams i
        exact ⟨ps, .someParameters hread hlength⟩
    obtain ⟨body, j, hbody⟩ := hbody i
    exact ⟨_, j, by simpa using Reads.function hname hlp hparams hrp hlb hbody hrb⟩
  | varDecl =>
    obtain ⟨_, _, ⟨_, us, ⟨_, _, ⟨word, hword, rfl⟩, ⟨name, hname, rfl⟩, rfl⟩, hinitial, rfl⟩,
      ⟨semi, hsemi, rfl⟩, rfl⟩ := h
    intro i
    obtain ⟨initial, j, hinitial⟩ : ∃ initial j, Reads (.initial initial) i us j := by
      obtain rfl | ⟨_, vs, ⟨eq, heq, rfl⟩, he, rfl⟩ := hinitial
      · exact ⟨none, i, .noInitial⟩
      · obtain ⟨e, j, he⟩ := he i
        exact ⟨some e, j, .someInitial heq he⟩
    exact ⟨_, j, .binding hword hname hinitial hsemi⟩
  | statement =>
    obtain (((((h | h) | h) | h) | h) | h) | ⟨lb, us, rb, rfl, hlb, hrb, hbody⟩ := h
    · intro i
      obtain ⟨s, j, hs⟩ := h i
      exact ⟨false, s, j, .expression hs⟩
    · exact h
    · exact h
    · exact h
    · exact h
    · exact h
    · intro i
      obtain ⟨ss, j, hbody⟩ := hbody i
      exact ⟨false, _, j, .block hlb hbody hrb⟩
  | exprStmt =>
    obtain ⟨us, _, he, ⟨semi, hsemi, rfl⟩, rfl⟩ := h
    intro i
    obtain ⟨e, j, he⟩ := he i
    exact ⟨_, j, .expressionStatement he hsemi⟩
  | forStmt =>
    obtain ⟨_, ws, ⟨_, _, ⟨_, vs, ⟨_, _, ⟨_, us, ⟨_, ts, ⟨_, _, ⟨word, hword, rfl⟩, ⟨lp, hlp, rfl⟩,
      rfl⟩, hfirst, rfl⟩, hcondition, rfl⟩, ⟨semi, hsemi, rfl⟩, rfl⟩, hstep, rfl⟩, ⟨rp, hrp, rfl⟩,
      rfl⟩, hbody, rfl⟩ := h
    intro i
    obtain ⟨first, j, hfirst⟩ : ∃ first j, Reads (.firstClause first) i ts j := by
      obtain (h | h) | ⟨semi, hsemi, rfl⟩ := hfirst
      · obtain ⟨s, j, hs⟩ := h i
        exact ⟨some s, j, .firstVariable hs⟩
      · obtain ⟨s, j, hs⟩ := h i
        exact ⟨some s, j, .firstExpression hs⟩
      · exact ⟨none, i, .firstNone hsemi⟩
    obtain ⟨condition, k, hcondition⟩ := Read.clause hcondition j
    obtain ⟨step, l, hstep⟩ := Read.clause hstep k
    obtain ⟨o, s, m, hbody⟩ := hbody l
    have hfor := Reads.counting hword hlp hfirst hcondition hsemi hstep hrp hbody
    exact ⟨o, _, m, by simpa using hfor⟩
  | ifStmt =>
    obtain ⟨_, ws, ⟨_, us, ⟨_, _, ⟨_, ts, ⟨_, _, ⟨word, hword, rfl⟩, ⟨lp, hlp, rfl⟩, rfl⟩, he, rfl⟩,
      ⟨rp, hrp, rfl⟩, rfl⟩, hbody, rfl⟩, hrest, rfl⟩ := h
    intro i
    obtain ⟨e, j, he⟩ := he i
    obtain ⟨o, s, k, hbody⟩ := hbody j
    obtain rfl | ⟨_, vs, ⟨other, hother, rfl⟩, hrest, rfl⟩ := hrest
    · exact ⟨true, _, k, by simpa using Reads.branch hword hlp he hrp hbody⟩
    · cases o with
      | false =>
        obtain ⟨o, s', l, hrest⟩ := hrest k
        have hif := Reads.branchElse hword hlp he hrp hbody hother hrest
        exact ⟨o, _, l, by simpa using hif⟩
      | true =>
        obtain ⟨o, s', l, hbody'⟩ := hbody.statement_else hother hrest
        exact ⟨true, _, l, by simpa using Reads.branch hword hlp he hrp hbody'⟩
  | printStmt =>
    obtain ⟨_, _, ⟨_, us, ⟨word, hword, rfl⟩, he, rfl⟩, ⟨semi, hsemi, rfl⟩, rfl⟩ := h
    intro i
    obtain ⟨e, j, he⟩ := he i
    exact ⟨false, _, j, .print hword he hsemi⟩
  | returnStmt =>
    obtain ⟨_, _, ⟨_, us, ⟨word, hword, rfl⟩, he, rfl⟩, ⟨semi, hsemi, rfl⟩, rfl⟩ := h
    intro i
    obtain ⟨e, j, he⟩ := Read.clause he i
    exact ⟨false, _, j, .giveBack hword he hsemi⟩
  | whileStmt =>
    obtain ⟨_, us, ⟨_, _, ⟨_, ts, ⟨_, _, ⟨word, hword, rfl⟩, ⟨lp, hlp, rfl⟩, rfl⟩, he, rfl⟩,
      ⟨rp, hrp, rfl⟩, rfl⟩, hbody, rfl⟩ := h
    intro i
    obtain ⟨e, j, he⟩ := he i
    obtain ⟨o, s, k, hbody⟩ := hbody j
    exact ⟨o, _, k, by simpa using Reads.loop hword hlp he hrp hbody⟩
  | block =>
    obtain ⟨_, _, ⟨_, _, ⟨lb, hlb, rfl⟩, ⟨parts, hparts, rfl⟩, rfl⟩, ⟨rb, hrb, rfl⟩, rfl⟩ := h
    exact ⟨lb, _, rb, rfl, hlb, hrb, Read.declarations hparts⟩
  | parameters =>
    obtain ⟨_, _, ⟨p, hp, rfl⟩, ⟨parts, hparts, hlength, rfl⟩, rfl⟩ := h
    intro i
    obtain ⟨ps, hread, hps⟩ := Reads.parameters_flatten hp hparts i
    exact ⟨ps, hread, by rw [hps]; exact Nat.succ_le_succ hlength⟩
  | expression => exact h
  | assignment =>
    obtain ⟨_, us, ⟨_, _, ⟨_, _, htarget, ⟨name, hname, rfl⟩, rfl⟩, ⟨eq, heq, rfl⟩, rfl⟩, hv, rfl⟩ |
      h := h
    · intro i
      obtain rfl | ⟨_, _, hcall, ⟨dot, hdot, rfl⟩, rfl⟩ := htarget
      · obtain ⟨v, k, hv⟩ := hv (i + 1)
        have htarget := Reads.operation (.operand (.name (i := i) hname) .callsNil) Level.all
        exact ⟨_, k + 1, by simpa using Reads.assign htarget heq hv⟩
      · obtain ⟨callee, object, ts, vs, k, j, rfl, hprimary, hcalls⟩ := hcall i
        obtain ⟨v, l, hv⟩ := hv j
        have htarget :=
          Reads.operation (.operand hprimary (hcalls.calls_snoc hdot hname)) Level.all
        exact ⟨_, l, by simpa using Reads.set htarget heq hv⟩
    · intro i
      obtain ⟨e, j, he⟩ := h i
      exact ⟨e, j, .value he⟩
  | logicOr =>
    refine Read.level (word .orWord) ?_ (fun _ => id) h
    rintro _ ⟨op, hop, rfl⟩
    exact ⟨op, rfl, by simp [hop]⟩
  | logicAnd =>
    refine Read.level (word .andWord) ?_ (fun _ => id) h
    rintro _ ⟨op, hop, rfl⟩
    exact ⟨op, rfl, by simp [hop]⟩
  | equality =>
    refine Read.level (mark .bangEqual ||| mark .equalEqual) ?_ (fun _ => id) h
    rintro _ (⟨op, hop, rfl⟩ | ⟨op, hop, rfl⟩) <;> exact ⟨op, rfl, by simp [hop]⟩
  | comparison =>
    refine Read.level
      (mark .greater ||| mark .greaterEqual ||| mark .less ||| mark .lessEqual) ?_
      (fun _ => id) h
    rintro _ (((⟨op, hop, rfl⟩ | ⟨op, hop, rfl⟩) | ⟨op, hop, rfl⟩) | ⟨op, hop, rfl⟩) <;>
      exact ⟨op, rfl, by simp [hop]⟩
  | term =>
    refine Read.level (mark .minus ||| mark .plus) ?_ (fun _ => id) h
    rintro _ (⟨op, hop, rfl⟩ | ⟨op, hop, rfl⟩) <;> exact ⟨op, rfl, by simp [hop]⟩
  | factor =>
    refine Read.level (mark .slash ||| mark .star) ?_ ?_ h
    · rintro _ (⟨op, hop, rfl⟩ | ⟨op, hop, rfl⟩) <;> exact ⟨op, rfl, by simp [hop]⟩
    · intro us hus i
      obtain ⟨e, j, he⟩ := hus i
      exact ⟨e, j, .tightest he⟩
  | unary =>
    intro i
    obtain ⟨_, us, hop, h, rfl⟩ | h := h
    · obtain ⟨e, j, he⟩ := h i
      obtain ⟨op, hop, rfl⟩ | ⟨op, hop, rfl⟩ := hop <;>
        exact ⟨_, j, .sign (by simp [hop]) he⟩
    · obtain ⟨callee, e, us, vs, k, j, rfl, hprimary, hcalls⟩ := h i
      exact ⟨e, j, .operand hprimary hcalls⟩
  | call =>
    obtain ⟨us, _, hprimary, ⟨parts, hparts, rfl⟩, rfl⟩ := h
    intro i
    obtain ⟨callee, k, hcallee⟩ := hprimary i
    obtain ⟨e, j, hcalls⟩ := Read.calls hparts callee k
    exact ⟨callee, e, us, _, k, j, rfl, hcallee, hcalls⟩
  | arguments =>
    obtain ⟨us, _, he, ⟨parts, hparts, hlength, rfl⟩, rfl⟩ := h
    intro i
    obtain ⟨es, j, hread, hes⟩ := Reads.arguments_flatten he hparts i
    exact ⟨es, j, hread, by rw [hes]; exact Nat.succ_le_succ hlength⟩
  | primary =>
    intro i
    obtain (((h | ⟨t, ht, rfl⟩) | ⟨t, ht, rfl⟩) | ⟨_, _, ⟨_, us, ⟨lp, hlp, rfl⟩, he, rfl⟩,
      ⟨rp, hrp, rfl⟩, rfl⟩) | ⟨_, _, ⟨_, _, ⟨t, ht, rfl⟩, ⟨dot, hdot, rfl⟩, rfl⟩,
      ⟨method, hmethod, rfl⟩, rfl⟩ := h
    · obtain ⟨t, ht, rfl⟩ : ∃ t : Token, t.terminal ∈ literalTerminals ∧ ts = [t] := by
        obtain (((⟨t, ht, rfl⟩ | ⟨t, ht, rfl⟩) | ⟨t, ht, rfl⟩) | ⟨t, ht, rfl⟩) | ⟨t, ht, rfl⟩ := h
          <;> exact ⟨t, by rw [ht]; decide, rfl⟩
      obtain ⟨v, hv⟩ := Token.literal?_of_terminal ht
      exact ⟨_, i, .literal hv⟩
    · exact ⟨_, _, .this ht⟩
    · exact ⟨_, _, .name ht⟩
    · obtain ⟨e, j, he⟩ := he i
      exact ⟨_, j, .grouping hlp he hrp⟩
    · exact ⟨_, _, .parent ht hdot hmethod⟩

/-- Everything that is derived is read. -/
theorem Ebnf.Derives.isRead {s : Symbol} {ts : List Token} (h : Derives (.symbol s) ts) :
    s.IsRead ts :=
  h.matches Symbol.isRead_of_matches

/-- The parser takes a token sequence without a fault if and only if the grammar derives it, the
end mark behind it included. -/
theorem parse_faultless_iff_derives (tokens : List Token) (lexeme : String) (line : Nat)
    (i : NodeId) :
    (parse tokens ⟨.eof, lexeme, line⟩ i).faults = [] ↔
      Derives (.symbol .program) (tokens ++ [⟨.eof, lexeme, line⟩]) := by
  constructor
  · intro h
    exact .symbol (.seq (reads_of_parse h).derived (.terminal rfl))
  · intro h
    obtain ⟨us, eof, heq, -, hread⟩ := h.isRead
    obtain ⟨rfl, -⟩ := List.append_inj' heq rfl
    obtain ⟨program, j, hread⟩ := hread i
    rw [parse_of_reads hread]

end Treewalk
