import Treewalk.Proofs.Grammar.Ebnf
import Treewalk.Proofs.Grammar.Reading

/-! What is read is derived. Every reading of a stretch gives a derivation of it; the target of an
assignment, which is read as an expression of any strength, turns out to be a name or the property
of a call. -/

namespace Treewalk

open Ebnf

namespace Ebnf

theorem Derives.of_eq {f : Form} {ts us : List Token} (h : Derives f ts) (heq : ts = us) :
    Derives f us := heq ▸ h

/-- The symbol that stands for `k` levels of operators. -/
def levelSymbol : Nat → Symbol
  | 0 => .unary
  | 1 => .factor
  | 2 => .term
  | 3 => .comparison
  | 4 => .equality
  | 5 => .logicAnd
  | _ => .logicOr

/-- The operators of the level with `k` tighter ones. -/
def levelOperator : Nat → Form
  | 0 => mark .slash ||| mark .star
  | 1 => mark .minus ||| mark .plus
  | 2 => mark .greater ||| mark .greaterEqual ||| mark .less ||| mark .lessEqual
  | 3 => mark .bangEqual ||| mark .equalEqual
  | 4 => word .andWord
  | _ => word .orWord

/-- All levels have the same shape. -/
theorem form_levelSymbol {k : Nat} (hk : k < Level.all.length) :
    (levelSymbol (k + 1)).form =
      levelSymbol k ++ Form.many (levelOperator k ++ (levelSymbol k : Form)) := by
  match k, hk with
  | 0, _ | 1, _ | 2, _ | 3, _ | 4, _ | 5, _ => rfl

theorem derives_levelOperator {level : Level} {tighter : List Level}
    (hs : level :: tighter <:+ Level.all) {op : Token} (hop : op.terminal ∈ level.operators) :
    Derives (levelOperator tighter.length) [op] := by
  simp only [Level.all, List.suffix_cons_iff, List.cons.injEq, List.suffix_nil, reduceCtorEq,
    or_false] at hs
  rcases hs with ⟨rfl, rfl⟩ | ⟨rfl, rfl⟩ | ⟨rfl, rfl⟩ | ⟨rfl, rfl⟩ | ⟨rfl, rfl⟩ | ⟨rfl, rfl⟩ <;>
    simp only [List.mem_cons, List.not_mem_nil, or_false] at hop
  · exact .terminal hop
  · exact .terminal hop
  · exact hop.elim (fun h => .left (.terminal h)) (fun h => .right (.terminal h))
  · obtain h | h | h | h := hop
    · exact .left (.left (.left (.terminal h)))
    · exact .left (.left (.right (.terminal h)))
    · exact .left (.right (.terminal h))
    · exact .right (.terminal h)
  · exact hop.elim (fun h => .left (.terminal h)) (fun h => .right (.terminal h))
  · exact hop.elim (fun h => .right (.terminal h)) (fun h => .left (.terminal h))

end Ebnf

/-- An expression that an equals sign may follow. -/
def Expr.IsTarget : Expr → Prop
  | .variable _ | .get _ _ => True
  | _ => False

/-- Operators build no target. -/
theorem Level.not_isTarget_node {level : Level} {tighter : List Level}
    (hs : level :: tighter <:+ Level.all) (left right : Expr) (op : Token) :
    ¬(level.node left op right).IsTarget := by
  simp only [Level.all, List.suffix_cons_iff, List.cons.injEq, List.suffix_nil, reduceCtorEq,
    or_false] at hs
  rcases hs with ⟨rfl, -⟩ | ⟨rfl, -⟩ | ⟨rfl, -⟩ | ⟨rfl, -⟩ | ⟨rfl, -⟩ | ⟨rfl, -⟩ <;> exact id

namespace Reads

variable {level : Level} {tighter levels : List Level} {left callee e : Expr} {i j : NodeId}
  {ts : List Token}

theorem not_isTarget_of_operations (h : Reads (.operations level tighter left e) i ts j)
    (hs : level :: tighter <:+ Level.all) (hleft : ¬left.IsTarget) : ¬e.IsTarget := by
  generalize hphrase : Phrase.operations level tighter left e = phrase at h
  induction h generalizing left with cases hphrase
  | operationsNil => exact hleft
  | operationsCons _ _ _ _ ih => exact ih (Level.not_isTarget_node hs _ _ _) rfl

/-- A target is read without operators. -/
theorem unary_of_isTarget (h : Reads (.operation levels e) i ts j) (hs : levels <:+ Level.all)
    (he : e.IsTarget) : Reads (.unary e) i ts j := by
  induction levels generalizing e i ts j with
  | nil => cases h; assumption
  | cons level tighter ih =>
    cases h with
    | level hleft hrest =>
      cases hrest with
      | operationsNil =>
        rw [List.append_nil]
        exact ih hleft ((List.suffix_cons _ _).trans hs) he
      | operationsCons _ _ hrest =>
        exact absurd he (hrest.not_isTarget_of_operations hs (Level.not_isTarget_node hs _ _ _))

theorem calls_variable {ref : Reference} (h : Reads (.calls callee (.variable ref)) i ts j) :
    ts = [] ∧ callee = .variable ref ∧ i = j := by
  generalize hphrase : Phrase.calls callee (.variable ref) = phrase at h
  induction h generalizing callee with cases hphrase
  | callsNil => exact ⟨rfl, rfl, rfl⟩
  | call _ _ _ _ _ ih => cases (ih rfl).2.1
  | get _ _ _ ih => cases (ih rfl).2.1

/-- A variable that is assigned to stands alone. -/
theorem operation_variable {ref : Reference} (h : Reads (.operation levels (.variable ref)) i ts j)
    (hs : levels <:+ Level.all) :
    ∃ t, ts = [t] ∧ t.terminal = .identifier ∧ ref = ⟨i, t⟩ ∧ j = i + 1 := by
  cases h.unary_of_isTarget hs trivial with
  | operand hcallee hcalls =>
    obtain ⟨rfl, rfl, rfl⟩ := hcalls.calls_variable
    cases hcallee with
    | name ht => exact ⟨_, rfl, ht, rfl, rfl⟩

end Reads

/-- One call or property behind a callee. -/
def Ebnf.callForm : Form :=
  mark .leftParen ++ Form.opt Symbol.arguments ++ mark .rightParen ||| mark .dot ++ ident

/-- If the expression is a property, `ts` is a callee's tokens, a dot and the property's name; the
callee's tokens satisfy `P`. -/
def Expr.EndsInName (P : List Token → Prop) (ts : List Token) : Expr → Prop
  | .get _ name => ∃ us dot, ts = us ++ [dot, name] ∧ P us ∧ dot.terminal = .punct .dot ∧
    name.terminal = .identifier
  | _ => True

/-- What a stretch that is read as a phrase is derived from. -/
def Phrase.Derived : Phrase → List Token → Prop
  | .expression _, ts => Derives (.symbol .assignment) ts
  | .operation levels e, ts =>
    levels <:+ Level.all → Derives (.symbol (levelSymbol levels.length)) ts ∧
      e.EndsInName (Derives (.symbol .call)) ts
  | .operations level tighter left e, ts =>
    level :: tighter <:+ Level.all →
      Derives (.many (levelOperator tighter.length ++ (levelSymbol tighter.length : Form))) ts ∧
        (e.IsTarget → ts = [] ∧ left = e)
  | .unary e, ts => Derives (.symbol .unary) ts ∧ e.EndsInName (Derives (.symbol .call)) ts
  | .calls callee e, ts => Derives (.many callForm) ts ∧
    (callee = e ∧ ts = [] ∨ e.EndsInName (Derives (.many callForm)) ts)
  | .argumentList _, ts => Derives (.opt Symbol.arguments) ts
  | .arguments es, ts => ∀ n, es.length ≤ n + 1 → ∃ us vs, ts = us ++ vs ∧
    Derives (.symbol .assignment) us ∧
      Derives (.atMost n (mark .comma ++ (Symbol.expression : Form))) vs
  | .primary e, ts => Derives (.symbol .primary) ts ∧ e.EndsInName (Derives (.symbol .call)) ts
  | .clause _, ts => Derives (.opt Symbol.expression) ts
  | .initial _, ts => Derives (.opt (mark .equal ++ (Symbol.expression : Form))) ts
  | .binding _, ts => Derives (.symbol .varDecl) ts
  | .expressionStatement _, ts => Derives (.symbol .exprStmt) ts
  | .firstClause _, ts =>
    Derives ((Symbol.varDecl : Form) ||| (Symbol.exprStmt : Form) ||| mark .semicolon) ts
  | .statement _ _, ts => Derives (.symbol .statement) ts
  | .declaration _, ts => Derives (.symbol .declaration) ts
  | .declarations _, ts => Derives (.many Symbol.declaration) ts
  | .parameterList _, ts => Derives (.opt Symbol.parameters) ts
  | .parameters ps, ts => ∀ n, ps.length ≤ n + 1 → ∃ p us, ts = p :: us ∧
    p.terminal = .identifier ∧ Derives (.atMost n (mark .comma ++ ident)) us
  | .function _, ts => Derives (.symbol .function) ts
  | .functions _, ts => Derives (.many Symbol.function) ts
  | .heritage _, ts => Derives (.opt (mark .less ++ ident)) ts

theorem Ebnf.Derives.literal {t : Token} {v : Literal} (h : t.literal? = some v) :
    Derives (.symbol .primary) [t] := by
  refine .symbol (.left (.left (.left (.left ?_))))
  have ht := Token.terminal_of_literal? h
  simp only [literalTerminals, List.mem_cons, List.not_mem_nil, or_false] at ht
  obtain h | h | h | h | h := ht
  · exact .left (.left (.left (.left (.terminal h))))
  · exact .left (.left (.left (.right (.terminal h))))
  · exact .left (.left (.right (.terminal h)))
  · exact .left (.right (.terminal h))
  · exact .right (.terminal h)

/-- What is read as a phrase is derived from the symbols for it. -/
theorem Reads.derived {phrase : Phrase} {i j : NodeId} {ts : List Token} (h : Reads phrase i ts j) :
    phrase.Derived ts := by
  induction h with
  | value _ ih => exact .symbol (.right (ih (List.suffix_refl _)).1)
  | @assign ref eq v i ts j us k hread heq _ ih ihv =>
    obtain ⟨t, rfl, ht, -⟩ := hread.operation_variable (List.suffix_refl _)
    have hassign : Derives Symbol.assignment.form ([] ++ [t] ++ [eq] ++ us) :=
      .left (.seq (.seq (.seq .absent (.terminal ht)) (.terminal heq)) ihv)
    exact .symbol hassign
  | @set object name eq v i ts j us k _ heq _ ih ihv =>
    obtain ⟨-, vs, dot, rfl, hcall, hdot, hname⟩ := ih (List.suffix_refl _)
    have hassign : Derives Symbol.assignment.form ((vs ++ [dot]) ++ [name] ++ [eq] ++ us) :=
      .left (.seq (.seq (.seq (.present (.seq hcall (.terminal hdot))) (.terminal hname))
        (.terminal heq)) ihv)
    exact (Derives.symbol hassign).of_eq (by simp)
  | tightest _ ih => exact fun _ => ih
  | @level level tighter left e i ts j us k _ _ ih ihRest =>
    intro hs
    obtain ⟨hleft, hname⟩ := ih ((List.suffix_cons _ _).trans hs)
    obtain ⟨hmore, htarget⟩ := ihRest hs
    refine ⟨.symbol ?_, ?_⟩
    · rw [List.length_cons, form_levelSymbol (Nat.lt_of_lt_of_le (Nat.lt_succ_self _) hs.length_le)]
      exact .seq hleft hmore
    · cases e with
      | get =>
        obtain ⟨rfl, rfl⟩ := htarget trivial
        rwa [List.append_nil]
      | _ => trivial
  | operationsNil => exact fun _ => ⟨.manyNil, fun _ => ⟨rfl, rfl⟩⟩
  | @operationsCons level tighter left op right e i ts j us k hop _ hrest ih ihRest =>
    intro hs
    obtain ⟨hright, -⟩ := ih ((List.suffix_cons _ _).trans hs)
    refine ⟨.manyCons (.seq (derives_levelOperator hs hop) hright) (ihRest hs).1, fun he => ?_⟩
    exact absurd he (hrest.not_isTarget_of_operations hs (Level.not_isTarget_node hs _ _ _))
  | @sign op e i ts j hop _ ih =>
    simp only [List.mem_cons, List.not_mem_nil, or_false] at hop
    have hop : Derives (mark .bang ||| mark .minus) [op] :=
      hop.elim (fun h => .left (.terminal h)) (fun h => .right (.terminal h))
    have hsign : Derives Symbol.unary.form ([op] ++ ts) := .left (.seq hop ih.1)
    exact ⟨.symbol hsign, trivial⟩
  | @operand callee e i ts j us k _ _ ih ihCalls =>
    obtain ⟨hprimary, hcallee⟩ := ih
    obtain ⟨hcalls, hname⟩ := ihCalls
    refine ⟨.symbol (.right (.symbol (.seq hprimary hcalls))), ?_⟩
    obtain ⟨rfl, rfl⟩ | hname := hname
    · rwa [List.append_nil]
    · cases e with
      | get =>
        obtain ⟨vs, dot, rfl, hvs, hdot, hname⟩ := hname
        exact ⟨ts ++ vs, dot, by simp, .symbol (.seq hprimary hvs), hdot, hname⟩
      | _ => trivial
  | callsNil => exact ⟨.manyNil, .inl ⟨rfl, rfl⟩⟩
  | @call callee lp es rp e i ts j us k hlp _ hrp _ ih ihCalls =>
    obtain ⟨hcalls, hname⟩ := ihCalls
    have hcall : Derives callForm ([lp] ++ ts ++ [rp]) :=
      .left (.seq (.seq (.terminal hlp) ih) (.terminal hrp))
    refine ⟨(Derives.manyCons hcall hcalls).of_eq (by simp), ?_⟩
    obtain ⟨rfl, rfl⟩ | hname := hname
    · exact .inr trivial
    · cases e with
      | get =>
        obtain ⟨vs, dot, rfl, hvs, hdot, hname⟩ := hname
        exact .inr ⟨[lp] ++ ts ++ [rp] ++ vs, dot, by simp, .manyCons hcall hvs, hdot, hname⟩
      | _ => exact .inr trivial
  | @get callee dot name e i us j hdot hname _ ih =>
    obtain ⟨hcalls, hlast⟩ := ih
    have hget : Derives callForm ([dot] ++ [name]) := .right (.seq (.terminal hdot) (.terminal hname))
    refine ⟨.manyCons hget hcalls, ?_⟩
    obtain ⟨rfl, rfl⟩ | hlast := hlast
    · exact .inr ⟨[], dot, rfl, .manyNil, hdot, hname⟩
    · cases e with
      | get =>
        obtain ⟨vs, dot', rfl, hvs, hdot', hname'⟩ := hlast
        exact .inr ⟨[dot] ++ [name] ++ vs, dot', by simp, .manyCons hget hvs, hdot', hname'⟩
      | _ => exact .inr trivial
  | noArguments => exact .absent
  | someArguments _ hlength ih =>
    obtain ⟨us, vs, rfl, hfirst, hrest⟩ := ih (maxArguments - 1) hlength
    exact .present (.symbol (.seq (.symbol hfirst) hrest))
  | argumentsOne _ ih => exact fun n _ => ⟨_, [], by simp, ih, .atMostNil⟩
  | @argumentsCons e comma es i ts j us k _ hcomma hrest ih ihRest =>
    intro n hn
    have hpos : 0 < es.length := by cases hrest <;> simp
    rw [List.length_cons] at hn
    obtain ⟨n, rfl⟩ : ∃ m, n = m + 1 := ⟨n - 1, by omega⟩
    obtain ⟨vs, ws, rfl, hfirst, hmore⟩ := ihRest n (by omega)
    refine ⟨ts, [comma] ++ vs ++ ws, by simp, ih, ?_⟩
    exact .atMostCons (.seq (.terminal hcomma) (.symbol hfirst)) hmore
  | literal hv => exact ⟨.literal hv, trivial⟩
  | this ht => exact ⟨.symbol (.left (.left (.left (.right (.terminal ht))))), trivial⟩
  | @parent t dot method i ht hdot hmethod =>
    have hparent : Derives Symbol.primary.form ([t] ++ [dot] ++ [method]) :=
      .right (.seq (.seq (.terminal ht) (.terminal hdot)) (.terminal hmethod))
    exact ⟨.symbol hparent, trivial⟩
  | name ht => exact ⟨.symbol (.left (.left (.right (.terminal ht)))), trivial⟩
  | @grouping lp e rp i ts j hlp _ hrp ih =>
    have hgroup : Derives Symbol.primary.form ([lp] ++ ts ++ [rp]) :=
      .left (.right (.seq (.seq (.terminal hlp) (.symbol ih)) (.terminal hrp)))
    exact ⟨.symbol hgroup, trivial⟩
  | noClause => exact .absent
  | someClause _ ih => exact .present (.symbol ih)
  | noInitial => exact .absent
  | someInitial heq _ ih =>
    exact .present (Derives.of_eq (.seq (.terminal heq) (.symbol ih)) rfl)
  | @binding word name e semi i ts j hword hname _ hsemi ih =>
    have hvar : Derives Symbol.varDecl.form ([word] ++ [name] ++ ts ++ [semi]) :=
      .seq (.seq (.seq (.terminal hword) (.terminal hname)) ih) (.terminal hsemi)
    exact .symbol hvar
  | expressionStatement _ hsemi ih => exact .symbol (.seq (.symbol ih) (.terminal hsemi))
  | firstNone hsemi => exact .right (.terminal hsemi)
  | firstVariable _ ih => exact .left (.left ih)
  | firstExpression _ ih => exact .left (.right ih)
  | expression _ ih => exact .symbol (.left (.left (.left (.left (.left (.left ih))))))
  | @print word e semi i ts j hword _ hsemi ih =>
    have hprint : Derives Symbol.printStmt.form ([word] ++ ts ++ [semi]) :=
      .seq (.seq (.terminal hword) (.symbol ih)) (.terminal hsemi)
    exact .symbol (.left (.left (.left (.right (.symbol hprint)))))
  | @giveBack word e semi i ts j hword _ hsemi ih =>
    have hreturn : Derives Symbol.returnStmt.form ([word] ++ ts ++ [semi]) :=
      .seq (.seq (.terminal hword) ih) (.terminal hsemi)
    exact .symbol (.left (.left (.right (.symbol hreturn))))
  | @branch word lp e rp s o i ts j us k hword hlp _ hrp _ ih ihBody =>
    have hif : Derives Symbol.ifStmt.form ([word] ++ [lp] ++ ts ++ [rp] ++ us ++ []) :=
      .seq (.seq (.seq (.seq (.seq (.terminal hword) (.terminal hlp)) (.symbol ih))
        (.terminal hrp)) ihBody) .absent
    exact .symbol (.left (.left (.left (.left (.right (.symbol (hif.of_eq (by simp))))))))
  | @branchElse word lp e rp s other s' o i ts j us k vs l hword hlp _ hrp _ hother _ ih ihBody
      ihRest =>
    have hif : Derives Symbol.ifStmt.form
        ([word] ++ [lp] ++ ts ++ [rp] ++ us ++ ([other] ++ vs)) :=
      .seq (.seq (.seq (.seq (.seq (.terminal hword) (.terminal hlp)) (.symbol ih))
        (.terminal hrp)) ihBody) (.present (.seq (.terminal hother) ihRest))
    exact .symbol (.left (.left (.left (.left (.right (.symbol (hif.of_eq (by simp))))))))
  | @loop word lp e rp s o i ts j us k hword hlp _ hrp _ ih ihBody =>
    have hwhile : Derives Symbol.whileStmt.form ([word] ++ [lp] ++ ts ++ [rp] ++ us) :=
      .seq (.seq (.seq (.seq (.terminal hword) (.terminal hlp)) (.symbol ih)) (.terminal hrp)) ihBody
    exact .symbol (.left (.right (.symbol (hwhile.of_eq (by simp)))))
  | @counting word lp first condition semi step rp s o i ts j us k vs l ws m hword hlp _ _ hsemi _
      hrp _ ihFirst ihCondition ihStep ihBody =>
    have hfor : Derives Symbol.forStmt.form
        ([word] ++ [lp] ++ ts ++ us ++ [semi] ++ vs ++ [rp] ++ ws) :=
      .seq (.seq (.seq (.seq (.seq (.seq (.seq (.terminal hword) (.terminal hlp)) ihFirst)
        ihCondition) (.terminal hsemi)) ihStep) (.terminal hrp)) ihBody
    exact .symbol (.left (.left (.left (.left (.left (.right (.symbol (hfor.of_eq (by simp)))))))))
  | @block lb ss rb i ts j hlb _ hrb ih =>
    have hblock : Derives Symbol.block.form ([lb] ++ ts ++ [rb]) :=
      .seq (.seq (.terminal hlb) ih) (.terminal hrb)
    exact .symbol (.right (.symbol hblock))
  | declarationsNil => exact .manyNil
  | declarationsCons _ _ ih ihRest => exact .manyCons ih ihRest
  | @classDecl word name parent lb decls rb i ts j us k hword hname _ hlb _ hrb ih ihMethods =>
    have hclass : Derives Symbol.classDecl.form ([word] ++ [name] ++ ts ++ [lb] ++ us ++ [rb]) :=
      .seq (.seq (.seq (.seq (.seq (.terminal hword) (.terminal hname)) ih) (.terminal hlb))
        ihMethods) (.terminal hrb)
    exact .symbol (.left (.left (.left (.symbol (hclass.of_eq (by simp))))))
  | @funcDecl word decl i ts j hword _ ih =>
    have hfunc : Derives Symbol.funcDecl.form ([word] ++ ts) := .seq (.terminal hword) ih
    exact .symbol (.left (.left (.right (.symbol hfunc))))
  | varDecl _ ih => exact .symbol (.left (.right ih))
  | statement _ ih => exact .symbol (.right ih)
  | noHeritage => exact .absent
  | someHeritage hless hname =>
    exact .present (Derives.of_eq (.seq (.terminal hless) (.terminal hname)) rfl)
  | functionsNil => exact .manyNil
  | functionsCons _ _ ih ihRest => exact .manyCons ih ihRest
  | @function name lp params rp lb body rb i ts us j hname hlp _ hrp hlb _ hrb ih ihBody =>
    have hblock : Derives Symbol.block.form ([lb] ++ us ++ [rb]) :=
      .seq (.seq (.terminal hlb) ihBody) (.terminal hrb)
    have hfunction : Derives Symbol.function.form
        ([name] ++ [lp] ++ ts ++ [rp] ++ ([lb] ++ us ++ [rb])) :=
      .seq (.seq (.seq (.seq (.terminal hname) (.terminal hlp)) ih) (.terminal hrp))
        (.symbol hblock)
    exact .symbol (hfunction.of_eq (by simp))
  | noParameters => exact .absent
  | someParameters _ hlength ih =>
    obtain ⟨p, us, rfl, hp, hrest⟩ := ih (maxArguments - 1) hlength
    exact .present (.symbol (Derives.of_eq (.seq (.terminal hp) hrest) rfl))
  | parametersOne hp => exact fun n _ => ⟨_, [], rfl, hp, .atMostNil⟩
  | @parametersCons p comma ps i ts j hp hcomma hrest ih =>
    intro n hn
    have hpos : 0 < ps.length := by cases hrest <;> simp
    rw [List.length_cons] at hn
    obtain ⟨n, rfl⟩ : ∃ m, n = m + 1 := ⟨n - 1, by omega⟩
    obtain ⟨q, us, rfl, hq, hmore⟩ := ih n (by omega)
    refine ⟨p, [comma] ++ [q] ++ us, rfl, hp, ?_⟩
    exact .atMostCons (.seq (.terminal hcomma) (.terminal hq)) hmore

end Treewalk
