import Mathlib
import Treewalk.Proofs.Session.Calls
import Treewalk.Proofs.Trees.Rendering

/-! Renderings are read again. The tokens of a tree are read as this tree, but for the numbers of its
occurrences: no parenthesis is missing, an `else` stays with its `if`, and the block that a loop with
three clauses stands for is read as this block. -/

namespace Treewalk

/-- The same name as an occurrence without a number. -/
def Reference.bare (ref : Reference) : Reference := ⟨0, ref.name⟩

mutual

/-- The expression, with no numbers given to the occurrences in it. -/
def Expr.bare : Expr → Expr
  | .literal value => .literal value
  | .unary operator operand => .unary operator operand.bare
  | .binary left operator right => .binary left.bare operator right.bare
  | .logical left operator right => .logical left.bare operator right.bare
  | .grouping inner => .grouping inner.bare
  | .variable target => .variable target.bare
  | .assign target value => .assign target.bare value.bare
  | .call callee paren arguments => .call callee.bare paren (Expr.allBare arguments)
  | .get object name => .get object.bare name
  | .set object name value => .set object.bare name value.bare
  | .this receiver => .this receiver.bare
  | .parent keyword method => .parent keyword.bare method

def Expr.allBare : List Expr → List Expr
  | [] => []
  | e :: rest => e.bare :: Expr.allBare rest

end

mutual

/-- The statement, with no numbers given to the occurrences in it. -/
def Stmt.bare : Stmt → Stmt
  | .expression value => .expression value.bare
  | .print value => .print value.bare
  | .var name initial => .var name (initial.map Expr.bare)
  | .block body => .block (Stmt.allBare body)
  | .branch condition whenTrue none => .branch condition.bare whenTrue.bare none
  | .branch condition whenTrue (some whenFalse) =>
    .branch condition.bare whenTrue.bare (some whenFalse.bare)
  | .loop condition body => .loop condition.bare body.bare
  | .function decl => .function decl.bare
  | .giveBack keyword value => .giveBack keyword (value.map Expr.bare)
  | .classDecl name parent methods =>
    .classDecl name (parent.map Reference.bare) (FunctionDecl.allBare methods)

def Stmt.allBare : List Stmt → List Stmt
  | [] => []
  | s :: rest => s.bare :: Stmt.allBare rest

def FunctionDecl.bare : FunctionDecl → FunctionDecl
  | ⟨name, params, body⟩ => ⟨name, params, Stmt.allBare body⟩

def FunctionDecl.allBare : List FunctionDecl → List FunctionDecl
  | [] => []
  | decl :: rest => decl.bare :: FunctionDecl.allBare rest

end

attribute [local simp] Expr.tokens Stmt.tokens FunctionDecl.tokens Expr.bare Stmt.bare
  FunctionDecl.bare

theorem Expr.eq_variable_of_bare {e : Expr} {ref : Reference}
    (h : e.bare = (Expr.variable ref).bare) : ∃ ref', e = .variable ref' ∧ ref'.name = ref.name := by
  cases e <;> simp only [Expr.bare, reduceCtorEq, Expr.variable.injEq] at h
  exact ⟨_, rfl, by simpa [Reference.bare] using h⟩

theorem Expr.eq_get_of_bare {e object : Expr} {name : Token}
    (h : e.bare = (Expr.get object name).bare) :
    ∃ object', e = .get object' name ∧ object'.bare = object.bare := by
  cases e <;> simp only [Expr.bare, reduceCtorEq, Expr.get.injEq] at h
  obtain ⟨hobject, rfl⟩ := h
  exact ⟨_, rfl, hobject⟩

theorem Level.bare_node {level : Level} {tighter : List Level}
    (hs : level :: tighter <:+ Level.all) (left right : Expr) (op : Token) :
    (level.node left op right).bare = level.node left.bare op right.bare := by
  rcases Level.node_eq hs with h | h <;> rw [h] <;> rfl

/-- No operator of a level is the word for a loop. -/
theorem Level.operators_ne_for {level : Level} {tighter : List Level}
    (hs : level :: tighter <:+ Level.all) {a : Terminal} (ha : a ∈ level.operators) :
    a ≠ .keyword .forWord := by
  have hall : ∀ level ∈ Level.all, .keyword .forWord ∉ level.operators := by decide
  rintro rfl
  exact hall level (hs.mem List.mem_cons_self) ha

/-! ### Reading the tokens of a tree -/

/-- The word for a loop with three clauses is not among the tokens. -/
def WithoutFor (ts : List Token) : Prop := ∀ t ∈ ts, t.terminal ≠ .keyword .forWord

@[simp] theorem withoutFor_nil : WithoutFor [] := by simp [WithoutFor]

@[simp] theorem withoutFor_cons {t : Token} {ts : List Token} :
    WithoutFor (t :: ts) ↔ t.terminal ≠ .keyword .forWord ∧ WithoutFor ts :=
  List.forall_mem_cons

@[simp] theorem withoutFor_append {ts us : List Token} :
    WithoutFor (ts ++ us) ↔ WithoutFor ts ∧ WithoutFor us :=
  List.forall_mem_append

/-- The tokens hold no loop with three clauses, and they are read as `x` but for the numbers of
occurrences, whatever the first free number is. -/
structure ReadAgain {α : Type} (phrase : α → Phrase) (bare : α → α) (x : α) (ts : List Token) :
    Prop where
  withoutFor : WithoutFor ts
  reads : ∀ i, ∃ x' j, bare x' = bare x ∧ Reads (phrase x') i ts j

/-- The tokens of a statement are read as the statement. If an `else` behind them would become part
of it, one would have done so where the statement was read. -/
structure Stmt.ReadAgain (isOpen : Bool) (s : Stmt) : Prop where
  withoutFor : WithoutFor s.tokens
  reads : ∀ i, ∃ o s' j, (o = true → isOpen = true) ∧ s'.bare = s.bare ∧
    Reads (.statement o s') i s.tokens j

/-- The tokens of a phrase are read as the phrase. Where its trees are put around one that was read
before, this holds of the tokens that they add. -/
def Phrase.ReadAgain : Phrase → Prop
  | .expression e => Treewalk.ReadAgain .expression Expr.bare e e.tokens
  | .operation levels e =>
    levels <:+ Level.all → Treewalk.ReadAgain (.operation levels) Expr.bare e e.tokens
  | .operations level tighter left e => level :: tighter <:+ Level.all →
    ∃ added, e.tokens = left.tokens ++ added ∧ ∀ left', left'.bare = left.bare →
      Treewalk.ReadAgain (.operations level tighter left') Expr.bare e added
  | .unary e => Treewalk.ReadAgain .unary Expr.bare e e.tokens
  | .calls callee e => ∃ added, e.tokens = callee.tokens ++ added ∧
    ∀ callee', callee'.bare = callee.bare → Treewalk.ReadAgain (.calls callee') Expr.bare e added
  | .argumentList es =>
    Treewalk.ReadAgain .argumentList Expr.allBare es (listed (Expr.eachTokens es))
  | .arguments es => Treewalk.ReadAgain .arguments Expr.allBare es (listed (Expr.eachTokens es))
  | .primary e => Treewalk.ReadAgain .primary Expr.bare e e.tokens
  | .clause e => Treewalk.ReadAgain .clause (Option.map Expr.bare) e (clauseTokens e)
  | .initial e => Treewalk.ReadAgain .initial (Option.map Expr.bare) e (initialTokens e)
  | .binding s => Treewalk.ReadAgain .binding Stmt.bare s s.tokens
  | .expressionStatement s => Treewalk.ReadAgain .expressionStatement Stmt.bare s s.tokens
  | .firstClause s => ∀ x ∈ s, Treewalk.ReadAgain .declaration Stmt.bare x x.tokens
  | .statement isOpen s => s.ReadAgain isOpen
  | .declaration s => Treewalk.ReadAgain .declaration Stmt.bare s s.tokens
  | .declarations ss => Treewalk.ReadAgain .declarations Stmt.allBare ss (Stmt.allTokens ss)
  | .parameterList ps => WithoutFor (parameterTokens ps) ∧
    ∀ i, Reads (.parameterList ps) i (parameterTokens ps) i
  | .parameters ps => WithoutFor (parameterTokens ps) ∧
    ∀ i, Reads (.parameters ps) i (parameterTokens ps) i
  | .function decl => Treewalk.ReadAgain .function FunctionDecl.bare decl decl.tokens
  | .functions decls =>
    Treewalk.ReadAgain .functions FunctionDecl.allBare decls (FunctionDecl.allTokens decls)
  | .heritage parent =>
    Treewalk.ReadAgain .heritage (Option.map Reference.bare) parent (heritageTokens parent)

theorem Expr.length_of_allBare {es es' : List Expr} (h : Expr.allBare es' = Expr.allBare es) :
    es'.length = es.length := by
  induction es generalizing es' with
  | nil => cases es' with
    | nil => rfl
    | cons => cases h
  | cons e rest ih => cases es' with
    | nil => cases h
    | cons e' rest' => exact congrArg (· + 1) (ih (List.cons.inj h).2)

namespace ReadAgain

variable {α β γ : Type} {phrase : α → Phrase} {phrase' : β → Phrase} {phrase'' : γ → Phrase}
  {bare : α → α} {bare' : β → β} {bare'' : γ → γ} {x : α} {y : β} {ts us vs : List Token}

theorem imp {phrase' : α → Phrase} (h : ReadAgain phrase bare x ts)
    (hreads : ∀ {x' i j}, Reads (phrase x') i ts j → Reads (phrase' x') i ts j) :
    ReadAgain phrase' bare x ts := by
  refine ⟨h.withoutFor, fun i => ?_⟩
  obtain ⟨x', j, hbare, hx⟩ := h.reads i
  exact ⟨x', j, hbare, hreads hx⟩

/-- What a node is read from, if it has one part that is read again. -/
theorem node (h : ReadAgain phrase bare x ts) (f : α → β) (hus : WithoutFor us)
    (hbare : ∀ {x'}, bare x' = bare x → bare' (f x') = bare' (f x))
    (hreads : ∀ {x' i j}, Reads (phrase x') i ts j → Reads (phrase' (f x')) i us j) :
    ReadAgain phrase' bare' (f x) us := by
  refine ⟨hus, fun i => ?_⟩
  obtain ⟨x', j, hx', hx⟩ := h.reads i
  exact ⟨f x', j, hbare hx', hreads hx⟩

/-- What a node is read from, if it has two parts that are read again, one after the other. -/
theorem node₂ (h : ReadAgain phrase bare x ts) (h' : ReadAgain phrase' bare' y us) (f : α → β → γ)
    (hvs : WithoutFor vs)
    (hbare : ∀ {x' y'}, bare x' = bare x → bare' y' = bare' y →
      bare'' (f x' y') = bare'' (f x y))
    (hreads : ∀ {x' y' i j k}, Reads (phrase x') i ts j → Reads (phrase' y') j us k →
      Reads (phrase'' (f x' y')) i vs k) :
    ReadAgain phrase'' bare'' (f x y) vs := by
  refine ⟨hvs, fun i => ?_⟩
  obtain ⟨x', j, hx', hx⟩ := h.reads i
  obtain ⟨y', k, hy', hy⟩ := h'.reads j
  exact ⟨f x' y', k, hbare hx' hy', hreads hx hy⟩

/-- What is read behind `x`, and put around it. -/
theorem chain {rest : α → β → Phrase} (h : ReadAgain phrase bare x ts)
    (hrest : ∀ x', bare x' = bare x → ReadAgain (rest x') bare' y us)
    (hreads : ∀ {x' y' i j k}, Reads (phrase x') i ts j → Reads (rest x' y') j us k →
      Reads (phrase' y') i (ts ++ us) k) :
    ReadAgain phrase' bare' y (ts ++ us) := by
  refine ⟨by simp [h.withoutFor, (hrest x rfl).withoutFor], fun i => ?_⟩
  obtain ⟨x', j, hx', hx⟩ := h.reads i
  obtain ⟨y', k, hy', hy⟩ := (hrest x' hx').reads j
  exact ⟨y', k, hy', hreads hx hy⟩

end ReadAgain

namespace Stmt.ReadAgain

variable {o : Bool} {s : Stmt} {ss : List Stmt} {e : Expr}

/-- A statement to which no `else` can be added. -/
theorem closed (h : Treewalk.ReadAgain (.statement false) Stmt.bare s s.tokens) :
    s.ReadAgain o := by
  refine ⟨h.withoutFor, fun i => ?_⟩
  obtain ⟨s', j, hbare, hs⟩ := h.reads i
  exact ⟨false, s', j, nofun, hbare, hs⟩

theorem declaration (h : s.ReadAgain o) :
    Treewalk.ReadAgain .declaration Stmt.bare s s.tokens := by
  refine ⟨h.withoutFor, fun i => ?_⟩
  obtain ⟨_, s', j, -, hbare, hs⟩ := h.reads i
  exact ⟨s', j, hbare, .statement hs⟩

theorem loop (h : Treewalk.ReadAgain .expression Expr.bare e e.tokens) (hs : s.ReadAgain o) :
    (Stmt.loop e s).ReadAgain o := by
  refine ⟨by simp [h.withoutFor, hs.withoutFor], fun i => ?_⟩
  obtain ⟨e', j, he', hreads⟩ := h.reads i
  obtain ⟨o', s', k, hopen, hs', hreads'⟩ := hs.reads j
  refine ⟨o', .loop e' s', k, hopen, by simp [he', hs'], ?_⟩
  exact .loop rfl rfl hreads rfl hreads'

/-- Behind what a condition selects, an `else` can be added. -/
theorem branch (h : Treewalk.ReadAgain .expression Expr.bare e e.tokens) (hs : s.ReadAgain o) :
    (Stmt.branch e s none).ReadAgain true := by
  refine ⟨by simp [h.withoutFor, hs.withoutFor], fun i => ?_⟩
  obtain ⟨e', j, he', hreads⟩ := h.reads i
  obtain ⟨o', s', k, -, hs', hreads'⟩ := hs.reads j
  refine ⟨true, .branch e' s' none, k, fun _ => rfl, by simp [he', hs'], ?_⟩
  exact .branch rfl rfl hreads rfl hreads'

/-- What stands in front of an `else` leaves it alone. -/
theorem branchElse {t : Stmt} (h : Treewalk.ReadAgain .expression Expr.bare e e.tokens)
    (hs : s.ReadAgain false) (ht : t.ReadAgain o) : (Stmt.branch e s (some t)).ReadAgain o := by
  refine ⟨by simp [h.withoutFor, hs.withoutFor, ht.withoutFor], fun i => ?_⟩
  obtain ⟨e', j, he', hreads⟩ := h.reads i
  obtain ⟨_ | _, s', k, hclosed, hs', hreads'⟩ := hs.reads j
  · obtain ⟨o', t', l, hopen, ht', hreads''⟩ := ht.reads k
    refine ⟨o', .branch e' s' (some t'), l, hopen, by simp [he', hs', ht'], ?_⟩
    have hbranch := Reads.branchElse (Keyword.terminal_token .ifWord)
      (Punct.terminal_token .leftParen) hreads (Punct.terminal_token .rightParen) hreads'
      (Keyword.terminal_token .elseWord) hreads''
    simpa using hbranch
  · cases hclosed rfl

theorem block (h : Treewalk.ReadAgain .declarations Stmt.allBare ss (Stmt.allTokens ss)) :
    (Stmt.block ss).ReadAgain o :=
  .closed (h.node Stmt.block (by simp [h.withoutFor])
    (fun hss => by simp [hss]) fun hss => .block rfl hss rfl)

theorem expression (h : Treewalk.ReadAgain .expressionStatement Stmt.bare s s.tokens) :
    s.ReadAgain o :=
  .closed (h.imp .expression)

end Stmt.ReadAgain

namespace ReadAgain

variable {s : Stmt} {ss : List Stmt} {e : Expr}

theorem declarationsNil : ReadAgain .declarations Stmt.allBare [] (Stmt.allTokens []) :=
  ⟨withoutFor_nil, fun i => ⟨[], i, rfl, .declarationsNil⟩⟩

theorem declarationsCons (h : ReadAgain .declaration Stmt.bare s s.tokens)
    (h' : ReadAgain .declarations Stmt.allBare ss (Stmt.allTokens ss)) :
    ReadAgain .declarations Stmt.allBare (s :: ss) (Stmt.allTokens (s :: ss)) :=
  h.node₂ h' List.cons (by simp [Stmt.allTokens, h.withoutFor, h'.withoutFor])
    (fun hs hss => by simp [Stmt.allBare, hs, hss]) .declarationsCons

theorem expressionStatement (h : ReadAgain .expression Expr.bare e e.tokens) :
    ReadAgain .expressionStatement Stmt.bare (.expression e) (Stmt.expression e).tokens :=
  h.node Stmt.expression (by simp [h.withoutFor]) (fun he => by simp [he])
    fun he => .expressionStatement he rfl

end ReadAgain

/-- What is read as one of the tightest expressions is read as an expression. -/
theorem Reads.operation_of_primary {e : Expr} {i j : NodeId} {ts : List Token}
    (h : Reads (.primary e) i ts j) (levels : List Level) : Reads (.operation levels e) i ts j := by
  rw [← List.append_nil ts]
  exact Reads.operation (.operand h .callsNil) levels

theorem Literal.withoutFor_token (v : Literal) : WithoutFor [v.token] := by
  have hliteral := Token.terminal_of_literal? v.literal?_token
  rw [withoutFor_cons]
  refine ⟨?_, withoutFor_nil⟩
  intro heq
  rw [heq] at hliteral
  revert hliteral
  decide

theorem ReadAgain.literal (v : Literal) :
    ReadAgain .primary Expr.bare (.literal v) (Expr.literal v).tokens :=
  ⟨v.withoutFor_token, fun i => ⟨.literal v, i, rfl, .literal v.literal?_token⟩⟩

/-- A clause that is not left out is an expression. -/
theorem ReadAgain.of_clause {e : Expr}
    (h : ReadAgain .clause (Option.map Expr.bare) (some e) (clauseTokens (some e))) :
    ReadAgain .expression Expr.bare e e.tokens := by
  refine ⟨h.withoutFor, fun i => ?_⟩
  obtain ⟨_ | e', j, hbare, hreads⟩ := h.reads i
  · cases hbare
  · cases hreads with
    | someClause hreads => exact ⟨e', j, Option.some.inj hbare, hreads⟩

/-- The block that a loop with three clauses stands for is read as the loop was. -/
theorem Stmt.readAgain_counting {first : Option Stmt} {condition step : Option Expr} {body : Stmt}
    {o : Bool} (hfirst : ∀ s ∈ first, Treewalk.ReadAgain .declaration Stmt.bare s s.tokens)
    (hcondition :
      Treewalk.ReadAgain .clause (Option.map Expr.bare) condition (clauseTokens condition))
    (hstep : Treewalk.ReadAgain .clause (Option.map Expr.bare) step (clauseTokens step))
    (hbody : body.ReadAgain o) : (Stmt.counting first condition step body).ReadAgain o := by
  have hcondition : Treewalk.ReadAgain .expression Expr.bare
      (condition.getD (.literal (.bool true))) (condition.getD (.literal (.bool true))).tokens := by
    cases condition with
    | none => exact (ReadAgain.literal (.bool true)).imp fun h => .value (h.operation_of_primary _)
    | some e => exact hcondition.of_clause
  have hloop : ∀ {body : Stmt}, body.ReadAgain o → Treewalk.ReadAgain .declarations Stmt.allBare
      [.loop (condition.getD (.literal (.bool true))) body]
      (Stmt.allTokens [.loop (condition.getD (.literal (.bool true))) body]) :=
    fun h => (ReadAgain.loop hcondition h).declaration.declarationsCons .declarationsNil
  have hblock : ∀ {body : Stmt}, body.ReadAgain o → (Stmt.block (first.toList ++
      [.loop (condition.getD (.literal (.bool true))) body])).ReadAgain o := by
    intro body h
    cases first with
    | none => exact .block (hloop h)
    | some s => exact .block ((hfirst s rfl).declarationsCons (hloop h))
  cases step with
  | none => exact hblock hbody
  | some e =>
    have hlast : (Stmt.expression e).ReadAgain o := .expression hstep.of_clause.expressionStatement
    exact hblock (.block (hbody.declaration.declarationsCons
      (hlast.declaration.declarationsCons .declarationsNil)))

/-- Whatever is read, its tokens are read as it again. -/
theorem Reads.readAgain {phrase : Phrase} {i j : NodeId} {ts : List Token}
    (h : Reads phrase i ts j) : phrase.ReadAgain := by
  induction h with
  | value _ ih => exact (ih (List.suffix_refl _)).imp .value
  | @assign ref eq v _ _ _ _ _ _ heq _ ih ihv =>
    have htarget := ih (List.suffix_refl _)
    refine ⟨by simpa [ihv.withoutFor] using htarget.withoutFor, fun i => ?_⟩
    obtain ⟨e', j, he', hreads⟩ := htarget.reads i
    obtain ⟨v', k, hv', hreads'⟩ := ihv.reads j
    obtain ⟨ref', rfl, hname⟩ := Expr.eq_variable_of_bare he'
    refine ⟨.assign ⟨k, ref'.name⟩ v', k + 1, ?_, .assign hreads rfl hreads'⟩
    simp [Reference.bare, hname, hv']
  | @set object name eq v _ _ _ _ _ _ heq _ ih ihv =>
    have htarget := ih (List.suffix_refl _)
    have hwithout := htarget.withoutFor
    simp only [Expr.tokens, withoutFor_append, withoutFor_cons] at hwithout
    refine ⟨by simp [hwithout, ihv.withoutFor], fun i => ?_⟩
    obtain ⟨e', j, he', hreads⟩ := htarget.reads i
    obtain ⟨v', k, hv', hreads'⟩ := ihv.reads j
    obtain ⟨object', rfl, hobject⟩ := Expr.eq_get_of_bare he'
    refine ⟨.set object' name v', k, by simp [hobject, hv'], ?_⟩
    have hset := Reads.set hreads (Punct.terminal_token .equal) hreads'
    simpa using hset
  | tightest _ ih => exact fun _ => ih.imp .tightest
  | level _ _ ih ihRest =>
    intro hs
    have hleft := ih ((List.suffix_cons _ _).trans hs)
    obtain ⟨added, heq, hadded⟩ := ihRest hs
    rw [heq]
    exact hleft.chain hadded .level
  | operationsNil =>
    intro hs
    exact ⟨[], by simp, fun left' hbare =>
      ⟨withoutFor_nil, fun i => ⟨left', i, hbare, .operationsNil⟩⟩⟩
  | @operationsCons level _ left op right e _ _ _ _ _ hop _ _ ih ihRest =>
    intro hs
    have hright := ih ((List.suffix_cons _ _).trans hs)
    obtain ⟨added, heq, hadded⟩ := ihRest hs
    refine ⟨op :: right.tokens ++ added, by simp [heq, Level.tokens_node hs], ?_⟩
    intro left' hleft
    refine ⟨?_, fun i => ?_⟩
    · simp [Level.operators_ne_for hs hop, hright.withoutFor, (hadded _ rfl).withoutFor]
    · obtain ⟨right', j, hbare, hreads⟩ := hright.reads i
      have hnode : (level.node left' op right').bare = (level.node left op right).bare := by
        rw [Level.bare_node hs, Level.bare_node hs, hleft, hbare]
      obtain ⟨e', k, hbare', hreads'⟩ := (hadded _ hnode).reads j
      exact ⟨e', k, hbare', .operationsCons hop hreads hreads'⟩
  | @sign op _ _ _ _ hop _ ih =>
    have hne : op.terminal ≠ .keyword .forWord := by
      intro heq
      simp [heq] at hop
    exact ih.node (Expr.unary op) (by simp [hne, ih.withoutFor])
      (fun he => by simp [he]) (.sign hop)
  | operand _ _ ih ihCalls =>
    obtain ⟨added, heq, hadded⟩ := ihCalls
    rw [Phrase.ReadAgain, heq]
    exact ih.chain hadded .operand
  | callsNil =>
    exact ⟨[], by simp, fun callee' hbare =>
      ⟨withoutFor_nil, fun i => ⟨callee', i, hbare, .callsNil⟩⟩⟩
  | @call callee lp es rp e _ _ _ _ _ hlp _ hrp _ ih ihCalls =>
    obtain ⟨added, heq, hadded⟩ := ihCalls
    refine ⟨Punct.leftParen.token :: listed (Expr.eachTokens es) ++ rp :: added,
      by simp [heq], ?_⟩
    intro callee' hcallee
    refine ⟨by simp [ih.withoutFor, hrp, (hadded _ rfl).withoutFor], fun i => ?_⟩
    obtain ⟨es', j, hes, hreads⟩ := ih.reads i
    have hcall : (Expr.call callee' rp es').bare = (Expr.call callee rp es).bare := by
      simp [hcallee, hes]
    obtain ⟨e', k, hbare, hreads'⟩ := (hadded _ hcall).reads j
    exact ⟨e', k, hbare, .call rfl hreads hrp hreads'⟩
  | @get callee dot name e _ _ _ hdot hname _ ih =>
    obtain ⟨added, heq, hadded⟩ := ih
    refine ⟨Punct.dot.token :: name :: added, by simp [heq], ?_⟩
    intro callee' hcallee
    refine ⟨by simp [hname, (hadded _ rfl).withoutFor], fun i => ?_⟩
    have hget : (Expr.get callee' name).bare = (Expr.get callee name).bare := by
      simp [hcallee]
    obtain ⟨e', j, hbare, hreads⟩ := (hadded _ hget).reads i
    exact ⟨e', j, hbare, .get rfl hname hreads⟩
  | noArguments => exact ⟨withoutFor_nil, fun i => ⟨[], i, rfl, .noArguments⟩⟩
  | someArguments _ hle ih =>
    refine ⟨ih.withoutFor, fun i => ?_⟩
    obtain ⟨es', j, hbare, hreads⟩ := ih.reads i
    exact ⟨es', j, hbare, .someArguments hreads (Expr.length_of_allBare hbare ▸ hle)⟩
  | argumentsOne _ ih =>
    exact ih.node (fun e => [e]) (by simpa [Expr.eachTokens] using ih.withoutFor)
      (fun he => by simp [Expr.allBare, he])
      fun he => by simpa [Expr.eachTokens] using Reads.argumentsOne he
  | argumentsCons _ _ hrest ih ihRest =>
    rw [Phrase.ReadAgain, Expr.eachTokens, listed_cons hrest.eachTokens_ne_nil]
    exact ih.node₂ ihRest List.cons (by simp [ih.withoutFor, ihRest.withoutFor])
      (fun he hes => by simp [Expr.allBare, he, hes]) fun he hes => .argumentsCons he rfl hes
  | @literal _ v _ _ => exact .literal v
  | @this t _ ht => exact ⟨by simp [ht], fun i => ⟨.this ⟨i, t⟩, i + 1, rfl, .this ht⟩⟩
  | @parent t _ method _ ht _ hmethod =>
    exact ⟨by simp [ht, hmethod],
      fun i => ⟨.parent ⟨i, t⟩ method, i + 1, rfl, .parent ht rfl hmethod⟩⟩
  | @name t _ ht =>
    exact ⟨by simp [ht], fun i => ⟨.variable ⟨i, t⟩, i + 1, rfl, .name ht⟩⟩
  | grouping _ _ _ ih =>
    exact ih.node Expr.grouping (by simp [ih.withoutFor])
      (fun he => by simp [he]) fun he => .grouping rfl he rfl
  | noClause => exact ⟨withoutFor_nil, fun i => ⟨none, i, rfl, .noClause⟩⟩
  | someClause _ ih =>
    exact ih.node some ih.withoutFor (fun he => congrArg some he) .someClause
  | noInitial => exact ⟨withoutFor_nil, fun i => ⟨none, i, rfl, .noInitial⟩⟩
  | someInitial _ _ ih =>
    exact ih.node some (by simp [initialTokens, ih.withoutFor]) (fun he => congrArg some he)
      (.someInitial rfl)
  | @binding _ name _ _ _ _ _ _ hname _ _ ih =>
    exact ih.node (Stmt.var name) (by simp [hname, ih.withoutFor])
      (fun he => by simp [he]) fun he => .binding rfl hname he rfl
  | expressionStatement _ _ ih => exact ih.expressionStatement
  | firstNone => simp [Phrase.ReadAgain]
  | firstVariable _ ih => simpa [Phrase.ReadAgain] using ih.imp .varDecl
  | firstExpression _ ih =>
    have hstatement : Stmt.ReadAgain false _ := .expression ih
    simpa [Phrase.ReadAgain] using hstatement.declaration
  | expression _ ih => exact .expression ih
  | print _ _ _ ih =>
    exact .closed (ih.node Stmt.print (by simp [ih.withoutFor])
      (fun he => by simp [he]) fun he => .print rfl he rfl)
  | @giveBack word _ _ _ _ _ hword _ _ ih =>
    exact .closed (ih.node (Stmt.giveBack word) (by simp [hword, ih.withoutFor])
      (fun he => by simp [he]) fun he => .giveBack hword he rfl)
  | branch _ _ _ _ _ ih ihBody => exact .branch ih ihBody
  | branchElse _ _ _ _ _ _ _ ih ihBody ihRest => exact .branchElse ih ihBody ihRest
  | loop _ _ _ _ _ ih ihBody => exact .loop ih ihBody
  | counting _ _ _ _ _ _ _ _ ihFirst ihCondition ihStep ihBody =>
    exact Stmt.readAgain_counting ihFirst ihCondition ihStep ihBody
  | block _ _ _ ih => exact .block ih
  | declarationsNil => exact .declarationsNil
  | declarationsCons _ _ ih ihRest => exact ih.declarationsCons ihRest
  | @classDecl _ name _ _ _ _ _ _ _ _ _ _ hname _ _ _ _ ih ihMethods =>
    exact ih.node₂ ihMethods (Stmt.classDecl name)
      (by simp [hname, ih.withoutFor, ihMethods.withoutFor])
      (fun hp hms => by simp [hp, hms]) fun hp hms => .classDecl rfl hname hp rfl hms rfl
  | funcDecl _ _ ih =>
    exact ih.node Stmt.function (by simp [ih.withoutFor])
      (fun hd => by simp [hd]) (.funcDecl rfl)
  | varDecl _ ih => exact ih.imp .varDecl
  | statement _ ih => exact ih.declaration
  | noHeritage => exact ⟨withoutFor_nil, fun i => ⟨none, i, rfl, .noHeritage⟩⟩
  | @someHeritage _ name _ _ hname =>
    exact ⟨by simp [heritageTokens, hname],
      fun i => ⟨some ⟨i, name⟩, i + 1, rfl, .someHeritage rfl hname⟩⟩
  | functionsNil => exact ⟨withoutFor_nil, fun i => ⟨[], i, rfl, .functionsNil⟩⟩
  | functionsCons _ _ ih ihRest =>
    exact ih.node₂ ihRest List.cons
      (by simp [FunctionDecl.allTokens, ih.withoutFor, ihRest.withoutFor])
      (fun hd hds => by simp [FunctionDecl.allBare, hd, hds]) .functionsCons
  | @function name _ params _ _ _ _ _ _ _ _ hname _ _ _ _ _ _ ih ihBody =>
    exact ihBody.node (FunctionDecl.mk name params)
      (by simp [hname, ih.1, ihBody.withoutFor])
      (fun hss => by simp [hss])
      fun hss => .function hname rfl (ih.2 _) rfl rfl hss rfl
  | noParameters => exact ⟨withoutFor_nil, fun i => .noParameters⟩
  | someParameters _ hle ih => exact ⟨ih.1, fun i => .someParameters (ih.2 i) hle⟩
  | @parametersOne p _ hp =>
    exact ⟨by simp [parameterTokens, hp], fun i => .parametersOne hp⟩
  | @parametersCons p _ _ _ _ _ hp _ hrest ih =>
    rw [Phrase.ReadAgain, parameterTokens, List.map_cons, listed_cons hrest.parameters_ne_nil]
    exact ⟨by simpa [parameterTokens, hp] using ih.1, fun i => .parametersCons hp rfl (ih.2 i)⟩

/-! ### Source texts -/

namespace Session

/-- Rendering is the inverse of parsing. Take the program that a session parses a source text as.
Its rendering has no loop with three clauses, and it is parsed as this program but for the numbers
of occurrences, whatever end mark stands behind it and whatever number is the first free one. If the
source text has no loop with three clauses either, then the rendering is what the text consists of,
token by token, but for the lines of tokens and the texts of numbers. -/
theorem rendering_undoes_parsing (s : Session) (source : String) (p : Program)
    (h : (s.parse source).1 = .ok p) :
    WithoutFor (render p) ∧
      (∀ finish i, (Treewalk.parse (render p) finish i).faults = [] ∧
        Stmt.allBare (Treewalk.parse (render p) finish i).program = Stmt.allBare p) ∧
      (WithoutFor (Source.tokens source) →
        (render p).map Token.bare = (Source.tokens source).map Token.bare) := by
  obtain ⟨-, hreads⟩ := reads_of_parse h
  have hagain : ReadAgain .declarations Stmt.allBare p (render p) := hreads.readAgain
  refine ⟨hagain.withoutFor, fun finish i => ?_, fun hfor => ?_⟩
  · obtain ⟨p', j, hbare, hreads'⟩ := hagain.reads i
    rw [Treewalk.parse_of_reads hreads']
    exact ⟨rfl, hbare⟩
  · have hrenders : SameText (render p) (Source.tokens source) :=
      hreads.renders fun t ht => ⟨Source.spelledOut_of_mem_tokens ht, hfor t ht⟩
    exact hrenders

/-- A loop without clauses stands for a block. -/
theorem rendering_undoes_parsing_of_loop :
    let p : Program := [.block [.loop (.literal (.bool true))
      (.expression (.variable ⟨0, ⟨.identifier, "a", 1⟩⟩))]]
    ((initial .unbounded).parse "for (;;) a;").1 = .ok p ∧
      (render p).map Token.lexeme = ["\x7b", "while", "(", "true", ")", "a", ";", "\x7d"] ∧
      ∀ finish i, Stmt.allBare (Treewalk.parse (render p) finish i).program = Stmt.allBare p := by
  intro p
  have hparse : ((initial .unbounded).parse "for (;;) a;").1 = .ok p := by cbv
  exact ⟨hparse, by cbv,
    fun finish i => ((rendering_undoes_parsing _ _ p hparse).2.1 finish i).2⟩

end Session

end Treewalk
