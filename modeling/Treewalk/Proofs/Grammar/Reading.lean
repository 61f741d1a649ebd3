import Treewalk.Grammar.Statement

/-! Readings: the trees that stretches of tokens are read as. `Reads phrase i ts j` says that the
tokens `ts` are read as `phrase` when `i` is the first free number for an occurrence, and that `j`
is the first one afterwards. A stretch has at most one reading of each kind: an `else` belongs to
the nearest `if` that can take it. -/

namespace Treewalk

/-- What a stretch of tokens may be read as: a tree, or a part of one. -/
inductive Phrase
  | expression (e : Expr)
  | operation (levels : List Level) (e : Expr)
  /-- The operators of `level` behind the operand `left`; with it they make `e`. -/
  | operations (level : Level) (tighter : List Level) (left e : Expr)
  | unary (e : Expr)
  /-- The calls and properties behind `callee`; with it they make `e`. -/
  | calls (callee e : Expr)
  | argumentList (es : List Expr)
  | arguments (es : List Expr)
  | primary (e : Expr)
  /-- An expression that may be left out. -/
  | clause (e : Option Expr)
  /-- The initial value of a variable, with its equals sign. -/
  | initial (e : Option Expr)
  | binding (s : Stmt)
  | expressionStatement (s : Stmt)
  /-- The first clause of a `for`, with its semicolon. -/
  | firstClause (s : Option Stmt)
  /-- A statement; it is open if an `else` behind it would become part of it. -/
  | statement (isOpen : Bool) (s : Stmt)
  | declaration (s : Stmt)
  | declarations (ss : List Stmt)
  | parameterList (ps : List Token)
  | parameters (ps : List Token)
  | function (decl : FunctionDecl)
  | functions (decls : List FunctionDecl)
  /-- The parent of a class, with its mark. -/
  | heritage (parent : Option Reference)

/-- The readings of tokens. -/
inductive Reads : Phrase → NodeId → List Token → NodeId → Prop
  | value {e i ts j} : Reads (.operation Level.all e) i ts j → Reads (.expression e) i ts j
  | assign {ref eq v i ts j us k} : Reads (.operation Level.all (.variable ref)) i ts j →
    eq.terminal = .punct .equal → Reads (.expression v) j us k →
    Reads (.expression (.assign ⟨k, ref.name⟩ v)) i (ts ++ eq :: us) (k + 1)
  | set {object name eq v i ts j us k} :
    Reads (.operation Level.all (.get object name)) i ts j →
    eq.terminal = .punct .equal → Reads (.expression v) j us k →
    Reads (.expression (.set object name v)) i (ts ++ eq :: us) k
  | tightest {e i ts j} : Reads (.unary e) i ts j → Reads (.operation [] e) i ts j
  | level {level tighter left e i ts j us k} : Reads (.operation tighter left) i ts j →
    Reads (.operations level tighter left e) j us k →
    Reads (.operation (level :: tighter) e) i (ts ++ us) k
  | operationsNil {level tighter e i} : Reads (.operations level tighter e e) i [] i
  | operationsCons {level tighter left op right e i ts j us k} :
    op.terminal ∈ level.operators → Reads (.operation tighter right) i ts j →
    Reads (.operations level tighter (level.node left op right) e) j us k →
    Reads (.operations level tighter left e) i (op :: ts ++ us) k
  | sign {op e i ts j} : op.terminal ∈ [.punct .bang, .punct .minus] →
    Reads (.unary e) i ts j → Reads (.unary (.unary op e)) i (op :: ts) j
  | operand {callee e i ts j us k} : Reads (.primary callee) i ts j →
    Reads (.calls callee e) j us k → Reads (.unary e) i (ts ++ us) k
  | callsNil {e i} : Reads (.calls e e) i [] i
  | call {callee lp es rp e i ts j us k} : lp.terminal = .punct .leftParen →
    Reads (.argumentList es) i ts j → rp.terminal = .punct .rightParen →
    Reads (.calls (.call callee rp es) e) j us k →
    Reads (.calls callee e) i (lp :: ts ++ rp :: us) k
  | get {callee dot name e i us j} : dot.terminal = .punct .dot → name.terminal = .identifier →
    Reads (.calls (.get callee name) e) i us j →
    Reads (.calls callee e) i (dot :: name :: us) j
  | noArguments {i} : Reads (.argumentList []) i [] i
  | someArguments {es i ts j} : Reads (.arguments es) i ts j → es.length ≤ maxArguments →
    Reads (.argumentList es) i ts j
  | argumentsOne {e i ts j} : Reads (.expression e) i ts j → Reads (.arguments [e]) i ts j
  | argumentsCons {e comma es i ts j us k} : Reads (.expression e) i ts j →
    comma.terminal = .punct .comma → Reads (.arguments es) j us k →
    Reads (.arguments (e :: es)) i (ts ++ comma :: us) k
  | literal {t v i} : t.literal? = some v → Reads (.primary (.literal v)) i [t] i
  | this {t i} : t.terminal = .keyword .thisWord → Reads (.primary (.this ⟨i, t⟩)) i [t] (i + 1)
  | parent {t dot method i} : t.terminal = .keyword .parentWord → dot.terminal = .punct .dot →
    method.terminal = .identifier →
    Reads (.primary (.parent ⟨i, t⟩ method)) i [t, dot, method] (i + 1)
  | name {t i} : t.terminal = .identifier → Reads (.primary (.variable ⟨i, t⟩)) i [t] (i + 1)
  | grouping {lp e rp i ts j} : lp.terminal = .punct .leftParen → Reads (.expression e) i ts j →
    rp.terminal = .punct .rightParen → Reads (.primary (.grouping e)) i (lp :: ts ++ [rp]) j
  | noClause {i} : Reads (.clause none) i [] i
  | someClause {e i ts j} : Reads (.expression e) i ts j → Reads (.clause (some e)) i ts j
  | noInitial {i} : Reads (.initial none) i [] i
  | someInitial {eq e i ts j} : eq.terminal = .punct .equal → Reads (.expression e) i ts j →
    Reads (.initial (some e)) i (eq :: ts) j
  | binding {var name e semi i ts j} : var.terminal = .keyword .varWord →
    name.terminal = .identifier → Reads (.initial e) i ts j → semi.terminal = .punct .semicolon →
    Reads (.binding (.var name e)) i (var :: name :: ts ++ [semi]) j
  | expressionStatement {e semi i ts j} : Reads (.expression e) i ts j →
    semi.terminal = .punct .semicolon →
    Reads (.expressionStatement (.expression e)) i (ts ++ [semi]) j
  | firstNone {semi i} : semi.terminal = .punct .semicolon → Reads (.firstClause none) i [semi] i
  | firstVariable {s i ts j} : Reads (.binding s) i ts j → Reads (.firstClause (some s)) i ts j
  | firstExpression {s i ts j} : Reads (.expressionStatement s) i ts j →
    Reads (.firstClause (some s)) i ts j
  | expression {s i ts j} : Reads (.expressionStatement s) i ts j →
    Reads (.statement false s) i ts j
  | print {word e semi i ts j} : word.terminal = .keyword .printWord →
    Reads (.expression e) i ts j → semi.terminal = .punct .semicolon →
    Reads (.statement false (.print e)) i (word :: ts ++ [semi]) j
  | giveBack {word e semi i ts j} : word.terminal = .keyword .returnWord →
    Reads (.clause e) i ts j → semi.terminal = .punct .semicolon →
    Reads (.statement false (.giveBack word e)) i (word :: ts ++ [semi]) j
  | branch {word lp e rp s o i ts j us k} : word.terminal = .keyword .ifWord →
    lp.terminal = .punct .leftParen → Reads (.expression e) i ts j →
    rp.terminal = .punct .rightParen → Reads (.statement o s) j us k →
    Reads (.statement true (.branch e s none)) i (word :: lp :: ts ++ rp :: us) k
  | branchElse {word lp e rp s other s' o i ts j us k vs l} : word.terminal = .keyword .ifWord →
    lp.terminal = .punct .leftParen → Reads (.expression e) i ts j →
    rp.terminal = .punct .rightParen → Reads (.statement false s) j us k →
    other.terminal = .keyword .elseWord → Reads (.statement o s') k vs l →
    Reads (.statement o (.branch e s (some s'))) i (word :: lp :: ts ++ rp :: us ++ other :: vs) l
  | loop {word lp e rp s o i ts j us k} : word.terminal = .keyword .whileWord →
    lp.terminal = .punct .leftParen → Reads (.expression e) i ts j →
    rp.terminal = .punct .rightParen → Reads (.statement o s) j us k →
    Reads (.statement o (.loop e s)) i (word :: lp :: ts ++ rp :: us) k
  | counting {word lp first condition semi step rp s o i ts j us k vs l ws m} :
    word.terminal = .keyword .forWord → lp.terminal = .punct .leftParen →
    Reads (.firstClause first) i ts j → Reads (.clause condition) j us k →
    semi.terminal = .punct .semicolon → Reads (.clause step) k vs l →
    rp.terminal = .punct .rightParen → Reads (.statement o s) l ws m →
    Reads (.statement o (.counting first condition step s)) i
      (word :: lp :: ts ++ us ++ semi :: vs ++ rp :: ws) m
  | block {lb ss rb i ts j} : lb.terminal = .punct .leftBrace → Reads (.declarations ss) i ts j →
    rb.terminal = .punct .rightBrace → Reads (.statement false (.block ss)) i (lb :: ts ++ [rb]) j
  | declarationsNil {i} : Reads (.declarations []) i [] i
  | declarationsCons {s ss i ts j us k} : Reads (.declaration s) i ts j →
    Reads (.declarations ss) j us k → Reads (.declarations (s :: ss)) i (ts ++ us) k
  | classDecl {word name parent lb methods rb i ts j us k} : word.terminal = .keyword .classWord →
    name.terminal = .identifier → Reads (.heritage parent) i ts j →
    lb.terminal = .punct .leftBrace → Reads (.functions methods) j us k →
    rb.terminal = .punct .rightBrace →
    Reads (.declaration (.classDecl name parent methods)) i (word :: name :: ts ++ lb :: us ++ [rb]) k
  | funcDecl {word decl i ts j} : word.terminal = .keyword .funcWord →
    Reads (.function decl) i ts j → Reads (.declaration (.function decl)) i (word :: ts) j
  | varDecl {s i ts j} : Reads (.binding s) i ts j → Reads (.declaration s) i ts j
  | statement {s o i ts j} : Reads (.statement o s) i ts j → Reads (.declaration s) i ts j
  | noHeritage {i} : Reads (.heritage none) i [] i
  | someHeritage {less name i} : less.terminal = .punct .less → name.terminal = .identifier →
    Reads (.heritage (some ⟨i, name⟩)) i [less, name] (i + 1)
  | functionsNil {i} : Reads (.functions []) i [] i
  | functionsCons {decl decls i ts j us k} : Reads (.function decl) i ts j →
    Reads (.functions decls) j us k → Reads (.functions (decl :: decls)) i (ts ++ us) k
  | function {name lp params rp lb body rb i ts us j} : name.terminal = .identifier →
    lp.terminal = .punct .leftParen → Reads (.parameterList params) i ts i →
    rp.terminal = .punct .rightParen → lb.terminal = .punct .leftBrace →
    Reads (.declarations body) i us j → rb.terminal = .punct .rightBrace →
    Reads (.function ⟨name, params, body⟩) i (name :: lp :: ts ++ rp :: lb :: us ++ [rb]) j
  | noParameters {i} : Reads (.parameterList []) i [] i
  | someParameters {ps i ts j} : Reads (.parameters ps) i ts j → ps.length ≤ maxArguments →
    Reads (.parameterList ps) i ts j
  | parametersOne {p i} : p.terminal = .identifier → Reads (.parameters [p]) i [p] i
  | parametersCons {p comma ps i ts j} : p.terminal = .identifier →
    comma.terminal = .punct .comma → Reads (.parameters ps) i ts j →
    Reads (.parameters (p :: ps)) i (p :: comma :: ts) j

/-- An operand is an operation of any strength. -/
theorem Reads.operation {e : Expr} {i j : NodeId} {ts : List Token}
    (h : Reads (.unary e) i ts j) (levels : List Level) : Reads (.operation levels e) i ts j := by
  induction levels with
  | nil => exact .tightest h
  | cons level tighter ih =>
    rw [← List.append_nil ts]
    exact .level ih .operationsNil

/-- The classes of tokens that spell constants. -/
def literalTerminals : List Terminal :=
  [.number, .string, .keyword .trueWord, .keyword .falseWord, .keyword .nullWord]

/-- The classes of tokens that the tightest expressions start with. -/
def primaryStarts : List Terminal :=
  literalTerminals ++
    [.keyword .thisWord, .keyword .parentWord, .identifier, .punct .leftParen]

/-- The classes of tokens that an expression starts with. -/
def expressionStarts : List Terminal :=
  [.punct .bang, .punct .minus] ++ primaryStarts

/-- The classes of tokens that a statement starts with. -/
def statementStarts : List Terminal :=
  [.keyword .forWord, .keyword .ifWord, .keyword .whileWord, .keyword .returnWord,
    .keyword .printWord, .punct .leftBrace] ++ expressionStarts

/-- The classes of tokens that a declaration starts with. -/
def declarationStarts : List Terminal :=
  [.keyword .classWord, .keyword .funcWord, .keyword .varWord] ++ statementStarts

namespace Phrase

/-- The classes of tokens that a phrase starts with, if it cannot be empty. -/
def starts : Phrase → Option (List Terminal)
  | .expression _ | .operation _ _ | .unary _ | .arguments _ | .expressionStatement _ =>
    some expressionStarts
  | .primary _ => some primaryStarts
  | .binding _ => some [.keyword .varWord]
  | .statement _ _ => some statementStarts
  | .declaration _ => some declarationStarts
  | .function _ | .parameters _ => some [.identifier]
  | _ => none

end Phrase

theorem Token.terminal_of_literal? {t : Token} {v : Literal} (h : t.literal? = some v) :
    t.terminal ∈ literalTerminals := by
  unfold Token.literal? at h
  unfold Token.terminal
  split at h
  case h_6 => cases h
  all_goals
    next hkind =>
    rw [hkind]
    simp [Kind.terminal, literalTerminals]

theorem Token.literal?_of_terminal {t : Token} (h : t.terminal ∈ literalTerminals) :
    ∃ v, t.literal? = some v := by
  unfold Token.terminal at h
  unfold Token.literal?
  cases hkind : t.kind with
  | string contents => exact ⟨.string contents, rfl⟩
  | number value => exact ⟨.number value, rfl⟩
  | keyword k =>
    rw [hkind] at h
    cases k <;> first | exact ⟨_, rfl⟩ | (simp [Kind.terminal, literalTerminals] at h)
  | punct | identifier | eof => simp [hkind, Kind.terminal, literalTerminals] at h

/-- The nodes of a level are of one of two sorts. -/
theorem Level.node_eq {level : Level} {tighter : List Level} (hs : level :: tighter <:+ Level.all) :
    level.node = .logical ∨ level.node = .binary := by
  simp only [Level.all, List.suffix_cons_iff, List.cons.injEq, List.suffix_nil, reduceCtorEq,
    or_false] at hs
  rcases hs with ⟨rfl, -⟩ | ⟨rfl, -⟩ | ⟨rfl, -⟩ | ⟨rfl, -⟩ | ⟨rfl, -⟩ | ⟨rfl, -⟩ <;> simp

/-- A phrase that cannot be empty starts with one of the tokens for it. -/
theorem Reads.starts {phrase : Phrase} {i j : NodeId} {ts : List Token} (h : Reads phrase i ts j)
    {starts : List Terminal} (hstarts : phrase.starts = some starts) :
    ∃ t us, ts = t :: us ∧ t.terminal ∈ starts := by
  induction h generalizing starts with cases hstarts
  | value _ ih | tightest _ ih | argumentsOne _ ih =>
    obtain ⟨t, us, rfl, ht⟩ := ih rfl
    exact ⟨t, us, rfl, ht⟩
  | assign _ _ _ ih | set _ _ _ ih | level _ _ ih | argumentsCons _ _ _ ih
  | expressionStatement _ _ ih =>
    obtain ⟨t, us, rfl, ht⟩ := ih rfl
    exact ⟨t, _, rfl, ht⟩
  | operand _ _ ih =>
    obtain ⟨t, us, rfl, ht⟩ := ih rfl
    exact ⟨t, _, rfl, List.mem_append_right _ ht⟩
  | varDecl _ ih =>
    obtain ⟨t, us, rfl, ht⟩ := ih rfl
    exact ⟨t, us, rfl, List.mem_append_left _ (List.mem_cons_of_mem _ (List.mem_cons_of_mem _ ht))⟩
  | expression _ ih | statement _ ih =>
    obtain ⟨t, us, rfl, ht⟩ := ih rfl
    exact ⟨t, us, rfl, List.mem_append_right _ ht⟩
  | literal h => exact ⟨_, _, rfl, List.mem_append_left _ (Token.terminal_of_literal? h)⟩
  | sign h => exact ⟨_, _, rfl, List.mem_append_left _ h⟩
  | this h | parent h | name h | grouping h | binding h | print h | giveBack h | branch h
  | branchElse h | loop h | counting h | block h | classDecl h | funcDecl h | function h
  | parametersOne h | parametersCons h => exact ⟨_, _, rfl, by rw [h]; decide⟩

end Treewalk
