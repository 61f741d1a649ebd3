import Treewalk.Fault

/-! The grammar of the language in extended Backus–Naur form, and what it derives. `Symbol.form`
gives the right-hand side of each symbol, and `Derives.matches` is induction over derivations: a
family of languages that every right-hand side stays in contains all that is derived. -/

namespace Treewalk.Ebnf

/-- The symbols of the grammar. -/
inductive Symbol
  | program | declaration | classDecl | funcDecl | function | varDecl
  | statement | exprStmt | forStmt | ifStmt | printStmt | returnStmt | whileStmt | block
  | parameters
  | expression | assignment | logicOr | logicAnd | equality | comparison | term | factor | unary
  | call | arguments | primary
  deriving DecidableEq, Repr

/-- Right-hand sides. `atMost n f` is `( f )*` where `f` stands no more than `n` times. -/
inductive Form
  | terminal (t : Terminal)
  | symbol (s : Symbol)
  | seq (first second : Form)
  | alt (left right : Form)
  | opt (f : Form)
  | many (f : Form)
  | atMost (n : Nat) (f : Form)

instance : Coe Symbol Form := ⟨.symbol⟩
instance : Coe Terminal Form := ⟨.terminal⟩
instance : Append Form := ⟨.seq⟩
instance : OrOp Form := ⟨.alt⟩

def mark (p : Punct) : Form := .terminal (.punct p)

def word (k : Keyword) : Form := .terminal (.keyword k)

def ident : Form := .terminal .identifier

/-- The grammar. A list of parameters or of arguments has at most `maxArguments` entries. -/
def Symbol.form : Symbol → Form
  | program => .many declaration ++ .terminal .eof
  | declaration => classDecl ||| funcDecl ||| varDecl ||| statement
  | classDecl =>
    word .classWord ++ ident ++ .opt (mark .less ++ ident) ++ mark .leftBrace ++
      .many function ++ mark .rightBrace
  | funcDecl => word .funcWord ++ function
  | function => ident ++ mark .leftParen ++ .opt parameters ++ mark .rightParen ++ block
  | varDecl => word .varWord ++ ident ++ .opt (mark .equal ++ expression) ++ mark .semicolon
  | statement =>
    exprStmt ||| forStmt ||| ifStmt ||| printStmt ||| returnStmt ||| whileStmt ||| block
  | exprStmt => expression ++ mark .semicolon
  | forStmt =>
    word .forWord ++ mark .leftParen ++ (varDecl ||| exprStmt ||| mark .semicolon) ++
      .opt expression ++ mark .semicolon ++ .opt expression ++ mark .rightParen ++ statement
  | ifStmt =>
    word .ifWord ++ mark .leftParen ++ expression ++ mark .rightParen ++ statement ++
      .opt (word .elseWord ++ statement)
  | printStmt => word .printWord ++ expression ++ mark .semicolon
  | returnStmt => word .returnWord ++ .opt expression ++ mark .semicolon
  | whileStmt =>
    word .whileWord ++ mark .leftParen ++ expression ++ mark .rightParen ++ statement
  | block => mark .leftBrace ++ .many declaration ++ mark .rightBrace
  | parameters => ident ++ .atMost (maxArguments - 1) (mark .comma ++ ident)
  | expression => assignment
  | assignment =>
    .opt (call ++ mark .dot) ++ ident ++ mark .equal ++ assignment ||| logicOr
  | logicOr => logicAnd ++ .many (word .orWord ++ logicAnd)
  | logicAnd => equality ++ .many (word .andWord ++ equality)
  | equality => comparison ++ .many ((mark .bangEqual ||| mark .equalEqual) ++ comparison)
  | comparison =>
    term ++
      .many ((mark .greater ||| mark .greaterEqual ||| mark .less ||| mark .lessEqual) ++ term)
  | term => factor ++ .many ((mark .minus ||| mark .plus) ++ factor)
  | factor => unary ++ .many ((mark .slash ||| mark .star) ++ unary)
  | unary => (mark .bang ||| mark .minus) ++ unary ||| call
  | call =>
    primary ++
      .many (mark .leftParen ++ .opt arguments ++ mark .rightParen ||| mark .dot ++ ident)
  | arguments => expression ++ .atMost (maxArguments - 1) (mark .comma ++ expression)
  | primary =>
    .terminal .number ||| .terminal .string ||| word .trueWord ||| word .falseWord |||
      word .nullWord ||| word .thisWord ||| ident |||
      mark .leftParen ++ expression ++ mark .rightParen |||
      word .parentWord ++ mark .dot ++ ident

/-- The token sequences that a right-hand side derives. -/
inductive Derives : Form → List Token → Prop
  | terminal {a : Terminal} {t : Token} (h : t.terminal = a) : Derives (.terminal a) [t]
  | symbol {s : Symbol} {ts : List Token} (h : Derives s.form ts) : Derives (.symbol s) ts
  | seq {f g : Form} {ts us : List Token} (hf : Derives f ts) (hg : Derives g us) :
    Derives (f ++ g) (ts ++ us)
  | left {f g : Form} {ts : List Token} (h : Derives f ts) : Derives (f ||| g) ts
  | right {f g : Form} {ts : List Token} (h : Derives g ts) : Derives (f ||| g) ts
  | absent {f : Form} : Derives (.opt f) []
  | present {f : Form} {ts : List Token} (h : Derives f ts) : Derives (.opt f) ts
  | manyNil {f : Form} : Derives (.many f) []
  | manyCons {f : Form} {ts us : List Token} (h : Derives f ts) (rest : Derives (.many f) us) :
    Derives (.many f) (ts ++ us)
  | atMostNil {n : Nat} {f : Form} : Derives (.atMost n f) []
  | atMostCons {n : Nat} {f : Form} {ts us : List Token} (h : Derives f ts)
    (rest : Derives (.atMost n f) us) : Derives (.atMost (n + 1) f) (ts ++ us)

/-- The sequences that a right-hand side stands for when each symbol `s` stands for those in
`language s`. -/
def Form.Matches (language : Symbol → List Token → Prop) : Form → List Token → Prop
  | .terminal a, ts => ∃ t, t.terminal = a ∧ ts = [t]
  | .symbol s, ts => language s ts
  | .seq f g, ts => ∃ us vs, f.Matches language us ∧ g.Matches language vs ∧ ts = us ++ vs
  | .alt f g, ts => f.Matches language ts ∨ g.Matches language ts
  | .opt f, ts => ts = [] ∨ f.Matches language ts
  | .many f, ts => ∃ parts : List (List Token), (∀ us ∈ parts, f.Matches language us) ∧ ts = parts.flatten
  | .atMost n f, ts =>
    ∃ parts : List (List Token), (∀ us ∈ parts, f.Matches language us) ∧ parts.length ≤ n ∧
      ts = parts.flatten

section
variable {language : Symbol → List Token → Prop} {ts : List Token}

@[simp] theorem matches_terminal {a : Terminal} :
    (Form.terminal a).Matches language ts ↔ ∃ t, t.terminal = a ∧ ts = [t] := Iff.rfl

@[simp] theorem matches_symbol {s : Symbol} :
    (Form.symbol s).Matches language ts ↔ language s ts := Iff.rfl

@[simp] theorem matches_append {f g : Form} :
    (f ++ g).Matches language ts ↔
      ∃ us vs, f.Matches language us ∧ g.Matches language vs ∧ ts = us ++ vs := Iff.rfl

@[simp] theorem matches_or {f g : Form} :
    (f ||| g).Matches language ts ↔ f.Matches language ts ∨ g.Matches language ts := Iff.rfl

@[simp] theorem matches_opt {f : Form} :
    (Form.opt f).Matches language ts ↔ ts = [] ∨ f.Matches language ts := Iff.rfl

@[simp] theorem matches_many {f : Form} :
    (Form.many f).Matches language ts ↔
      ∃ parts : List (List Token), (∀ us ∈ parts, f.Matches language us) ∧ ts = parts.flatten := Iff.rfl

@[simp] theorem matches_atMost {n : Nat} {f : Form} :
    (Form.atMost n f).Matches language ts ↔
      ∃ parts : List (List Token), (∀ us ∈ parts, f.Matches language us) ∧ parts.length ≤ n ∧
        ts = parts.flatten := Iff.rfl

end

/-- Induction over derivations: languages that are closed under the grammar contain what it
derives. -/
theorem Derives.matches {language : Symbol → List Token → Prop}
    (closed : ∀ s ts, s.form.Matches language ts → language s ts) {f : Form} {ts : List Token}
    (h : Derives f ts) : f.Matches language ts := by
  induction h with
  | terminal h => exact ⟨_, h, rfl⟩
  | symbol _ ih => exact closed _ _ ih
  | seq _ _ ihf ihg => exact ⟨_, _, ihf, ihg, rfl⟩
  | left _ ih => exact .inl ih
  | right _ ih => exact .inr ih
  | absent => exact .inl rfl
  | present _ ih => exact .inr ih
  | manyNil => exact ⟨[], by simp, rfl⟩
  | manyCons _ _ ih ihRest =>
    obtain ⟨parts, hparts, rfl⟩ := ihRest
    exact ⟨_ :: parts, by simpa using ⟨ih, hparts⟩, rfl⟩
  | atMostNil => exact ⟨[], by simp, by simp, rfl⟩
  | atMostCons _ _ ih ihRest =>
    obtain ⟨parts, hparts, hlength, rfl⟩ := ihRest
    exact ⟨_ :: parts, by simpa using ⟨ih, hparts⟩, by simpa using hlength, rfl⟩

end Treewalk.Ebnf
