import Treewalk.Proofs.Outline.Constants
import Treewalk.Proofs.Outline.Shapes
import Treewalk.Proofs.Session.Calls
import Treewalk.Proofs.Trees.Rereading
import Treewalk.Proofs.Twins.Lines

/-! Outlines are read back. From its outline, a tree that was read is put together again, but for the
numbers of its occurrences and the lines of its tokens. -/

namespace Treewalk

open Outline

/-! ### The tree of a shape -/

/-- The token that a text is scanned as, on no line. -/
def Token.ofText (text : String) : Token :=
  ⟨match text.toList with
    | [] => .eof
    | c :: s =>
      match (Source.cut c s).1 with
      | .token kind _ => kind
      | _ => .eof,
    text, 0⟩

/-- A constant, `this`, or a name. -/
def Expr.ofWord (text : String) : Expr :=
  match (Token.ofText text).literal? with
  | some value => .literal value
  | none =>
    if (Token.ofText text).terminal = .keyword .thisWord then .this ⟨0, .ofText text⟩
    else .variable ⟨0, .ofText text⟩

/-- The node with this word and these parts. What belongs to no node stands for `null`. -/
def Expr.ofParts : String → List Expr → Expr
  | "group", [inner] => .grouping inner
  | "=", [.variable target, value] => .assign target value
  | "call", callee :: arguments => .call callee Punct.rightParen.token arguments
  | ".", [object, .variable name] => .get object name.name
  | ".=", [object, .variable name, value] => .set object name.name value
  | "parent", [.variable method] => .parent ⟨0, Keyword.parentWord.token⟩ method.name
  | operator, [operand] => .unary (.ofText operator) operand
  | operator, [left, right] =>
    match (Token.ofText operator).kind with
    | .keyword _ => .logical left (.ofText operator) right
    | _ => .binary left (.ofText operator) right
  | _, _ => .literal .null

mutual

def Expr.ofShape : Shape → Expr
  | .word text => .ofWord text
  | .node (.word word :: parts) => .ofParts word (Expr.ofShapes parts)
  | .node _ => .literal .null

def Expr.ofShapes : List Shape → List Expr
  | [] => []
  | s :: rest => Expr.ofShape s :: Expr.ofShapes rest

end

/-- The token of a shape that is a word. -/
def Token.ofShape : Shape → Token
  | .word text => .ofText text
  | .node _ => .ofText ""

/-- The function of a statement that declares one. -/
def Stmt.decl : Stmt → FunctionDecl
  | .function decl => decl
  | _ => ⟨.ofText "", [], []⟩

/-- The node with this word and these parts, the parts being put together as statements, too. What
belongs to no node stands for an empty block. -/
def Stmt.ofParts : String → List Shape → List Stmt → Stmt
  | ";", [value], _ => .expression (.ofShape value)
  | "print", [value], _ => .print (.ofShape value)
  | "var", [name], _ => .var (.ofShape name) none
  | "var", [name, initial], _ => .var (.ofShape name) (some (.ofShape initial))
  | "block", _, body => .block body
  | "if", [condition, _], [_, whenTrue] => .branch (.ofShape condition) whenTrue none
  | "if", [condition, _, _], [_, whenTrue, whenFalse] =>
    .branch (.ofShape condition) whenTrue (some whenFalse)
  | "while", [condition, _], [_, body] => .loop (.ofShape condition) body
  | "return", [], _ => .giveBack Keyword.returnWord.token none
  | "return", [value], _ => .giveBack Keyword.returnWord.token (some (.ofShape value))
  | "class", name :: .word "<" :: parent :: _, _ :: _ :: _ :: methods =>
    .classDecl (.ofShape name) (some ⟨0, .ofShape parent⟩) (methods.map Stmt.decl)
  | "class", name :: _, _ :: methods => .classDecl (.ofShape name) none (methods.map Stmt.decl)
  | _, name :: .node params :: _, _ :: _ :: body =>
    .function ⟨.ofShape name, params.map Token.ofShape, body⟩
  | _, _, _ => .block []

mutual

def Stmt.ofShape : Shape → Stmt
  | .node (.word word :: parts) => .ofParts word parts (Stmt.ofShapes parts)
  | _ => .block []

def Stmt.ofShapes : List Shape → List Stmt
  | [] => []
  | s :: rest => Stmt.ofShape s :: Stmt.ofShapes rest

end

/-- The program that is put together from an outline. -/
def Program.ofOutline (text : String) : Program := Stmt.ofShapes (shapes text)

/-! ### Tokens -/

theorem Token.ofText_eq {kind : Kind} {text : String} (h : Lexeme kind text.toList) :
    ofText text = ⟨kind, text, 0⟩ := by
  obtain ⟨c, s, htext⟩ := List.exists_cons_of_ne_nil h.ne_nil
  rw [htext] at h
  rw [ofText, htext]
  dsimp only
  rw [Source.cut_of_lexeme h]

/-- Marks and reserved words have one text each. -/
theorem Lexeme.spelledOut {kind : Kind} {text : String} (h : Lexeme kind text.toList) :
    kind.SpelledOut text := by
  generalize htext : text.toList = s at h
  cases h with
  | operator p => exact String.toList_inj.mp (htext.trans String.toList_ofList.symm)
  | reserved k => exact String.toList_inj.mp htext
  | string contents => exact String.toList_inj.mp (htext.trans (by simp))
  | _ => trivial

namespace Token

variable {t : Token} {as : List Terminal}

theorem OneOf.ofText (h : t.OneOf as) : Token.ofText t.lexeme = t.unlined := ofText_eq h.2

theorem eq_keyword {k : Keyword} (h : t.terminal = .keyword k)
    (hlexeme : Lexeme t.kind t.lexeme.toList) : t.unlined = k.token := by
  have hspelled := hlexeme.spelledOut
  obtain ⟨kind, lexeme, line⟩ := t
  cases kind <;> cases h
  cases hspelled
  rfl

theorem eq_punct {p : Punct} (h : t.terminal = .punct p)
    (hlexeme : Lexeme t.kind t.lexeme.toList) : t.unlined = p.token := by
  have hspelled := hlexeme.spelledOut
  obtain ⟨kind, lexeme, line⟩ := t
  cases kind <;> cases h
  cases hspelled
  rfl

theorem OneOf.eq_keyword {k : Keyword} (h : t.OneOf [.keyword k]) : t.unlined = k.token :=
  Token.eq_keyword (List.mem_singleton.mp h.1) h.2

theorem OneOf.eq_punct {p : Punct} (h : t.OneOf [.punct p]) : t.unlined = p.token :=
  Token.eq_punct (List.mem_singleton.mp h.1) h.2

end Token

/-! ### Expressions -/

namespace Expr

variable {t : Token}

theorem ofWord_name (h : t.OneOf [.identifier]) : ofWord t.lexeme = .variable ⟨0, t.unlined⟩ := by
  have hkind : t.unlined.kind = .identifier := by
    have hterminal := List.mem_singleton.mp h.1
    unfold Token.terminal at hterminal
    show t.kind = _
    cases hkind : t.kind <;> rw [hkind] at hterminal <;> cases hterminal
  rw [ofWord, h.ofText, Token.literal?, Token.terminal, hkind]
  rfl

theorem ofParts_unary (h : t.OneOf [.punct .bang, .punct .minus]) (operand : Expr) :
    ofParts t.lexeme [operand] = .unary t.unlined operand := by
  obtain ⟨hterminal, hlexeme⟩ := h
  simp only [List.mem_cons, List.not_mem_nil, or_false] at hterminal
  rw [← Token.lexeme_unlined t]
  rcases hterminal with hp | hp <;> rw [Token.eq_punct hp hlexeme] <;> rfl

theorem ofParts_logical (h : t.OneOf [.keyword .orWord, .keyword .andWord]) (left right : Expr) :
    ofParts t.lexeme [left, right] = .logical left t.unlined right := by
  obtain ⟨hterminal, hlexeme⟩ := h
  simp only [List.mem_cons, List.not_mem_nil, or_false] at hterminal
  rw [← Token.lexeme_unlined t]
  rcases hterminal with hk | hk <;> rw [Token.eq_keyword hk hlexeme] <;> rfl

theorem ofParts_binary (h : t.OneOf binaryOperators) (left right : Expr) :
    ofParts t.lexeme [left, right] = .binary left t.unlined right := by
  obtain ⟨hterminal, hlexeme⟩ := h
  simp only [binaryOperators, List.mem_cons, List.not_mem_nil, or_false] at hterminal
  rw [← Token.lexeme_unlined t]
  rcases hterminal with hp | hp | hp | hp | hp | hp | hp | hp | hp | hp <;>
    rw [Token.eq_punct hp hlexeme] <;> rfl

end Expr

mutual

/-- An expression that was read is put together from its shape. -/
theorem Expr.ofShape_shape : (e : Expr) → e.Proper → Expr.ofShape e.shape = e.bare.unlined
  | .literal value, ⟨kind, hlexeme, hliteral⟩ => by
    rw [Expr.shape, Expr.ofShape, Expr.ofWord, Token.ofText_eq hlexeme, hliteral]
    rfl
  | .unary operator operand, h => by
    simp only [Expr.shape, Expr.ofShape, Expr.ofShapes, Expr.ofShape_shape operand h.2]
    exact Expr.ofParts_unary h.1 _
  | .binary left operator right, h => by
    simp only [Expr.shape, Expr.ofShape, Expr.ofShapes, Expr.ofShape_shape left h.2.1,
      Expr.ofShape_shape right h.2.2]
    exact Expr.ofParts_binary h.1 _ _
  | .logical left operator right, h => by
    simp only [Expr.shape, Expr.ofShape, Expr.ofShapes, Expr.ofShape_shape left h.2.1,
      Expr.ofShape_shape right h.2.2]
    exact Expr.ofParts_logical h.1 _ _
  | .grouping inner, h => congrArg Expr.grouping (Expr.ofShape_shape inner h)
  | .variable _, h => Expr.ofWord_name h
  | .assign target value, h => by
    simp only [Expr.shape, Expr.ofShape, Expr.ofShapes, Expr.ofWord_name h.1,
      Expr.ofShape_shape value h.2]
    rfl
  | .call callee paren arguments, h => by
    simp only [Expr.shape, Expr.ofShape, Expr.ofShapes, Expr.ofShape_shape callee h.2.1,
      Expr.ofShapes_shapes arguments h.2.2, Expr.bare, Expr.unlined, h.1.eq_punct]
    rfl
  | .get object name, h => by
    simp only [Expr.shape, Expr.ofShape, Expr.ofShapes, Expr.ofWord_name h.1,
      Expr.ofShape_shape object h.2]
    rfl
  | .set object name value, h => by
    simp only [Expr.shape, Expr.ofShape, Expr.ofShapes, Expr.ofWord_name h.1,
      Expr.ofShape_shape object h.2.1, Expr.ofShape_shape value h.2.2]
    rfl
  | .this receiver, h => by
    have hname : receiver.bare.unlined = ⟨0, Keyword.thisWord.token⟩ :=
      congrArg (Reference.mk 0) h.eq_keyword
    rw [Expr.bare, Expr.unlined, hname]
    rfl
  | .parent keyword method, h => by
    have hname : keyword.bare.unlined = ⟨0, Keyword.parentWord.token⟩ :=
      congrArg (Reference.mk 0) h.1.eq_keyword
    simp only [Expr.shape, Expr.ofShape, Expr.ofShapes, Expr.ofWord_name h.2]
    rw [Expr.bare, Expr.unlined, hname]
    rfl

theorem Expr.ofShapes_shapes : (es : List Expr) → Expr.AllProper es →
    Expr.ofShapes (Expr.shapes es) = Expr.allUnlined (Expr.allBare es)
  | [], _ => rfl
  | e :: rest, h => by
    rw [Expr.shapes, Expr.ofShapes, Expr.ofShape_shape e h.1, Expr.ofShapes_shapes rest h.2,
      Expr.allBare, Expr.allUnlined]

end

/-! ### Statements -/

theorem Token.ofShape_name {t : Token} (h : t.OneOf [.identifier]) :
    Token.ofShape (.word t.lexeme) = t.unlined := h.ofText

mutual

/-- A statement that was read is put together from its shape. -/
theorem Stmt.ofShape_shape : (s : Stmt) → s.Proper → Stmt.ofShape s.shape = s.bare.unlined
  | .expression value, h => congrArg Stmt.expression (Expr.ofShape_shape value h)
  | .print value, h => congrArg Stmt.print (Expr.ofShape_shape value h)
  | .var _ none, h => congrArg (Stmt.var · none) (Token.ofShape_name h)
  | .var _ (some initial), h =>
    congrArg₂ (Stmt.var · <| some ·) (Token.ofShape_name h.1) (Expr.ofShape_shape initial h.2)
  | .block body, h => congrArg Stmt.block (Stmt.ofShapes_shapes body h)
  | .branch condition whenTrue none, h =>
    congrArg₂ (Stmt.branch · · none) (Expr.ofShape_shape condition h.1)
      (Stmt.ofShape_shape whenTrue h.2)
  | .branch condition whenTrue (some whenFalse), h => by
    simp only [Stmt.shape, Stmt.ofShape, Stmt.ofShapes, Stmt.bare, Stmt.unlined,
      ← Expr.ofShape_shape condition h.1, ← Stmt.ofShape_shape whenTrue h.2.1,
      ← Stmt.ofShape_shape whenFalse h.2.2]
    rfl
  | .loop condition body, h =>
    congrArg₂ Stmt.loop (Expr.ofShape_shape condition h.1) (Stmt.ofShape_shape body h.2)
  | .function decl, h => FunctionDecl.ofShape_shape (.inl rfl) decl h
  | .giveBack keyword none, h => congrArg (Stmt.giveBack · none) h.eq_keyword.symm
  | .giveBack keyword (some value), h =>
    congrArg₂ (Stmt.giveBack · <| some ·) h.1.eq_keyword.symm (Expr.ofShape_shape value h.2)
  | .classDecl name none methods, h => by
    have hmethods := FunctionDecl.ofShapes_shapes methods h.2
    rw [Stmt.bare, Stmt.unlined, ← hmethods, ← Token.ofShape_name h.1]
    -- What follows the name is a method, and not the mark in front of a parent.
    cases methods with
    | nil => rfl
    | cons decl rest => cases decl; rfl
  | .classDecl name (some parent) methods, h => by
    have hmethods := FunctionDecl.ofShapes_shapes methods h.2.2
    have hparent : parent.bare.unlined = ⟨0, Token.ofShape (.word parent.name.lexeme)⟩ :=
      congrArg (Reference.mk 0) (Token.ofShape_name h.2.1).symm
    rw [Stmt.bare, Stmt.unlined, ← hmethods, ← Token.ofShape_name h.1, Option.map_some,
      Option.map_some, hparent]
    rfl

theorem Stmt.ofShapes_shapes : (ss : List Stmt) → Stmt.AllProper ss →
    Stmt.ofShapes (Stmt.shapes ss) = Stmt.allUnlined (Stmt.allBare ss)
  | [], _ => rfl
  | s :: rest, h => by
    rw [Stmt.shapes, Stmt.ofShapes, Stmt.ofShape_shape s h.1, Stmt.ofShapes_shapes rest h.2,
      Stmt.allBare, Stmt.allUnlined]

theorem FunctionDecl.ofShape_shape {word : String} (hword : word = "func" ∨ word = "method") :
    (decl : FunctionDecl) → decl.Proper →
      Stmt.ofShape (decl.shape word) = .function decl.bare.unlined
  | ⟨name, params, body⟩, h => by
    have hparams : (params.map fun p => Shape.word p.lexeme).map Token.ofShape =
        params.map Token.unlined := by
      rw [List.map_map]
      exact List.map_congr_left fun p hp => Token.ofShape_name (h.2.1 p hp)
    rw [FunctionDecl.bare, FunctionDecl.unlined, ← Stmt.ofShapes_shapes body h.2.2, ← hparams,
      ← Token.ofShape_name h.1]
    rcases hword with rfl | rfl <;> rfl

theorem FunctionDecl.ofShapes_shapes : (decls : List FunctionDecl) → FunctionDecl.AllProper decls →
    (Stmt.ofShapes (FunctionDecl.shapes "method" decls)).map Stmt.decl =
      FunctionDecl.allUnlined (FunctionDecl.allBare decls)
  | [], _ => rfl
  | decl :: rest, h => by
    rw [FunctionDecl.shapes, Stmt.ofShapes, FunctionDecl.ofShape_shape (.inr rfl) decl h.1,
      List.map_cons, FunctionDecl.ofShapes_shapes rest h.2, FunctionDecl.allBare,
      FunctionDecl.allUnlined, Stmt.decl]

end

/-! ### Programs -/

namespace Session

variable {s s' : Session} {source source' : String} {p q : Program}

/-- A program without strings and without numbers that are too great is read back from its outline. -/
theorem ofOutline_outline (hp : (s.parse source).1 = .ok p)
    (htokens : ∀ t ∈ Source.tokens source, t.Outlined) :
    Program.ofOutline (Program.outline p) = Program.unlined (Stmt.allBare p) := by
  have hproper : Stmt.AllProper p := (reads_of_parse hp).2.proper fun t ht =>
    ⟨Source.lexeme_of_mem_tokens ht, fun _ hv => (htokens t ht).proper_literal ht hv⟩
  rw [Program.ofOutline, Program.shapes_outline hproper, Stmt.ofShapes_shapes p hproper,
    Program.unlined]

/-- Of two such programs with one outline, read in any sessions, neither has a node that the other has
not: they differ at most in the numbers of occurrences and in the lines of tokens. -/
theorem outline_determines_program (hp : (s.parse source).1 = .ok p)
    (hq : (s'.parse source').1 = .ok q) (htokens : ∀ t ∈ Source.tokens source, t.Outlined)
    (htokens' : ∀ t ∈ Source.tokens source', t.Outlined)
    (houtline : Program.outline p = Program.outline q) :
    Program.unlined (Stmt.allBare p) = Program.unlined (Stmt.allBare q) := by
  rw [← ofOutline_outline hp htokens, ← ofOutline_outline hq htokens', houtline]

/-- The second text is laid out in another way, and read in a session that read a name before. -/
theorem outline_determines_program_layout :
    let s := initial .unbounded
    let s' := (s.parse "b;").2
    let mark (p : Punct) (line : Nat) : Token := { p.token with line }
    let a (id : NodeId) (line : Nat) : Expr := .variable ⟨id, ⟨.identifier, "a", line⟩⟩
    let p : Program := [.expression (.binary (a 0 1) (mark .minus 1) (.unary (mark .minus 1) (a 1 1)))]
    let q : Program := [.expression (.binary (a 1 1) (mark .minus 2) (.unary (mark .minus 2) (a 2 3)))]
    (s.parse "a - -a;").1 = .ok p ∧ (s'.parse "a\n- -\na;").1 = .ok q ∧
      Program.unlined (Stmt.allBare p) = Program.unlined (Stmt.allBare q) := by
  intro s s' mark a p q
  have hp : (s.parse "a - -a;").1 = .ok p := by cbv
  have hq : (s'.parse "a\n- -\na;").1 = .ok q := by cbv
  have htokens : Source.tokens "a - -a;" =
      [⟨.identifier, "a", 1⟩, mark .minus 1, mark .minus 1, ⟨.identifier, "a", 1⟩,
        mark .semicolon 1] := by cbv
  have htokens' : Source.tokens "a\n- -\na;" =
      [⟨.identifier, "a", 1⟩, mark .minus 2, mark .minus 2, ⟨.identifier, "a", 3⟩,
        mark .semicolon 3] := by cbv
  have hplain : ∀ t ∈ Source.tokens "a - -a;", t.Outlined := by
    simp [htokens, Token.Outlined, Token.terminal, Kind.terminal, mark, Punct.token]
  have hplain' : ∀ t ∈ Source.tokens "a\n- -\na;", t.Outlined := by
    simp [htokens', Token.Outlined, Token.terminal, Kind.terminal, mark, Punct.token]
  exact ⟨hp, hq, outline_determines_program hp hq hplain hplain' rfl⟩

end Session

end Treewalk
