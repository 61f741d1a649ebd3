import Treewalk.Proofs.Outline.Trees

/-! The shapes of trees. The outline of a tree that was read has the marks of its shape: a word for
every token and every node, and parentheses where the tree has a node. -/

namespace Treewalk

open Outline

mutual

def Expr.shape : Expr → Shape
  | .literal value => .word value.outline
  | .unary operator operand => .node [.word operator.lexeme, operand.shape]
  | .binary left operator right | .logical left operator right =>
    .node [.word operator.lexeme, left.shape, right.shape]
  | .grouping inner => .node [.word "group", inner.shape]
  | .variable target => .word target.name.lexeme
  | .assign target value => .node [.word "=", .word target.name.lexeme, value.shape]
  | .call callee _ arguments => .node (.word "call" :: callee.shape :: Expr.shapes arguments)
  | .get object name => .node [.word ".", object.shape, .word name.lexeme]
  | .set object name value => .node [.word ".=", object.shape, .word name.lexeme, value.shape]
  | .this _ => .word "this"
  | .parent _ method => .node [.word "parent", .word method.lexeme]

def Expr.shapes : List Expr → List Shape
  | [] => []
  | e :: rest => e.shape :: Expr.shapes rest

end

mutual

def FunctionDecl.shape (word : String) : FunctionDecl → Shape
  | ⟨name, params, body⟩ =>
    .node (.word word :: .word name.lexeme :: .node (params.map fun p => .word p.lexeme) ::
      Stmt.shapes body)

def FunctionDecl.shapes (word : String) : List FunctionDecl → List Shape
  | [] => []
  | decl :: rest => decl.shape word :: FunctionDecl.shapes word rest

def Stmt.shape : Stmt → Shape
  | .expression value => .node [.word ";", value.shape]
  | .print value => .node [.word "print", value.shape]
  | .var name (some initial) => .node [.word "var", .word name.lexeme, initial.shape]
  | .var name none => .node [.word "var", .word name.lexeme]
  | .block body => .node (.word "block" :: Stmt.shapes body)
  | .branch condition whenTrue (some whenFalse) =>
    .node [.word "if", condition.shape, whenTrue.shape, whenFalse.shape]
  | .branch condition whenTrue none => .node [.word "if", condition.shape, whenTrue.shape]
  | .loop condition body => .node [.word "while", condition.shape, body.shape]
  | .function decl => decl.shape "func"
  | .giveBack _ (some value) => .node [.word "return", value.shape]
  | .giveBack _ none => .node [.word "return"]
  | .classDecl name (some parent) methods =>
    .node (.word "class" :: .word name.lexeme :: .word "<" :: .word parent.name.lexeme ::
      FunctionDecl.shapes "method" methods)
  | .classDecl name none methods =>
    .node (.word "class" :: .word name.lexeme :: FunctionDecl.shapes "method" methods)

def Stmt.shapes : List Stmt → List Shape
  | [] => []
  | s :: rest => s.shape :: Stmt.shapes rest

end

/-! ### Words -/

theorem Outline.inWord_of_isWordPart {c : Char} (h : Source.isWordPart c = true) : inWord c = true := by
  have hblank : Source.isBlank c = false := by
    rw [Source.isWordPart, Bool.or_eq_true] at h
    exact h.elim Source.isBlank_of_isWordStart Source.isBlank_of_isDigit
  have hne {d : Char} (hd : Source.isWordPart d = false) : c ≠ d := by
    rintro rfl
    rw [h] at hd
    cases hd
  simp [inWord, hblank, hne (d := '(') (by decide), hne (d := ')') (by decide)]

/-- The text of a token is one word, if it is neither a string nor a parenthesis. -/
theorem Lexeme.solid {kind : Kind} {text : String} (h : Lexeme kind text.toList)
    (hopening : kind ≠ .punct .leftParen) (hclosing : kind ≠ .punct .rightParen)
    (hstring : ∀ contents, kind ≠ .string contents) : Solid text := by
  have hdigit {c : Char} (hc : Source.isDigit c = true) : inWord c = true :=
    inWord_of_isWordPart (by rw [Source.isWordPart, hc, Bool.or_true])
  refine ⟨h.ne_nil, ?_⟩
  generalize text.toList = s at h
  cases h with
  | operator p =>
    cases p
    case leftParen => exact absurd rfl hopening
    case rightParen => exact absurd rfl hclosing
    all_goals exact List.all_eq_true.mp rfl
  | whole h => exact fun c hc => hdigit (h.2 c hc)
  | fraction h h' =>
    intro c hc
    obtain hc | hc := List.mem_append.mp hc
    · exact hdigit (h.2 c hc)
    · obtain rfl | hc := List.mem_cons.mp hc
      · decide
      · exact hdigit (h'.2 c hc)
  | reserved k => exact fun c hc => inWord_of_isWordPart (k.forall_mem_spelling c hc)
  | name hc hrest =>
    exact List.forall_mem_cons.mpr
      ⟨inWord_of_isWordPart (Source.isWordPart_of_isWordStart hc),
        fun d hd => inWord_of_isWordPart (hrest d hd)⟩
  | string contents => exact absurd rfl (hstring contents)

/-- The classes of tokens that are told by one word. -/
def wordTerminals (a : Terminal) : Prop :=
  a ≠ .punct .leftParen ∧ a ≠ .punct .rightParen ∧ a ≠ .string

instance (a : Terminal) : Decidable (wordTerminals a) := inferInstanceAs (Decidable (_ ∧ _ ∧ _))

theorem Token.OneOf.solid {t : Token} {as : List Terminal} (h : t.OneOf as)
    (has : ∀ a ∈ as, wordTerminals a) : Solid t.lexeme := by
  obtain ⟨hopening, hclosing, hstring⟩ := has _ h.1
  refine h.2.solid (fun hkind => ?_) (fun hkind => ?_) (fun contents hkind => ?_)
  · exact hopening (by rw [terminal, hkind]; rfl)
  · exact hclosing (by rw [terminal, hkind]; rfl)
  · exact hstring (by rw [terminal, hkind]; rfl)

theorem Literal.Proper.solid {v : Literal} (h : v.Proper) : Solid v.outline := by
  obtain ⟨kind, hlexeme, hliteral⟩ := h
  refine hlexeme.solid ?_ ?_ ?_
  · rintro rfl
    cases hliteral
  · rintro rfl
    cases hliteral
  · rintro contents rfl
    cases hliteral
    -- A string is longer than what is in its quotes.
    generalize htext : (Literal.string contents).outline.toList = text at hlexeme
    cases hlexeme with
    | string contents' hquote =>
      have hlength := congrArg List.length htext
      simp only [Literal.outline, List.length_append, List.length_cons, List.length_nil] at hlength
      omega

/-! ### Outlines -/

section
variable {name : Token}

theorem Outline.tells_name (h : name.OneOf [.identifier]) :
    Tells name.lexeme [.word name.lexeme] :=
  tells_word (h.solid (by decide))

mutual

/-- The outline of an expression that was read has the marks of its shape. -/
theorem Expr.tells_outline : (e : Expr) → e.Proper → Tells e.outline e.shape.marks
  | .literal _, h => tells_word h.solid
  | .unary operator operand, h => by
    have hoperator := tells_word (h.1.solid (by decide))
    have htells := ((ready_opening.append hoperator).blank.append (operand.tells_outline h.2)).closes
    simpa [Expr.outline, Expr.shape] using htells.tells
  | .binary left operator right, h | .logical left operator right, h => by
    have hoperator := tells_word (h.1.solid (by decide))
    have hleft := (ready_opening.append hoperator).blank.append (left.tells_outline h.2.1)
    have htells := (hleft.blank.append (right.tells_outline h.2.2)).closes
    simpa [Expr.outline, Expr.shape] using htells.tells
  | .grouping inner, h => by
    have hword : Ready "(group " [.opening, .word "group"] := fun _ => rfl
    have htells := (hword.append (inner.tells_outline h)).closes
    simpa [Expr.outline, Expr.shape] using htells.tells
  | .variable _, h => tells_name h
  | .assign _ value, h => by
    have hword : Ready "(= " [.opening, .word "="] := fun _ => rfl
    have htells := ((hword.append (tells_name h.1)).blank.append (value.tells_outline h.2)).closes
    simpa [Expr.outline, Expr.shape] using htells.tells
  | .call callee _ arguments, h => by
    have hword : Ready "(call " [.opening, .word "call"] := fun _ => rfl
    have htells := ((hword.append (callee.tells_outline h.2.1)).spaced
      (Expr.tells_outlines arguments h.2.2)).closes
    simpa [Expr.outline, Expr.shape, Shape.allMarks_eq] using htells.tells
  | .get object _, h => by
    have hword : Ready "(. " [.opening, .word "."] := fun _ => rfl
    have htells := ((hword.append (object.tells_outline h.2)).blank.append (tells_name h.1)).closes
    simpa [Expr.outline, Expr.shape] using htells.tells
  | .set object _ value, h => by
    have hword : Ready "(.= " [.opening, .word ".="] := fun _ => rfl
    have htarget := (hword.append (object.tells_outline h.2.1)).blank.append (tells_name h.1)
    have htells := (htarget.blank.append (value.tells_outline h.2.2)).closes
    simpa [Expr.outline, Expr.shape] using htells.tells
  | .this _, _ => tells_word (show Solid "this" by decide)
  | .parent _ _, h => by
    have hword : Ready "(parent " [.opening, .word "parent"] := fun _ => rfl
    have htells := (hword.append (tells_name h.2)).closes
    simpa [Expr.outline, Expr.shape] using htells.tells

theorem Expr.tells_outlines : (es : List Expr) → Expr.AllProper es →
    List.Forall₂ Tells (Expr.outlines es) ((Expr.shapes es).map Shape.marks)
  | [], _ => .nil
  | e :: rest, h => .cons (e.tells_outline h.1) (Expr.tells_outlines rest h.2)

end

mutual

/-- The outline of a statement that was read has the marks of its shape. -/
theorem Stmt.tells_outline : (s : Stmt) → s.Proper → Tells s.outline s.shape.marks
  | .expression value, h => by
    have hword : Ready "(; " [.opening, .word ";"] := fun _ => rfl
    have htells := (hword.append (value.tells_outline h)).closes
    simpa [Stmt.outline, Stmt.shape] using htells.tells
  | .print value, h => by
    have hword : Ready "(print " [.opening, .word "print"] := fun _ => rfl
    have htells := (hword.append (value.tells_outline h)).closes
    simpa [Stmt.outline, Stmt.shape] using htells.tells
  | .var _ none, h => by
    have hword : Ready "(var " [.opening, .word "var"] := fun _ => rfl
    have htells := (hword.append (tells_name h)).closes
    simpa [Stmt.outline, Stmt.shape] using htells.tells
  | .var _ (some initial), h => by
    have hword : Ready "(var " [.opening, .word "var"] := fun _ => rfl
    have htells := ((hword.append (tells_name h.1)).blank.append (initial.tells_outline h.2)).closes
    simpa [Stmt.outline, Stmt.shape] using htells.tells
  | .block body, h => by
    have hword := tells_word (show Solid "block" by decide)
    have htells := ((ready_opening.append hword).spaced (Stmt.tells_outlines body h)).closes
    simpa [Stmt.outline, Stmt.shape, Shape.allMarks_eq] using htells.tells
  | .branch condition whenTrue none, h => by
    have hword : Ready "(if " [.opening, .word "if"] := fun _ => rfl
    have htells := ((hword.append (condition.tells_outline h.1)).blank.append
      (whenTrue.tells_outline h.2)).closes
    simpa [Stmt.outline, Stmt.shape] using htells.tells
  | .branch condition whenTrue (some whenFalse), h => by
    have hword : Ready "(if " [.opening, .word "if"] := fun _ => rfl
    have htells := (((hword.append (condition.tells_outline h.1)).blank.append
      (whenTrue.tells_outline h.2.1)).blank.append (whenFalse.tells_outline h.2.2)).closes
    simpa [Stmt.outline, Stmt.shape] using htells.tells
  | .loop condition body, h => by
    have hword : Ready "(while " [.opening, .word "while"] := fun _ => rfl
    have htells := ((hword.append (condition.tells_outline h.1)).blank.append
      (body.tells_outline h.2)).closes
    simpa [Stmt.outline, Stmt.shape] using htells.tells
  | .function decl, h => decl.tells_outline (by decide) h
  | .giveBack _ none, _ => by
    have hword : Ready "(return)" [.opening, .word "return", .closing] := fun _ => rfl
    simpa [Stmt.outline, Stmt.shape] using hword.tells
  | .giveBack _ (some value), h => by
    have hword : Ready "(return " [.opening, .word "return"] := fun _ => rfl
    have htells := (hword.append (value.tells_outline h.2)).closes
    simpa [Stmt.outline, Stmt.shape] using htells.tells
  | .classDecl _ none methods, h => by
    have hword : Ready "(class " [.opening, .word "class"] := fun _ => rfl
    have htells := ((hword.append (tells_name h.1)).spaced
      (FunctionDecl.tells_outlines (show Solid "method" by decide) methods h.2)).closes
    simpa [Stmt.outline, Stmt.shape, Shape.allMarks_eq] using htells.tells
  | .classDecl _ (some _) methods, h => by
    have hword : Ready "(class " [.opening, .word "class"] := fun _ => rfl
    have htells := (((hword.append (tells_name h.1)).less.append (tells_name h.2.1)).spaced
      (FunctionDecl.tells_outlines (show Solid "method" by decide) methods h.2.2)).closes
    simpa [Stmt.outline, Stmt.shape, Shape.allMarks_eq, String.append_assoc] using htells.tells

theorem Stmt.tells_outlines : (ss : List Stmt) → Stmt.AllProper ss →
    List.Forall₂ Tells (Stmt.outlines ss) ((Stmt.shapes ss).map Shape.marks)
  | [], _ => .nil
  | s :: rest, h => .cons (s.tells_outline h.1) (Stmt.tells_outlines rest h.2)

theorem FunctionDecl.tells_outline {word : String} (hword : Solid word) :
    (decl : FunctionDecl) → decl.Proper → Tells (decl.outline word) (decl.shape word).marks
  | ⟨name, params, body⟩, h => by
    have hparams : List.Forall₂ Tells (params.map Token.lexeme)
        ((params.map fun p => Shape.word p.lexeme).map Shape.marks) := by
      rw [List.map_map, List.forall₂_map_left_iff, List.forall₂_map_right_iff, List.forall₂_same]
      exact fun p hp => tells_name (h.2.1 p hp)
    have hhead := (ready_opening.append (tells_word hword)).blank.append (tells_name h.1)
    have htells := ((hhead.opens.append (tells_separated Tells.blank hparams)).closesBlank.append
      (tells_separated Tells.blank (Stmt.tells_outlines body h.2.2))).closes
    simpa [FunctionDecl.outline, FunctionDecl.shape, Shape.allMarks_eq] using htells.tells

theorem FunctionDecl.tells_outlines {word : String} (hword : Solid word) :
    (decls : List FunctionDecl) → FunctionDecl.AllProper decls →
      List.Forall₂ Tells (FunctionDecl.outlines word decls)
        ((FunctionDecl.shapes word decls).map Shape.marks)
  | [], _ => .nil
  | decl :: rest, h =>
    .cons (decl.tells_outline hword h.1) (FunctionDecl.tells_outlines hword rest h.2)

end

/-- The shapes of the statements of a program are put together from its outline. -/
theorem Program.shapes_outline {p : Program} (h : Stmt.AllProper p) :
    shapes (Program.outline p) = Stmt.shapes p := by
  refine shapes_of_tells ?_
  rw [Shape.allMarks_eq]
  exact tells_separated Tells.newline (Stmt.tells_outlines p h)

end

end Treewalk
