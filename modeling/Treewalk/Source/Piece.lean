import Treewalk.Token

/-! Source text as a sequence of pieces. Every character belongs to exactly one piece, in order:
a blank, a comment, a token, a character that starts nothing, or a string that never closes.
The main lemma is that the pieces of a text, joined, are the text. -/

namespace Treewalk

/-- A stretch of source text that is read as one. -/
inductive Piece
  | blank (c : Char)
  | lineComment (text : List Char)
  | blockComment (text : List Char)
  | token (kind : Kind) (text : List Char)
  | unexpected (c : Char)
  | unterminated (text : List Char)

/-- The characters of a piece. -/
def Piece.text : Piece → List Char
  | blank c => [c]
  | lineComment text => text
  | blockComment text => text
  | token _ text => text
  | unexpected c => [c]
  | unterminated text => text

namespace Source

def isBlank (c : Char) : Bool :=
  c == ' ' || c == '\t' || c == '\r' || c == '\n'

/-- The digits of a number: ASCII only. -/
def isDigit (c : Char) : Bool :=
  decide ('0' ≤ c) && decide (c ≤ '9')

/-- The characters that start a word: ASCII letters and the underscore. -/
def isWordStart (c : Char) : Bool :=
  (decide ('a' ≤ c) && decide (c ≤ 'z')) || (decide ('A' ≤ c) && decide (c ≤ 'Z')) || c == '_'

def isWordPart (c : Char) : Bool :=
  isWordStart c || isDigit c

/-- How many characters after an opening mark belong to a block comment, `depth` comments being
open. Marks are two characters and are taken whole; a text that ends first ends the comment. -/
def commentLength : (depth : Nat) → (length : Nat) → List Char → Nat
  | 0, length, _ => length
  | depth + 1, length, '*' :: '/' :: rest => commentLength depth (length + 2) rest
  | depth + 1, length, '/' :: '*' :: rest => commentLength (depth + 2) (length + 2) rest
  | depth + 1, length, _ :: rest => commentLength (depth + 1) (length + 1) rest
  | _ + 1, length, [] => length

theorem commentLength_le (depth length : Nat) (s : List Char) :
    commentLength depth length s ≤ length + s.length := by
  fun_induction commentLength depth length s <;> simp_all <;> omega

/-- The end of a number that starts with a digit: more digits, and a point with digits if a digit
follows the point. -/
def numberSpan (s : List Char) : List Char × List Char :=
  let whole := s.takeWhile isDigit
  match s.dropWhile isDigit with
  | '.' :: d :: rest =>
    if isDigit d then (whole ++ '.' :: d :: rest.takeWhile isDigit, rest.dropWhile isDigit)
    else (whole, '.' :: d :: rest)
  | rest => (whole, rest)

theorem numberSpan_append (s : List Char) : (numberSpan s).1 ++ (numberSpan s).2 = s := by
  unfold numberSpan
  have h := List.takeWhile_append_dropWhile (p := isDigit) (l := s)
  split
  · next d rest hs =>
    rw [hs] at h
    split <;> simp_all [List.takeWhile_append_dropWhile]
  · exact h

/-- The double nearest to a number's text. -/
def numberValue (text : List Char) : Float :=
  let digits := text.filter isDigit
  let places := (text.dropWhile isDigit).length - 1
  Float.ofScientific (digits.foldl (fun n c => 10 * n + (c.toNat - '0'.toNat)) 0) true places

/-- The class of a word: reserved, or a name. -/
def wordKind (word : List Char) : Kind :=
  match Keyword.ofSpelling? (String.ofList word) with
  | some k => .keyword k
  | none => .identifier

/-- The string that starts after an opening quote: it ends at the next quote, on whatever line. -/
def cutString (s : List Char) : Piece × List Char :=
  let contents := s.takeWhile (· != '"')
  match s.dropWhile (· != '"') with
  | quote :: rest => (.token (.string (String.ofList contents)) ('"' :: contents ++ [quote]), rest)
  | [] => (.unterminated ('"' :: contents), [])

/-- The longest mark that starts here; a character that starts none is a piece by itself. -/
def cutMark (c : Char) (s : List Char) : Piece × List Char :=
  match s.head?.bind (Punct.ofPair? c) with
  | some p => (.token (.punct p) p.spelling, s.tail)
  | none =>
    match Punct.ofChar? c with
    | some p => (.token (.punct p) p.spelling, s)
    | none => (.unexpected c, s)

/-- The first piece of the text `c :: s`, and the text behind it. -/
def cut (c : Char) (s : List Char) : Piece × List Char :=
  if isBlank c then (.blank c, s)
  else if isDigit c then
    let (text, rest) := numberSpan (c :: s)
    (.token (.number (numberValue text)) text, rest)
  else if isWordStart c then
    let text := c :: s.takeWhile isWordPart
    (.token (wordKind text) text, s.dropWhile isWordPart)
  else if c = '"' then cutString s
  else match c, s with
  | '/', '/' :: t =>
    (.lineComment ('/' :: '/' :: t.takeWhile (· != '\n')), t.dropWhile (· != '\n'))
  | '/', '*' :: t =>
    let n := commentLength 1 0 t
    (.blockComment ('/' :: '*' :: t.take n), t.drop n)
  | c, s => cutMark c s

theorem cutString_append (s : List Char) :
    (cutString s).1.text ++ (cutString s).2 = '"' :: s := by
  have h := List.takeWhile_append_dropWhile (p := (· != '"')) (l := s)
  unfold cutString
  dsimp only
  split
  · next hs => rw [hs] at h; simp [Piece.text, h]
  · next hs => rw [hs] at h; simp_all [Piece.text]

theorem cutMark_append (c : Char) (s : List Char) :
    (cutMark c s).1.text ++ (cutMark c s).2 = c :: s := by
  unfold cutMark
  split
  · next p hp =>
    cases s with
    | nil => simp at hp
    | cons d t => simp [Piece.text, Punct.ofPair?_spelling hp]
  · split
    · next p hp => simp [Piece.text, Punct.ofChar?_spelling hp]
    · rfl

/-- Cutting loses no character. -/
theorem cut_append (c : Char) (s : List Char) : (cut c s).1.text ++ (cut c s).2 = c :: s := by
  unfold cut
  split
  · rfl
  split
  · exact numberSpan_append (c :: s)
  split
  · simp [Piece.text, List.takeWhile_append_dropWhile]
  split
  · next h => rw [h]; exact cutString_append s
  split
  · simp [Piece.text, List.takeWhile_append_dropWhile]
  · simp [Piece.text, List.take_append_drop]
  · exact cutMark_append _ _

theorem numberSpan_ne_nil {c : Char} (s : List Char) (h : isDigit c = true) :
    (numberSpan (c :: s)).1 ≠ [] := by
  unfold numberSpan
  simp only [List.takeWhile_cons, h, if_true]
  split
  · split <;> simp
  · simp

theorem cutString_text_ne_nil (s : List Char) : (cutString s).1.text ≠ [] := by
  unfold cutString
  dsimp only
  split <;> simp [Piece.text]

theorem cutMark_text_ne_nil (c : Char) (s : List Char) : (cutMark c s).1.text ≠ [] := by
  unfold cutMark
  split
  · next p _ => cases p <;> simp [Piece.text, Punct.spelling]
  · split
    · next p _ => cases p <;> simp [Piece.text, Punct.spelling]
    · simp [Piece.text]

/-- Every piece has text, so cutting makes the source shorter. -/
theorem cut_text_ne_nil (c : Char) (s : List Char) : (cut c s).1.text ≠ [] := by
  unfold cut
  split
  · simp [Piece.text]
  split
  · next h => exact numberSpan_ne_nil s h
  split
  · simp [Piece.text]
  split
  · exact cutString_text_ne_nil s
  split
  · simp [Piece.text]
  · simp [Piece.text]
  · exact cutMark_text_ne_nil _ _

theorem cut_length_lt (c : Char) (s : List Char) : (cut c s).2.length < (c :: s).length := by
  have h := congrArg List.length (cut_append c s)
  have hne := List.length_pos_iff.mpr (cut_text_ne_nil c s)
  simp only [List.length_append] at h
  omega

/-- The pieces of a text, in order. -/
def pieces : List Char → List Piece
  | [] => []
  | c :: s => (cut c s).1 :: pieces (cut c s).2
termination_by s => s.length
decreasing_by exact cut_length_lt c s

@[simp] theorem pieces_nil : pieces [] = [] := by simp [pieces]

theorem pieces_cons (c : Char) (s : List Char) :
    pieces (c :: s) = (cut c s).1 :: pieces (cut c s).2 := by
  rw [pieces]

/-- The pieces of a text, joined, are the text. -/
theorem flatMap_text_pieces (s : List Char) : (pieces s).flatMap Piece.text = s := by
  fun_induction pieces s with
  | case1 => rfl
  | case2 c s ih => rw [List.flatMap_cons, ih, cut_append]

end Source

end Treewalk
