import Treewalk.Fault
import Treewalk.Source.Piece

/-! The items of a source text: its tokens and lexical faults with their lines. A line is one more
than the number of newlines up to the end of the item's text; the end mark carries the last
line. -/

namespace Treewalk.Source

/-- A token, or a stretch of text that is none. -/
inductive Item
  | token (t : Token)
  | fault (line : Nat) (fault : LexFault)

def newlines (s : List Char) : Nat :=
  s.count '\n'

/-- What a piece yields when its last character is on `line`: blanks and comments yield nothing. -/
def item? (line : Nat) : Piece → Option Item
  | .token kind text => some (.token ⟨kind, String.ofList text, line⟩)
  | .unexpected c => some (.fault line (.unexpectedCharacter c))
  | .unterminated _ => some (.fault line .unterminatedString)
  | .blank _ | .lineComment _ | .blockComment _ => none

/-- The items of consecutive pieces, the first of which starts on `line`. -/
def itemsFrom (line : Nat) : List Piece → List Item
  | [] => []
  | p :: rest =>
    let line := line + newlines p.text
    match item? line p with
    | some item => item :: itemsFrom line rest
    | none => itemsFrom line rest

/-- The mark behind the last token. -/
def endMark (source : String) : Token :=
  ⟨.eof, "", 1 + newlines source.toList⟩

/-- The items of a source text in order, up to the end mark. -/
def items (source : String) : List Item :=
  itemsFrom 1 (pieces source.toList)

/-- The items of a source text, closed by the end mark. -/
def stream (source : String) : List Item :=
  items source ++ [.token (endMark source)]

/-- The tokens of a source text in order, without the end mark. -/
def tokens (source : String) : List Token :=
  (items source).filterMap fun
    | .token t => some t
    | .fault .. => none

/-- The lexical faults of a source text in order. -/
def faults (source : String) : List Diagnostic :=
  (items source).filterMap fun
    | .token _ => none
    | .fault line fault => some (.lex line fault)

/-- Scanning goes piece by piece. -/
theorem itemsFrom_cons (line : Nat) (p : Piece) (rest : List Piece) :
    itemsFrom line (p :: rest) =
      (item? (line + newlines p.text) p).toList ++ itemsFrom (line + newlines p.text) rest := by
  rw [itemsFrom]
  split <;> simp_all

theorem newlines_append (s t : List Char) : newlines (s ++ t) = newlines s + newlines t := by
  simp [newlines]

/-- Scanning goes on behind a run of pieces on the line where the run ends. -/
theorem itemsFrom_append (line : Nat) (ps qs : List Piece) :
    itemsFrom line (ps ++ qs) =
      itemsFrom line ps ++ itemsFrom (line + newlines (ps.flatMap Piece.text)) qs := by
  induction ps generalizing line with
  | nil => simp [itemsFrom, newlines]
  | cons p rest ih => simp [itemsFrom_cons, ih, newlines_append, Nat.add_assoc]

end Treewalk.Source
