import Treewalk.Proofs.Source.Encoding
import Treewalk.Source.Scanner

/-! The scanner as a caret that goes over the bytes of a source text and counts the newlines that it
meets. It watches itself: it stops where it would read a byte that is not there, or cut the text inside
a character. -/

namespace Treewalk.Source

/-- The source text, where the piece under way begins, where the next byte is, the line, and the class
of the token that was found, if one was. -/
structure Caret where
  text : List Char
  start : Nat
  curr : Nat
  line : Nat
  pending : Option Kind

namespace Caret

/-- In front of the first byte. -/
def begin (source : String) : Caret := ⟨source.toList, 0, 0, 1, none⟩

/-- The bytes of the source text. -/
def src (c : Caret) : List Char := bytes c.text

/-- Why a move is not made: it asks for a byte that is not there, it cuts inside a character, or the
count of steps ran out. -/
inductive Stop
  | outside
  | inside
  | exhausted

/-- A move of the caret. -/
abbrev Move := EStateM Stop Caret

/-! ### Bytes and texts -/

/-- The byte at this place. -/
def byteAt (place : Nat) : Move Char := do
  match (← get).src[place]? with
  | some b => return b
  | none => throw .outside

/-- The bytes from one place to another. -/
def bytesBetween (a b : Nat) : Move (List Char) := do
  let c ← get
  if a ≤ b ∧ b ≤ c.src.length then return (c.src.drop a).take (b - a) else throw .outside

/-- The text from one place to another. -/
def textBetween (a b : Nat) : Move (List Char) := do
  match slice (← get).text a b with
  | some s => return s
  | none => throw .inside

/-- The text from one place to the end. -/
def textFrom (a : Nat) : Move (List Char) := do
  match dropBytes (← get).text a with
  | some s => return s
  | none => throw .inside

/-! ### Steps -/

def jump (n : Nat) : Move Unit :=
  modify fun c => { c with curr := c.curr + n }

def newline : Move Unit :=
  modify fun c => { c with line := c.line + 1 }

/-- A token of this class was found. -/
def emit (kind : Kind) : Move Unit :=
  modify fun c => { c with pending := some kind }

def atEnd : Move Bool := do
  let c ← get
  return decide (c.src.length ≤ c.curr)

/-- Goes past the next byte. -/
def advance : Move Char := do
  let b ← byteAt (← get).curr
  jump 1
  return b

/-- The next byte, or NUL at the end. -/
def peek : Move Char := do
  if ← atEnd then return '\x00' else byteAt (← get).curr

/-- The byte behind the next one, or NUL if there is none. -/
def peekNext : Move Char := do
  let c ← get
  if c.src.length ≤ c.curr + 1 then return '\x00' else byteAt (c.curr + 1)

/-- Goes past the next byte if it is this one. -/
def matchByte (expected : Char) : Move Bool := do
  if ← atEnd then return false
  else if (← peek) = expected then
    let _ ← advance
    return true
  else return false

/-! ### Loops -/

/-- A count of steps that no loop needs. -/
def steps : Move Nat := do
  return (← get).src.length + 1

/-- Goes on as long as the next byte has a property, in at most so many steps. -/
def passWhile (p : Char → Bool) : Nat → Move Unit
  | 0 => throw .exhausted
  | n + 1 => do
    if p (← peek) then
      let _ ← advance
      passWhile p n
    else return ()

/-- Goes to the next quote, or to the end, and counts the newlines on the way. -/
def passQuoted : Nat → Move Unit
  | 0 => throw .exhausted
  | n + 1 => do
    if ← atEnd then return ()
    else if (← peek) = '"' then return ()
    else
      if (← advance) = '\n' then newline
      passQuoted n

/-- Goes to the end of a block comment, `depth` comments being open, and counts the newlines on the
way. -/
def passComment : Nat → (depth : Nat) → Move Unit
  | 0, _ => throw .exhausted
  | _ + 1, 0 => return ()
  | n + 1, depth + 1 => do
    if ← atEnd then return ()
    else
      let b ← peek
      let d ← peekNext
      if b = '*' ∧ d = '/' then
        jump 2
        passComment n depth
      else if b = '/' ∧ d = '*' then
        jump 2
        passComment n (depth + 2)
      else if b = '\n' then
        newline
        jump 1
        passComment n (depth + 1)
      else
        jump 1
        passComment n (depth + 1)

/-! ### Pieces -/

/-- Goes to the end of the line. The newline is not passed, and so not counted twice. -/
def lineComment : Move Unit := do
  let c ← get
  match (← bytesBetween c.curr c.src.length).findIdx? (· == '\n') with
  | some n => jump n
  | none => set { c with curr := c.src.length }

/-- The rest of a string, the opening quote being passed. -/
def string : Move (Option Item) := do
  passQuoted (← steps)
  if ← atEnd then return some (.fault (← get).line .unterminatedString)
  else
    let _ ← advance
    let c ← get
    let contents ← textBetween (c.start + 1) (c.curr - 1)
    emit (.string (.ofList contents))
    return none

/-- What digits are read as, or digits with a point between them. Nothing else is asked for. -/
def numberOf? (s : List Char) : Option Float :=
  if s.head?.any isDigit ∧ (numberSpan s).2 = [] then some (numberValue s) else none

/-- A point with a digit behind it is passed, and all digits behind it. -/
def fraction : Move Unit := do
  if (← peek) = '.' ∧ isDigit (← peekNext) then
    let _ ← advance
    passWhile isDigit (← steps)

/-- The rest of a number, the first digit being passed. -/
def number : Move Unit := do
  passWhile isDigit (← steps)
  fraction
  let c ← get
  let digits ← textBetween c.start c.curr
  emit (.number ((numberOf? digits).getD 0.0))

/-- The rest of a word, the first letter being passed. -/
def word : Move Unit := do
  passWhile isWordPart (← steps)
  let c ← get
  let letters ← bytesBetween c.start c.curr
  emit (wordKind letters)

/-- A character that starts nothing: all of its bytes are passed. -/
def unexpected : Move (Option Item) := do
  let c ← get
  let x := (← textFrom c.start).head?.getD '\uFFFD'
  set { c with curr := c.start + x.utf8Size }
  return some (.fault c.line (.unexpectedCharacter x))

/-- Goes past one piece. A token that it is stays pending, a fault in it is given back. -/
def scanToken : Move (Option Item) := do
  let b ← advance
  if b = ' ' ∨ b = '\r' ∨ b = '\t' then return none
  else if b = '\n' then
    newline
    return none
  else if b = '/' then
    if ← matchByte '/' then
      lineComment
      return none
    else if ← matchByte '*' then
      passComment (← steps) 1
      return none
    else
      emit (.punct .slash)
      return none
  else if b = '"' then string
  else if isDigit b then
    number
    return none
  else if isWordStart b then
    word
    return none
  else
    match Punct.ofPair? b '=', Punct.ofChar? b with
    | some long, some short =>
      emit (.punct (if ← matchByte '=' then long else short))
      return none
    | _, some p =>
      emit (.punct p)
      return none
    | _, none => unexpected

/-- The next item, in at most so many pieces. Behind the last one it is the end mark, and the caret goes
past the end. -/
def nextWithin : Nat → Move (Option Item)
  | 0 => throw .exhausted
  | n + 1 => do
    let c ← get
    if c.src.length < c.curr then return none
    else if c.curr = c.src.length then
      jump 1
      return some (.token ⟨.eof, "", c.line⟩)
    else
      set { c with start := c.curr, pending := none }
      match ← scanToken with
      | some fault => return some fault
      | none =>
        let c ← get
        match c.pending with
        | none => nextWithin n
        | some kind =>
          set { c with pending := none }
          let lexeme ← textBetween c.start c.curr
          return some (.token ⟨kind, .ofList lexeme, c.line⟩)

/-- A call of the scanner. -/
def next : Move (Option Item) := do
  nextWithin (← steps)

/-- The call that comes after `n` others. -/
def answer : (n : Nat) → Move (Option Item)
  | 0 => next
  | n + 1 => do
    let _ ← next
    answer n

end Caret

end Treewalk.Source
