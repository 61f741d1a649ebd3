import Treewalk.Proofs.Source.Caret
import Treewalk.Proofs.Source.Shapes

/-! The caret under watch. It moves as it does alone, and what it shows on its way is written down: each
state that it is in, each piece that it goes past, and each text that it reads as a number. Where the caret
changes more than once in a move, the move is made again here, step by step. -/

namespace Treewalk.Source

/-- What a caret shows on its way. -/
inductive Sight
  | state (c : Caret)
  | piece (before after : Caret)
  | number (digits : List Char)

/-- A caret, and what it has shown so far. -/
structure Watch where
  caret : Caret
  log : List Sight

namespace Watch

/-- A move of a caret under watch. -/
abbrev Move := EStateM Caret.Stop Watch

/-- In front of the first byte. -/
def begin (source : String) : Watch := ⟨.begin source, [.state (.begin source)]⟩

/-- The caret as it is now. -/
def here : Move Caret := return (← get).caret

def note (sight : Sight) : Move Unit :=
  modify fun w => { w with log := w.log ++ [sight] }

/-- Makes a move of the caret that is not watched. -/
def unseen {α : Type} (m : Caret.Move α) : Move α := fun w =>
  match m w.caret with
  | .ok a c => .ok a { w with caret := c }
  | .error stop c => .error stop { w with caret := c }

/-- Makes a move of the caret in which it changes once at most, and writes down the state behind it. -/
def see {α : Type} (m : Caret.Move α) : Move α := do
  let a ← unseen m
  note (.state (← here))
  return a

/-! ### Loops -/

def passWhile (p : Char → Bool) : Nat → Move Unit
  | 0 => throw .exhausted
  | n + 1 => do
    if p (← see Caret.peek) then
      let _ ← see Caret.advance
      passWhile p n
    else return ()

def passQuoted : Nat → Move Unit
  | 0 => throw .exhausted
  | n + 1 => do
    if ← see Caret.atEnd then return ()
    else if (← see Caret.peek) = '"' then return ()
    else
      if (← see Caret.advance) = '\n' then see Caret.newline
      passQuoted n

def passComment : Nat → (depth : Nat) → Move Unit
  | 0, _ => throw .exhausted
  | _ + 1, 0 => return ()
  | n + 1, depth + 1 => do
    if ← see Caret.atEnd then return ()
    else
      let b ← see Caret.peek
      let d ← see Caret.peekNext
      if b = '*' ∧ d = '/' then
        see (Caret.jump 2)
        passComment n depth
      else if b = '/' ∧ d = '*' then
        see (Caret.jump 2)
        passComment n (depth + 2)
      else if b = '\n' then
        see Caret.newline
        see (Caret.jump 1)
        passComment n (depth + 1)
      else
        see (Caret.jump 1)
        passComment n (depth + 1)

/-! ### Pieces -/

def string : Move (Option Item) := do
  passQuoted (← unseen Caret.steps)
  if ← see Caret.atEnd then return some (.fault (← here).line .unterminatedString)
  else
    let _ ← see Caret.advance
    let c ← here
    let contents ← see (Caret.textBetween (c.start + 1) (c.curr - 1))
    see (Caret.emit (.string (.ofList contents)))
    return none

def fraction : Move Unit := do
  if (← see Caret.peek) = '.' ∧ isDigit (← see Caret.peekNext) then
    let _ ← see Caret.advance
    passWhile isDigit (← unseen Caret.steps)

/-- What is read as a number is written down before it is read. -/
def number : Move Unit := do
  passWhile isDigit (← unseen Caret.steps)
  fraction
  let c ← here
  let digits ← see (Caret.textBetween c.start c.curr)
  note (.number digits)
  see (Caret.emit (.number ((Caret.numberOf? digits).getD 0.0)))

def word : Move Unit := do
  passWhile isWordPart (← unseen Caret.steps)
  let c ← here
  let letters ← see (Caret.bytesBetween c.start c.curr)
  see (Caret.emit (wordKind letters))

def scanToken : Move (Option Item) := do
  let b ← see Caret.advance
  if b = ' ' ∨ b = '\r' ∨ b = '\t' then return none
  else if b = '\n' then
    see Caret.newline
    return none
  else if b = '/' then
    if ← see (Caret.matchByte '/') then
      see Caret.lineComment
      return none
    else if ← see (Caret.matchByte '*') then
      passComment (← unseen Caret.steps) 1
      return none
    else
      see (Caret.emit (.punct .slash))
      return none
  else if b = '"' then string
  else if isDigit b then
    number
    return none
  else if isWordStart b then
    word
    return none
  else
    match Punct.ofPair? b '=', Punct.ofChar? b with
    | some long, some short =>
      see (Caret.emit (.punct (if ← see (Caret.matchByte '=') then long else short)))
      return none
    | _, some p =>
      see (Caret.emit (.punct p))
      return none
    | _, none => see Caret.unexpected

/-- A piece is written down with the carets in front of it and behind it. -/
def scan : Move (Option Item) := do
  let before ← here
  let fault ← scanToken
  note (.piece before (← here))
  return fault

/-- The caret goes past the end, unseen, to tell that the end mark was yielded. -/
def nextWithin : Nat → Move (Option Item)
  | 0 => throw .exhausted
  | n + 1 => do
    let c ← here
    if c.src.length < c.curr then return none
    else if c.curr = c.src.length then
      unseen (Caret.jump 1)
      return some (.token ⟨.eof, "", c.line⟩)
    else
      see (set { c with start := c.curr, pending := none })
      match ← scan with
      | some fault => return some fault
      | none =>
        let c ← here
        match c.pending with
        | none => nextWithin n
        | some kind =>
          see (set { c with pending := none })
          let lexeme ← see (Caret.textBetween c.start c.curr)
          return some (.token ⟨kind, .ofList lexeme, c.line⟩)

def next : Move (Option Item) := do
  nextWithin (← unseen Caret.steps)

/-- The call that comes after `n` others. -/
def answer : (n : Nat) → Move (Option Item)
  | 0 => next
  | n + 1 => do
    let _ ← next
    answer n

end Watch

end Treewalk.Source
