import Treewalk.Decimal.Layout

/-! Tokens: the smallest units of a program that mean something. Punctuation and reserved words
are fixed spellings; names, strings and numbers are open classes; one end mark closes the
sequence. -/

namespace Treewalk

/-- Punctuation and operators. -/
inductive Punct
  | leftParen | rightParen | leftBrace | rightBrace | comma | dot | minus | plus | semicolon
  | slash | star | bang | bangEqual | equal | equalEqual | greater | greaterEqual | less
  | lessEqual
  deriving DecidableEq, Repr

/-- The reserved words. -/
inductive Keyword
  | andWord | classWord | elseWord | falseWord | forWord | funcWord | ifWord | nullWord | orWord
  | printWord | returnWord | parentWord | thisWord | trueWord | varWord | whileWord
  deriving DecidableEq, Repr

namespace Punct

def spelling : Punct → List Char
  | leftParen => ['('] | rightParen => [')'] | leftBrace => ['\x7b'] | rightBrace => ['\x7d']
  | comma => [','] | dot => ['.'] | minus => ['-'] | plus => ['+'] | semicolon => [';']
  | slash => ['/'] | star => ['*'] | bang => ['!'] | bangEqual => ['!', '='] | equal => ['=']
  | equalEqual => ['=', '='] | greater => ['>'] | greaterEqual => ['>', '='] | less => ['<']
  | lessEqual => ['<', '=']

def name : Punct → String
  | leftParen => "LEFT_PAREN" | rightParen => "RIGHT_PAREN" | leftBrace => "LEFT_BRACE"
  | rightBrace => "RIGHT_BRACE" | comma => "COMMA" | dot => "DOT" | minus => "MINUS"
  | plus => "PLUS" | semicolon => "SEMICOLON" | slash => "SLASH" | star => "STAR"
  | bang => "BANG" | bangEqual => "BANG_EQUAL" | equal => "EQUAL"
  | equalEqual => "EQUAL_EQUAL" | greater => "GREATER" | greaterEqual => "GREATER_EQUAL"
  | less => "LESS" | lessEqual => "LESS_EQUAL"

def all : List Punct :=
  [leftParen, rightParen, leftBrace, rightBrace, comma, dot, minus, plus, semicolon, slash, star,
    bang, bangEqual, equal, equalEqual, greater, greaterEqual, less, lessEqual]

theorem mem_all (p : Punct) : p ∈ all := by cases p <;> decide

/-- The marks that another character may lengthen. -/
def ofPair? : Char → Char → Option Punct
  | '!', '=' => some bangEqual
  | '=', '=' => some equalEqual
  | '<', '=' => some lessEqual
  | '>', '=' => some greaterEqual
  | _, _ => none

def ofChar? : Char → Option Punct
  | '(' => some leftParen | ')' => some rightParen | '\x7b' => some leftBrace
  | '\x7d' => some rightBrace | ',' => some comma | '.' => some dot | '-' => some minus
  | '+' => some plus | ';' => some semicolon | '/' => some slash | '*' => some star
  | '!' => some bang | '=' => some equal | '<' => some less | '>' => some greater
  | _ => none

theorem ofChar?_spelling {c : Char} {p : Punct} (h : ofChar? c = some p) : p.spelling = [c] := by
  unfold ofChar? at h
  split at h <;> simp at h <;> subst h <;> rfl

theorem ofPair?_spelling {c d : Char} {p : Punct} (h : ofPair? c d = some p) :
    p.spelling = [c, d] := by
  unfold ofPair? at h
  split at h <;> simp at h <;> subst h <;> rfl

end Punct

namespace Keyword

def spelling : Keyword → String
  | andWord => "and" | classWord => "class" | elseWord => "else" | falseWord => "false"
  | forWord => "for" | funcWord => "func" | ifWord => "if" | nullWord => "null"
  | orWord => "or" | printWord => "print" | returnWord => "return" | parentWord => "parent"
  | thisWord => "this" | trueWord => "true" | varWord => "var" | whileWord => "while"

def name : Keyword → String
  | andWord => "AND" | classWord => "CLASS" | elseWord => "ELSE" | falseWord => "FALSE"
  | forWord => "FOR" | funcWord => "FUNC" | ifWord => "IF" | nullWord => "NULL" | orWord => "OR"
  | printWord => "PRINT" | returnWord => "RETURN" | parentWord => "PARENT" | thisWord => "THIS"
  | trueWord => "TRUE" | varWord => "VAR" | whileWord => "WHILE"

def all : List Keyword :=
  [andWord, classWord, elseWord, falseWord, forWord, funcWord, ifWord, nullWord, orWord,
    printWord, returnWord, parentWord, thisWord, trueWord, varWord, whileWord]

theorem mem_all (k : Keyword) : k ∈ all := by cases k <;> decide

/-- The reserved word with this spelling, if the word is reserved. -/
def ofSpelling? (word : String) : Option Keyword :=
  all.find? (·.spelling == word)

theorem ofSpelling?_spelling (k : Keyword) : ofSpelling? k.spelling = some k := by
  cases k <;> decide

theorem spelling_of_ofSpelling? {word : String} {k : Keyword} (h : ofSpelling? word = some k) :
    k.spelling = word := by
  simpa using List.find?_some h

end Keyword

/-- What the grammar sees of a token. -/
inductive Terminal
  | punct (p : Punct)
  | keyword (k : Keyword)
  | identifier
  | string
  | number
  | eof
  deriving DecidableEq, Repr

namespace Terminal

def name : Terminal → String
  | punct p => p.name
  | keyword k => k.name
  | identifier => "IDENTIFIER"
  | string => "STRING"
  | number => "NUMBER"
  | eof => "EOF"

def all : List Terminal :=
  Punct.all.map punct ++ Keyword.all.map keyword ++ [identifier, string, number, eof]

/-- The terminal with this name, if the name is one. -/
def ofName? (name : String) : Option Terminal :=
  all.find? (·.name == name)

theorem ofName?_name (t : Terminal) : ofName? t.name = some t := by
  cases t with
  | punct p => cases p <;> decide
  | keyword k => cases k <;> decide
  | identifier => decide
  | string => decide
  | number => decide
  | eof => decide

end Terminal

/-- A token's class, with the value that a string or a number stands for. -/
inductive Kind
  | punct (p : Punct)
  | keyword (k : Keyword)
  | identifier
  | string (contents : String)
  | number (value : Float)
  | eof

namespace Kind

def terminal : Kind → Terminal
  | punct p => .punct p
  | keyword k => .keyword k
  | identifier => .identifier
  | string _ => .string
  | number _ => .number
  | eof => .eof

/-- A token class without a reading of its own: the string is empty, the number zero. -/
def ofTerminal : Terminal → Kind
  | .punct p => punct p
  | .keyword k => keyword k
  | .identifier => identifier
  | .string => string ""
  | .number => number 0
  | .eof => eof

theorem terminal_ofTerminal (t : Terminal) : (ofTerminal t).terminal = t := by cases t <;> rfl

end Kind

/-- A constant of the language. -/
inductive Literal
  | number (value : Float)
  | string (contents : String)
  | bool (value : Bool)
  | null

/-- A token: its class, the text it was read from, and the line on which that text ends. -/
structure Token where
  kind : Kind
  lexeme : String
  line : Nat

namespace Token

def terminal (t : Token) : Terminal := t.kind.terminal

/-- The constant that a token spells, if it spells one. -/
def literal? (t : Token) : Option Literal :=
  match t.kind with
  | .string contents => some (.string contents)
  | .number value => some (.number value)
  | .keyword .trueWord => some (.bool true)
  | .keyword .falseWord => some (.bool false)
  | .keyword .nullWord => some .null
  | _ => none

/-- Numbers in a token listing show at least one digit behind the point, as long as they are below
`10 ^ 15`. -/
def numberText (x : Float) : List Char :=
  let reading := Reading.ofFloat x
  match reading.smallWhole? with
  | some d => signed (d.negative && d.whole != 0) (Nat.toDigits 10 d.whole ++ ['.', '0'])
  | none => reading.plain

example : numberText 3 = "3.0".toList := by decide
example : numberText 3.25 = "3.25".toList := by decide
example : numberText 1e15 = "1000000000000000".toList := by decide

/-- The value column of a token listing. -/
def valueText (t : Token) : String :=
  match t.kind with
  | .string contents => contents
  | .number value => String.ofList (numberText value)
  | _ => "null"

/-- A line of a token listing: class, lexeme, value. -/
def describe (t : Token) : String :=
  t.terminal.name ++ " " ++ t.lexeme ++ " " ++ t.valueText

end Token

end Treewalk
