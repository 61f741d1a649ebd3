/-! The grammar of JSON texts: which sequences of characters are well-formed. A sequence is a value with
blanks around it; values are the three words, numbers, strings, arrays and objects. -/

namespace Treewalk.Json

/-- Decimal digits, one or more. -/
def Digits (cs : List Char) : Prop := cs ≠ [] ∧ ∀ c ∈ cs, c.isDigit = true

/-- The part of a number before the point: a zero stands at its beginning only if it is alone. -/
inductive Whole : List Char → Prop
  | zero : Whole ['0']
  | digits {c ds} : c.isDigit = true → c ≠ '0' → (∀ d ∈ ds, d.isDigit = true) → Whole (c :: ds)

/-- The part of a number behind the whole part. -/
inductive Fraction : List Char → Prop
  | none : Fraction []
  | point {ds} : Digits ds → Fraction ('.' :: ds)

/-- The part of a number behind the fraction. -/
inductive Exponent : List Char → Prop
  | none : Exponent []
  | power {mark sign ds} : mark ∈ ['e', 'E'] → sign ∈ [[], ['+'], ['-']] → Digits ds →
    Exponent (mark :: sign ++ ds)

inductive Magnitude : List Char → Prop
  | parts {ws fs es} : Whole ws → Fraction fs → Exponent es → Magnitude (ws ++ fs ++ es)

inductive Number : List Char → Prop
  | positive {cs} : Magnitude cs → Number cs
  | negative {cs} : Magnitude cs → Number ('-' :: cs)

/-- A hexadecimal digit. -/
def HexDigit (c : Char) : Prop :=
  c.isDigit = true ∨ ('a' ≤ c ∧ c ≤ 'f') ∨ ('A' ≤ c ∧ c ≤ 'F')

/-- What stands for one character in a string. -/
inductive Letter : List Char → Prop
  | plain {c : Char} : 0x20 ≤ c.toNat → c ≠ '"' → c ≠ '\\' → Letter [c]
  | escape {c} : c ∈ ['"', '\\', '/', 'b', 'f', 'n', 'r', 't'] → Letter ['\\', c]
  | code {c₁ c₂ c₃ c₄} : HexDigit c₁ → HexDigit c₂ → HexDigit c₃ → HexDigit c₄ →
    Letter ['\\', 'u', c₁, c₂, c₃, c₄]

/-- What stands between the quotes of a string. -/
inductive Letters : List Char → Prop
  | nil : Letters []
  | cons {cs ds} : Letter cs → Letters ds → Letters (cs ++ ds)

/-- Characters that may stand between values and marks. -/
def Blank (cs : List Char) : Prop := ∀ c ∈ cs, c ∈ [' ', '\t', '\n', '\r']

mutual

inductive Value : List Char → Prop
  | null : Value ['n', 'u', 'l', 'l']
  | true : Value ['t', 'r', 'u', 'e']
  | false : Value ['f', 'a', 'l', 's', 'e']
  | number {cs} : Number cs → Value cs
  | string {cs} : Letters cs → Value ('"' :: cs ++ ['"'])
  | emptyArray {ws} : Blank ws → Value ('[' :: ws ++ [']'])
  | array {cs} : Elements cs → Value ('[' :: cs ++ [']'])
  | emptyObject {ws} : Blank ws → Value ('\x7b' :: ws ++ ['\x7d'])
  | object {cs} : Members cs → Value ('\x7b' :: cs ++ ['\x7d'])

/-- A value with blanks around it. -/
inductive Element : List Char → Prop
  | spaced {ws cs vs} : Blank ws → Value cs → Blank vs → Element (ws ++ cs ++ vs)

/-- The elements of an array. -/
inductive Elements : List Char → Prop
  | one {cs} : Element cs → Elements cs
  | more {cs ds} : Element cs → Elements ds → Elements (cs ++ ',' :: ds)

/-- A name and a value. -/
inductive Member : List Char → Prop
  | named {ws name vs cs} : Blank ws → Letters name → Blank vs → Element cs →
    Member (ws ++ '"' :: name ++ '"' :: vs ++ ':' :: cs)

/-- The members of an object. -/
inductive Members : List Char → Prop
  | one {cs} : Member cs → Members cs
  | more {cs ds} : Member cs → Members ds → Members (cs ++ ',' :: ds)

end

/-- A well-formed text. -/
def Text (text : String) : Prop := Element text.toList

end Treewalk.Json
