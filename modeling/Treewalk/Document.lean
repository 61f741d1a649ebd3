import Treewalk.Decimal.Layout

/-! JSON documents and their indented text. -/

namespace Treewalk

mutual

/-- A JSON document. Numbers are counts or doubles; members keep their order. -/
inductive Document
  | null
  | string (contents : String)
  | natural (value : Nat)
  | double (value : Float)
  | array (items : List Document)
  | object (members : List Member)

/-- A member of an object. -/
structure Member where
  name : String
  value : Document

end

namespace Document

/-- The object with one member. -/
def single (name : String) (value : Document) : Document :=
  object [⟨name, value⟩]

/-- The document of an optional part. -/
def ofOption {α : Type} (encode : α → Document) : Option α → Document
  | some a => encode a
  | none => null

/-- A character inside a string: the quote, the backslash and the control characters are escaped,
and nothing else. -/
def escaped (c : Char) : List Char :=
  match c with
  | '"' => ['\\', '"']
  | '\\' => ['\\', '\\']
  | '\n' => ['\\', 'n']
  | '\r' => ['\\', 'r']
  | '\t' => ['\\', 't']
  | '\x08' => ['\\', 'b']
  | '\x0c' => ['\\', 'f']
  | c =>
    if c.toNat < 0x20 then
      ['\\', 'u', '0', '0', (c.toNat / 16).digitChar, (c.toNat % 16).digitChar]
    else [c]

def quoted (s : String) : String :=
  "\"" ++ String.ofList (s.toList.flatMap escaped) ++ "\""

/-- Doubles have their fewest digits, and of two such numbers the one that ends even. From
`10 ^ -5` up to below `10 ^ 16` they have a point and no exponent. What is not finite is null. -/
def doubleText (x : Float) : List Char :=
  match Reading.ofFloat x with
  | .finite d =>
    let decimal := d.shortest .even
    let leading := decimal.leadingExponent
    signed d.negative
      (if -5 ≤ leading ∧ leading ≤ 15 then decimal.pointed else decimal.scientific)
  | _ => "null".toList

example : doubleText 1e15 = "1000000000000000.0".toList := by decide
example : doubleText 1e16 = "1e+16".toList := by decide
example : doubleText 0.000015 = "0.000015".toList := by decide
example : doubleText 0.0000015 = "1.5e-6".toList := by decide

/-- A line break, and the indentation of a part at this depth. -/
def newline (depth : Nat) : String :=
  "\n" ++ String.ofList (List.replicate (2 * depth) ' ')

end Document

mutual

/-- The text of a document that stands at this depth. -/
def Document.render (depth : Nat) : Document → String
  | .null => "null"
  | .string contents => Document.quoted contents
  | .natural value => Nat.repr value
  | .double value => String.ofList (Document.doubleText value)
  | .array [] => "[]"
  | .array (first :: rest) =>
    "[" ++ Document.newline (depth + 1) ++ first.render (depth + 1) ++
      Document.renderItems (depth + 1) rest ++ Document.newline depth ++ "]"
  | .object [] => "\x7b\x7d"
  | .object (first :: rest) =>
    "\x7b" ++ Document.newline (depth + 1) ++ first.render (depth + 1) ++
      Document.renderMembers (depth + 1) rest ++ Document.newline depth ++ "\x7d"

/-- Items behind the first one of an array. -/
def Document.renderItems (depth : Nat) : List Document → String
  | [] => ""
  | item :: rest =>
    "," ++ Document.newline depth ++ item.render depth ++ Document.renderItems depth rest

/-- A member: name, colon, value. -/
def Member.render (depth : Nat) : Member → String
  | ⟨name, value⟩ => Document.quoted name ++ ": " ++ value.render depth

/-- Members behind the first one of an object. -/
def Document.renderMembers (depth : Nat) : List Member → String
  | [] => ""
  | member :: rest =>
    "," ++ Document.newline depth ++ member.render depth ++ Document.renderMembers depth rest

end

/-- The indented text of a whole document, without a final line break. -/
def Document.pretty (document : Document) : String :=
  document.render 0

end Treewalk
