import Treewalk.Text.Blank
import Treewalk.Text.Extending
import Treewalk.Text.Unassigned

/-! Names in messages: in double quotes, with escapes for what would not show. -/

namespace Treewalk.Text

/-- A number in lower-case hexadecimal digits. -/
def hexDigits (n : Nat) : List Char :=
  Nat.toDigits 16 n

/-- The ranges of the general category `Cc`. -/
def controlRanges : List (Nat × Nat) :=
  [(0x00, 0x1f), (0x7f, 0x9f)]

/-- The ranges of the general category `Cf` in Unicode 17.0. -/
def formatRanges : List (Nat × Nat) :=
  [(0xad, 0xad), (0x600, 0x605), (0x61c, 0x61c), (0x6dd, 0x6dd), (0x70f, 0x70f), (0x890, 0x891),
    (0x8e2, 0x8e2), (0x180e, 0x180e), (0x200b, 0x200f), (0x202a, 0x202e), (0x2060, 0x2064),
    (0x2066, 0x206f), (0xfeff, 0xfeff), (0xfff9, 0xfffb), (0x110bd, 0x110bd), (0x110cd, 0x110cd),
    (0x13430, 0x1343f), (0x1bca0, 0x1bca3), (0x1d173, 0x1d17a), (0xe0001, 0xe0001),
    (0xe0020, 0xe007f)]

/-- The ranges of the letters that are drawn as nothing: the fillers of Hangul. -/
def fillerRanges : List (Nat × Nat) :=
  [(0x115f, 0x1160), (0x3164, 0x3164), (0xffa0, 0xffa0)]

/-- Whether the character would not show by itself. Of the blanks only the space shows. -/
def isHidden (c : Char) : Bool :=
  (isBlank c && c != ' ') || inRanges controlRanges c || inRanges formatRanges c ||
    inRanges fillerRanges c || isExtending c || isUnassigned c

/-- A character between double quotes. A single quote needs no escape there. -/
def escape (c : Char) : List Char :=
  match c with
  | '\x00' => ['\\', '0']
  | '\t' => ['\\', 't']
  | '\r' => ['\\', 'r']
  | '\n' => ['\\', 'n']
  | '"' => ['\\', '"']
  | '\\' => ['\\', '\\']
  | c => if isHidden c then ['\\', 'u', '\x7b'] ++ hexDigits c.toNat ++ ['\x7d'] else [c]

/-- A name in quotes. -/
def quote (s : String) : String :=
  String.ofList ('"' :: s.toList.flatMap escape ++ ['"'])

end Treewalk.Text
