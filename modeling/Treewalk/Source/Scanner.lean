import Treewalk.Source.Item

/-! The scanner as it is called, one item at a time. Behind the last item it yields the end mark
once, and nothing from then on. -/

namespace Treewalk.Source

/-- A scanner between two calls: the line where the text behind it ends, and the text ahead. No text
is ahead, not even an empty one, once the end mark has been yielded. -/
structure Scanner where
  line : Nat
  ahead : Option (List Char)

namespace Scanner

def start (source : String) : Scanner := ⟨1, some source.toList⟩

/-- Reads up to the end of the first piece that yields an item. -/
def read (line : Nat) : List Char → Item × Scanner
  | [] => (.token ⟨.eof, "", line⟩, ⟨line, none⟩)
  | c :: s =>
    let line := line + newlines (cut c s).1.text
    match item? line (cut c s).1 with
    | some item => (item, ⟨line, some (cut c s).2⟩)
    | none => read line (cut c s).2
termination_by s => s.length
decreasing_by exact cut_length_lt c s

/-- A call: the next item, and the scanner behind it. -/
def next (r : Scanner) : Option Item × Scanner :=
  match r.ahead with
  | some s => ((read r.line s).1, (read r.line s).2)
  | none => (none, r)

/-- What the call yields that comes after `n` others. -/
def answer (r : Scanner) : (n : Nat) → Option Item
  | 0 => r.next.1
  | n + 1 => r.next.2.answer n

end Scanner

end Treewalk.Source
