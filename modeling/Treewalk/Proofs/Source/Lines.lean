import Treewalk.Proofs.Source.Scanning
import Treewalk.Proofs.Source.Tiling

/-! The lines of items. The caret yields the items of a text call by call, and the line of each is one
more than the number of newlines up to the place that the caret has come to. -/

namespace Treewalk.Source

def Item.line : Item → Nat
  | .token t => t.line
  | .fault line _ => line

namespace Caret

variable {c : Caret} {before rest s : List Char} {x : Char}

/-- The caret in front of the next piece. -/
def ready (c : Caret) : Caret := { c with start := c.curr, pending := none }

/-- The caret is where the scanner is. -/
def Meets (c : Caret) (r : Scanner) : Prop :=
  match r.ahead with
  | some s => (∃ before, c.At before s) ∧ r.line = c.line
  | none => c.src.length < c.curr

/-- The caret is behind an item: the text of the item is what the caret has passed since the piece under
way began, and its line is the one on which this text ends. Behind the end mark the caret is past the
end. -/
inductive Bears (c : Caret) : Item → Prop
  | text {before text rest : List Char} {item : Item} : c.At (before ++ text) rest →
      c.start = (bytes before).length → item.line = c.line →
      (∀ t, item = .token t → t.lexeme = .ofList text) → Bears c item
  | finish {line : Nat} : c.src.length < c.curr → Bears c (.token ⟨.eof, "", line⟩)

theorem At.length_src (h : c.At before rest) : c.src.length = c.curr + (bytes rest).length := by
  rw [src, h.text, h.curr, bytes_append, List.length_append]

theorem At.ready (h : c.At before rest) : c.ready.At before rest := ⟨h.text, h.curr, h.line⟩

/-- Behind the first piece of the text ahead. -/
theorem At.behind (h : c.At before (x :: s)) :
    (c.ready.passed (bytes (cut x s).1.text)).At (before ++ (cut x s).1.text) (cut x s).2 :=
  At.passed (by rw [cut_append]; exact h.ready)

/-- The next piece is passed. What it yields is given back, and if it yields nothing, the caret goes
on. -/
theorem nextWithin_cons (n : Nat) (h : c.At before (x :: s)) :
    let c' := c.ready.passed (bytes (cut x s).1.text)
    nextWithin (n + 1) c =
      match item? c'.line (cut x s).1 with
      | some item => .ok (some item) c'
      | none => nextWithin n c' := by
  intro c'
  have hlength := h.length_src
  have hpos : 0 < (bytes (x :: s)).length := by
    rw [bytes_cons, List.length_append, length_encoded]
    exact Nat.add_pos_left x.utf8Size_pos _
  have hscan : scanToken c.ready = .ok (faultOf c'.line (cut x s).1)
    { c' with pending := kindOf (cut x s).1 } := scans_cut h.ready rfl rfl
  have hready : (set { c with start := c.curr, pending := none } : Move Unit) c = .ok ⟨⟩ c.ready := rfl
  rw [nextWithin, bind_of_ok get_apply, if_neg (by omega), if_neg (by omega)]
  refine (bind_of_ok hready).trans ((bind_of_ok hscan).trans ?_)
  have hsplit : c.ready.At before ((cut x s).1.text ++ (cut x s).2) := by
    rw [cut_append]
    exact h.ready
  have htext : slice c'.text c'.start c'.curr = some (cut x s).1.text := hsplit.slice
  generalize (cut x s).1 = p at htext ⊢
  cases p with
  | token kind text =>
    have hlexeme : textBetween c'.start c'.curr c' = .ok text c' := textBetween_apply htext
    exact bind_of_ok hlexeme
  | blank | lineComment | blockComment => rfl
  | unexpected | unterminated => rfl

theorem line_of_item? {line : Nat} {p : Piece} {item : Item} (h : item? line p = some item) :
    item.line = line ∧ ∀ t, item = .token t → t.lexeme = .ofList p.text := by
  cases p with
  | token kind text =>
    cases h
    refine ⟨rfl, ?_⟩
    rintro t ⟨⟩
    rfl
  | blank | lineComment | blockComment => cases h
  | unexpected | unterminated =>
    cases h
    exact ⟨rfl, nofun⟩

/-- The caret comes to the item that the scanner reads. -/
theorem nextWithin_apply {n : Nat} (hn : s.length < n) (h : c.At before s) :
    ∃ c', nextWithin n c = .ok (some (Scanner.read c.line s).1) c' ∧ c'.text = c.text ∧
      c'.Meets (Scanner.read c.line s).2 ∧ c'.Bears (Scanner.read c.line s).1 := by
  induction n generalizing c before s with
  | zero => cases hn
  | succ n ih =>
    cases s with
    | nil =>
      have hlength : c.src.length = c.curr := h.length_src
      have hpast : c.src.length < c.curr + 1 := Nat.lt_succ_of_le (Nat.le_of_eq hlength)
      rw [nextWithin, bind_of_ok get_apply, if_neg (by omega), if_pos hlength.symm, Scanner.read]
      exact ⟨{ c with curr := c.curr + 1 }, rfl, rfl, hpast, .finish hpast⟩
    | cons x s =>
      have hbehind := h.behind
      have hline : c.line + newlines (cut x s).1.text =
          (c.ready.passed (bytes (cut x s).1.text)).line :=
        congrArg (c.line + ·) (newlines_bytes _).symm
      rw [nextWithin_cons n h]
      cases hitem : item? (c.ready.passed (bytes (cut x s).1.text)).line (cut x s).1 with
      | some item =>
        obtain ⟨hitemLine, hlexeme⟩ := line_of_item? hitem
        rw [← hline] at hitem
        rw [Scanner.read_cons_of_some hitem]
        exact ⟨_, rfl, rfl, ⟨⟨_, hbehind⟩, hline⟩, .text hbehind h.curr hitemLine hlexeme⟩
      | none =>
        have hrest : (cut x s).2.length < n :=
          Nat.lt_of_lt_of_le (cut_length_lt x s) (Nat.le_of_lt_succ hn)
        rw [← hline] at hitem
        rw [Scanner.read_cons_of_none hitem, hline]
        exact ih hrest hbehind

/-- A call of the caret and a call of the scanner yield the same. -/
theorem next_apply {r : Scanner} (h : c.Meets r) :
    ∃ c', next c = .ok r.next.1 c' ∧ c'.text = c.text ∧ c'.Meets r.next.2 ∧
      ∀ item, r.next.1 = some item → c'.Bears item := by
  obtain ⟨line, ahead⟩ := r
  cases ahead with
  | none =>
    have hpast : c.src.length < c.curr := h
    rw [next, bind_of_ok steps_apply, nextWithin, bind_of_ok get_apply, if_pos hpast]
    exact ⟨c, rfl, rfl, h, nofun⟩
  | some s =>
    obtain ⟨⟨before, hat⟩, rfl⟩ := h
    have hlength := length_le_bytes s
    obtain ⟨c', hrun, htext, hmeets, hbears⟩ :=
      nextWithin_apply (n := c.src.length + 1) (by rw [hat.length_src]; omega) hat
    refine ⟨c', (bind_of_ok steps_apply).trans hrun, htext, hmeets, ?_⟩
    rintro item ⟨⟩
    exact hbears

/-- Call by call the caret and the scanner yield the same. -/
theorem answer_apply {r : Scanner} (h : c.Meets r) (n : Nat) :
    ∃ c', answer n c = .ok (r.answer n) c' ∧ c'.text = c.text ∧
      ∀ item, r.answer n = some item → c'.Bears item := by
  induction n generalizing c r with
  | zero =>
    obtain ⟨c', hrun, htext, -, hbears⟩ := next_apply h
    exact ⟨c', hrun, htext, hbears⟩
  | succ n ih =>
    obtain ⟨c₁, hrun, htext, hmeets, -⟩ := next_apply h
    obtain ⟨c', hrest, htext', hbears⟩ := ih hmeets
    exact ⟨c', (bind_of_ok hrun).trans hrest, htext'.trans htext, hbears⟩

theorem meets_begin (source : String) : (begin source).Meets (.start source) :=
  ⟨⟨[], rfl, rfl, rfl⟩, rfl⟩

end Caret

end Treewalk.Source
