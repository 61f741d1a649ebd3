import Treewalk.Proofs.Run
import Treewalk.Proofs.Source.Caret
import Treewalk.Proofs.Source.Shapes

/-! What the caret scans: it goes past the pieces of the text one after the other, and never stops on
the way. -/

namespace Treewalk.Source

namespace Caret

variable {c : Caret} {b : Char} {t u : List Char} {p : Char → Bool}

/-- The bytes that the caret is in front of. -/
def ahead (c : Caret) : List Char := c.src.drop c.curr

/-- The caret behind bytes that it was in front of, their newlines counted. -/
def passed (c : Caret) (u : List Char) : Caret :=
  { c with curr := c.curr + u.length, line := c.line + newlines u }

theorem passed_append (c : Caret) (u t : List Char) : (c.passed u).passed t = c.passed (u ++ t) := by
  simp only [passed, List.length_append, newlines_append, Nat.add_assoc]

theorem ahead_passed (h : c.ahead = u ++ t) : (c.passed u).ahead = t := by
  show c.src.drop (c.curr + u.length) = t
  rw [← List.drop_drop]
  show c.ahead.drop u.length = t
  rw [h, List.drop_left]

/-- Behind a byte there is less ahead. -/
theorem length_ahead_passed {n : Nat} (h : c.ahead = b :: t) (hn : c.ahead.length < n + 1) :
    (c.passed [b]).ahead.length < n := by
  have hrest : (c.passed [b]).ahead = t := ahead_passed h
  rw [h] at hn
  rw [hrest]
  exact Nat.lt_of_succ_lt_succ hn

theorem length_ahead_lt (c : Caret) : c.ahead.length < c.src.length + 1 := by
  rw [ahead, List.length_drop]
  omega

/-! ### Steps -/

theorem byteAt_apply {place : Nat} (h : c.src[place]? = some b) : byteAt place c = .ok b c := by
  rw [byteAt, bind_of_ok get_apply, h]
  rfl

theorem byteAt_of_ahead {n : Nat} (h : c.ahead[n]? = some b) : byteAt (c.curr + n) c = .ok b c :=
  byteAt_apply (by rwa [ahead, List.getElem?_drop] at h)

theorem atEnd_apply : atEnd c = .ok c.ahead.isEmpty c := by
  have hempty : decide (c.src.length ≤ c.curr) = c.ahead.isEmpty := by
    rw [Bool.eq_iff_iff, decide_eq_true_eq, List.isEmpty_iff, ahead, List.drop_eq_nil_iff]
  rw [← hempty]
  rfl

theorem advance_apply (h : c.ahead = b :: t) :
    advance c = .ok b { c with curr := c.curr + 1 } := by
  have hbyte : byteAt (c.curr + 0) c = .ok b c := byteAt_of_ahead (by rw [h]; rfl)
  rw [advance, bind_of_ok get_apply, ← Nat.add_zero c.curr, bind_of_ok hbyte]
  rfl

/-- A byte that is no newline is passed. -/
theorem advance_passed (h : c.ahead = b :: t) (hb : b ≠ '\n') :
    advance c = .ok b (c.passed [b]) := by
  have hnone : newlines [b] = 0 := List.count_eq_zero.mpr (by simpa using hb.symm)
  rw [advance_apply h, passed, hnone]
  rfl

theorem peek_apply : peek c = .ok (c.ahead.headD '\x00') c := by
  rw [peek, bind_of_ok atEnd_apply]
  cases h : c.ahead with
  | nil => rfl
  | cons b t =>
    rw [List.isEmpty_cons, if_neg (by decide), bind_of_ok get_apply]
    exact byteAt_of_ahead (n := 0) (by rw [h]; rfl)

theorem peekNext_apply : peekNext c = .ok (c.ahead.tail.headD '\x00') c := by
  have hlength : c.ahead.tail.length = c.src.length - (c.curr + 1) := by
    rw [List.length_tail, ahead, List.length_drop]
    omega
  rw [peekNext, bind_of_ok get_apply]
  cases h : c.ahead.tail with
  | nil =>
    rw [h, List.length_nil] at hlength
    rw [if_pos (by omega)]
    rfl
  | cons b t =>
    rw [h, List.length_cons] at hlength
    rw [if_neg (by omega)]
    refine byteAt_of_ahead (n := 1) ?_
    rw [← List.getElem?_tail, h]
    rfl

theorem matchByte_of_eq (h : c.ahead = b :: t) (hb : b ≠ '\n') :
    matchByte b c = .ok true (c.passed [b]) := by
  rw [matchByte, bind_of_ok atEnd_apply, h, List.isEmpty_cons, if_neg (by decide),
    bind_of_ok peek_apply, h, List.headD_cons, if_pos rfl, bind_of_ok (advance_passed h hb)]
  rfl

theorem matchByte_of_ne (h : c.ahead.head? ≠ some b) : matchByte b c = .ok false c := by
  rw [matchByte, bind_of_ok atEnd_apply]
  cases hahead : c.ahead with
  | nil => rfl
  | cons d t =>
    have hne : d ≠ b := fun heq => h (by rw [hahead, heq, List.head?_cons])
    rw [List.isEmpty_cons, if_neg (by decide), bind_of_ok peek_apply, hahead, List.headD_cons,
      if_neg hne]
    rfl

/-! ### Loops -/

theorem steps_apply : steps c = .ok (c.src.length + 1) c := rfl

/-- A run of bytes is passed as a whole. -/
theorem passWhile_apply (hnul : p '\x00' = false) (hnewline : p '\n' = false) {n : Nat}
    (hn : c.ahead.length < n) : passWhile p n c = .ok ⟨⟩ (c.passed (c.ahead.takeWhile p)) := by
  induction n generalizing c with
  | zero => cases hn
  | succ n ih =>
    rw [passWhile, bind_of_ok peek_apply]
    cases h : c.ahead with
    | nil =>
      rw [List.headD_nil, hnul, if_neg (by decide)]
      rfl
    | cons b t =>
      rw [List.headD_cons]
      cases hb : p b with
      | false =>
        rw [if_neg (by decide), List.takeWhile_cons_of_neg (by rw [hb]; decide)]
        rfl
      | true =>
        have hne : b ≠ '\n' := by
          rintro rfl
          rw [hb] at hnewline
          cases hnewline
        have hrest : (c.passed [b]).ahead = t := ahead_passed h
        rw [if_pos rfl, bind_of_ok (advance_passed h hne), ih (length_ahead_passed h hn),
          passed_append, hrest, List.takeWhile_cons_of_pos hb]
        rfl

/-- What is in front of the next quote is passed, newlines and all. -/
theorem passQuoted_apply {n : Nat} (hn : c.ahead.length < n) :
    passQuoted n c = .ok ⟨⟩ (c.passed (c.ahead.takeWhile (· != '"'))) := by
  induction n generalizing c with
  | zero => cases hn
  | succ n ih =>
    rw [passQuoted, bind_of_ok atEnd_apply]
    cases h : c.ahead with
    | nil => rfl
    | cons b t =>
      rw [List.isEmpty_cons, if_neg (by decide), bind_of_ok peek_apply, h, List.headD_cons]
      by_cases hb : b = '"'
      · rw [if_pos hb, List.takeWhile_cons_of_neg (by simpa using hb)]
        rfl
      · have hrest : (c.passed [b]).ahead = t := ahead_passed h
        have hloop := ih (length_ahead_passed h hn)
        have htake : (b :: t).takeWhile (· != '"') = [b] ++ t.takeWhile (· != '"') :=
          List.takeWhile_cons_of_pos (by simpa using hb)
        rw [passed_append, hrest, ← htake] at hloop
        rw [if_neg hb]
        by_cases hnewline : b = '\n'
        · subst hnewline
          rw [bind_of_ok (advance_apply h), if_pos rfl]
          exact hloop
        · rw [bind_of_ok (advance_passed h hnewline), if_neg hnewline]
          exact hloop

/-- In front of a byte that begins no mark the comment goes on behind it. -/
theorem passComment_cons (n depth : Nat) (h : c.ahead = b :: t) (hnone : MarksNone b t) :
    passComment (n + 1) (depth + 1) c = passComment n (depth + 1) (c.passed [b]) := by
  have hnext {mark : Char} (hmark : mark ≠ '\x00') (heq : t.headD '\x00' = mark) :
      ∃ r, t = mark :: r := by
    cases t with
    | nil => exact absurd heq.symm hmark
    | cons d r => exact ⟨r, by rw [← heq]; rfl⟩
  have hstep (hb : b ≠ '\n') : { c with curr := c.curr + 1 } = c.passed [b] := by
    have hnone : newlines [b] = 0 := List.count_eq_zero.mpr (by simpa using hb.symm)
    rw [passed, hnone]
    rfl
  rw [passComment, bind_of_ok atEnd_apply, h, List.isEmpty_cons, if_neg (by decide),
    bind_of_ok peek_apply, bind_of_ok peekNext_apply, h, List.headD_cons, List.tail_cons]
  rw [if_neg, if_neg]
  · split
    · next hb =>
      subst hb
      rfl
    · next hb =>
      rw [← hstep hb]
      rfl
  · rintro ⟨rfl, hstar⟩
    obtain ⟨r, hr⟩ := hnext (by decide) hstar
    exact hnone.2 r rfl hr
  · rintro ⟨rfl, hslash⟩
    obtain ⟨r, hr⟩ := hnext (by decide) hslash
    exact hnone.1 r rfl hr

theorem passComment_close (n depth : Nat) (h : c.ahead = '*' :: '/' :: t) :
    passComment (n + 1) (depth + 1) c = passComment n depth (c.passed ['*', '/']) := by
  rw [passComment, bind_of_ok atEnd_apply, h, List.isEmpty_cons, if_neg (by decide),
    bind_of_ok peek_apply, bind_of_ok peekNext_apply, h]
  rfl

theorem passComment_open (n depth : Nat) (h : c.ahead = '/' :: '*' :: t) :
    passComment (n + 1) (depth + 1) c = passComment n (depth + 2) (c.passed ['/', '*']) := by
  rw [passComment, bind_of_ok atEnd_apply, h, List.isEmpty_cons, if_neg (by decide),
    bind_of_ok peek_apply, bind_of_ok peekNext_apply, h]
  rfl

/-- A comment is passed to its end, newlines and all. -/
theorem passComment_apply {n depth : Nat} (hn : c.ahead.length < n) : passComment n depth c =
    .ok ⟨⟩ (c.passed (c.ahead.take (commentLength depth 0 c.ahead))) := by
  induction n generalizing c depth with
  | zero => cases hn
  | succ n ih =>
    -- What is passed now and what is passed later are passed together.
    have hlater {u t : List Char} {depth : Nat} (h : c.ahead = u ++ t) (hu : u ≠ []) :
        passComment n depth (c.passed u) =
          .ok ⟨⟩ (c.passed (c.ahead.take (u.length + commentLength depth 0 t))) := by
      have hrest : (c.passed u).ahead = t := ahead_passed h
      have hpos := List.length_pos_iff.mpr hu
      have hlength := congrArg List.length h
      rw [List.length_append] at hlength
      rw [ih (by rw [hrest]; omega), passed_append, hrest, h, List.take_length_add_append]
    obtain _ | depth := depth
    · rw [passComment, commentLength]
      rfl
    cases h : c.ahead with
    | nil =>
      rw [passComment, bind_of_ok atEnd_apply, h]
      rfl
    | cons b t =>
      rw [← h]
      by_cases hclose : ∃ r, b = '*' ∧ t = '/' :: r
      · obtain ⟨r, rfl, rfl⟩ := hclose
        rw [passComment_close n depth h, hlater (u := ['*', '/']) h (by simp), h, commentLength,
          commentLength_add depth (0 + 2)]
        rfl
      by_cases hopen : ∃ r, b = '/' ∧ t = '*' :: r
      · obtain ⟨r, rfl, rfl⟩ := hopen
        rw [passComment_open n depth h, hlater (u := ['/', '*']) h (by simp), h, commentLength,
          commentLength_add (depth + 2) (0 + 2)]
        rfl
      have hnone : MarksNone b t :=
        ⟨fun r hb hr => hclose ⟨r, hb, hr⟩, fun r hb hr => hopen ⟨r, hb, hr⟩⟩
      rw [passComment_cons n depth h hnone, hlater (u := [b]) h (by simp), h,
        commentLength_cons hnone, commentLength_add (depth + 1) (0 + 1)]
      rfl

/-! ### Places between characters -/

/-- The caret is between what is before it and the rest of the text, and has counted the newlines before
it. -/
structure At (c : Caret) (before rest : List Char) : Prop where
  text : c.text = before ++ rest
  curr : c.curr = (bytes before).length
  line : c.line = 1 + newlines before

variable {before rest s : List Char} {x : Char}

theorem At.ahead (h : c.At before rest) : c.ahead = bytes rest := by
  rw [Caret.ahead, src, h.text, h.curr, bytes_append, List.drop_left]

theorem At.passed (h : c.At before (s ++ rest)) : (c.passed (bytes s)).At (before ++ s) rest where
  text := by rw [List.append_assoc]; exact h.text
  curr := by
    show c.curr + (bytes s).length = _
    rw [h.curr, bytes_append, List.length_append]
  line := by
    show c.line + newlines (bytes s) = _
    rw [h.line, newlines_bytes, newlines_append, Nat.add_assoc]

theorem At.curr_le (h : c.At before rest) : c.curr ≤ c.src.length := by
  rw [src, h.text, h.curr, bytes_append, List.length_append]
  exact Nat.le_add_right _ _

/-- A mark that does not come first among the characters does not come first among the bytes. -/
theorem At.head_ne (h : c.At before rest) {mark : Char} (hmark : mark.toNat < 128)
    (hne : rest.head? ≠ some mark) : c.ahead.head? ≠ some mark := by
  intro heq
  rw [h.ahead] at heq
  obtain ⟨t, ht⟩ := List.head?_eq_some_iff.mp heq
  obtain ⟨d, rest, rfl, hd⟩ := head_bytes (uniform_bne hmark) ht
  rw [bne_self_eq_false, eq_comm, bne_eq_false_iff_eq] at hd
  exact hne (by rw [hd, List.head?_cons])

theorem textBetween_apply {a b : Nat} (h : slice c.text a b = some s) :
    textBetween a b c = .ok s c := by
  rw [textBetween, bind_of_ok get_apply, h]
  rfl

theorem bytesBetween_apply {a b : Nat} (ha : a ≤ b) (hb : b ≤ c.src.length) :
    bytesBetween a b c = .ok ((c.src.drop a).take (b - a)) c := by
  rw [bytesBetween, bind_of_ok get_apply, if_pos ⟨ha, hb⟩]
  rfl

/-- What was passed is the text between the two places. -/
theorem At.slice (h : c.At before (s ++ rest)) :
    slice c.text c.curr (c.passed (bytes s)).curr = some s := by
  rw [h.passed.curr, h.curr, h.text, slice_append]

theorem At.textBetween (h : c.At before (s ++ rest)) :
    textBetween c.curr (c.passed (bytes s)).curr (c.passed (bytes s)) =
      .ok s (c.passed (bytes s)) :=
  textBetween_apply h.slice

/-- What was passed are the bytes between the two places. -/
theorem At.bytesBetween (h : c.At before (s ++ rest)) :
    bytesBetween c.curr (c.passed (bytes s)).curr (c.passed (bytes s)) =
      .ok (bytes s) (c.passed (bytes s)) := by
  have hle : c.curr ≤ (c.passed (bytes s)).curr := Nat.le_add_right _ _
  rw [bytesBetween_apply hle h.passed.curr_le]
  have hahead : (c.passed (bytes s)).src.drop c.curr = bytes s ++ bytes rest := by
    rw [← bytes_append]
    exact h.ahead
  have hlength : (c.passed (bytes s)).curr - c.curr = (bytes s).length := by
    show c.curr + (bytes s).length - c.curr = _
    omega
  rw [hahead, hlength, List.take_left]

/-! ### Pieces -/

/-- A line comment ends in front of the newline. -/
theorem lineComment_apply (h : c.At before rest) :
    lineComment c = .ok ⟨⟩ (c.passed (bytes (rest.takeWhile (· != '\n')))) := by
  have hall : Caret.bytesBetween c.curr c.src.length c = .ok c.ahead c := by
    rw [bytesBetween_apply h.curr_le (Nat.le_refl _), ← List.length_drop, List.take_length]
    rfl
  have huniform : Uniform (· != '\n') := uniform_bne (by decide)
  have hspan := (span_bytes huniform rest).1
  have hnone : newlines ((bytes rest).takeWhile (· != '\n')) = 0 := by
    refine List.count_eq_zero.mpr fun hmem => ?_
    have hne := List.mem_takeWhile_imp hmem
    exact absurd hne (by decide)
  have hmark : (fun b : Char => !(b != '\n')) = (· == '\n') := by
    funext b
    rw [bne, Bool.not_not]
  have hfind : ((bytes rest).takeWhile (· != '\n')).length = (bytes rest).findIdx (· == '\n') := by
    rw [List.takeWhile_eq_take_findIdx_not, hmark, List.length_take_of_le List.findIdx_le_length]
  rw [lineComment, bind_of_ok get_apply, bind_of_ok hall, h.ahead, List.findIdx?_eq_guard_findIdx_lt,
    ← hspan, passed, hnone, hfind]
  by_cases hlt : (bytes rest).findIdx (· == '\n') < (bytes rest).length
  · rw [Option.guard_pos (by simpa using hlt)]
    rfl
  · have hend : c.src.length = c.curr + (bytes rest).findIdx (· == '\n') := by
      have hle : (bytes rest).findIdx (· == '\n') ≤ (bytes rest).length := List.findIdx_le_length
      have hcurr := h.curr_le
      have hlength := congrArg List.length h.ahead
      rw [Caret.ahead, List.length_drop] at hlength
      omega
    rw [Option.guard, if_neg (by simpa using hlt), ← hend]
    rfl

/-- The text that is passed up to a byte that lacks a property, and what comes then. -/
theorem At.span (h : c.At before rest) (hp : Uniform p) :
    c.ahead.takeWhile p = bytes (rest.takeWhile p) ∧
      (c.passed (bytes (rest.takeWhile p))).ahead = bytes (rest.dropWhile p) := by
  obtain ⟨htake, hdrop⟩ := span_bytes hp rest
  refine ⟨by rw [h.ahead, htake], ahead_passed ?_⟩
  rw [h.ahead, ← bytes_append, List.takeWhile_append_dropWhile]

/-- A string is passed with both of its quotes, or to the end of the text if the second one is
missing. -/
theorem string_apply (h : c.At before ('"' :: s)) (hstart : c.start = c.curr) :
    string (c.passed ['"']) =
      match s.dropWhile (· != '"') with
      | [] => .ok (some (.fault (c.passed (bytes ('"' :: s))).line .unterminatedString))
          (c.passed (bytes ('"' :: s)))
      | _ :: _ => .ok none { c.passed (bytes ('"' :: s.takeWhile (· != '"') ++ ['"'])) with
          pending := some (.string (.ofList (s.takeWhile (· != '"')))) } := by
  have hquote : (c.passed ['"']).At (before ++ ['"']) s := h.passed (s := ['"'])
  have huniform : Uniform (· != '"') := uniform_bne (by decide)
  obtain ⟨htake, hrest⟩ := hquote.span huniform
  have hsplit := List.takeWhile_append_dropWhile (p := (· != '"')) (l := s)
  rw [string, bind_of_ok steps_apply, bind_of_ok (passQuoted_apply (length_ahead_lt _)), htake,
    bind_of_ok atEnd_apply, hrest]
  cases hdrop : s.dropWhile (· != '"') with
  | nil =>
    rw [hdrop, List.append_nil] at hsplit
    rw [hsplit, passed_append]
    rfl
  | cons d rest =>
    have hd : d = '"' := by
      have hstop := List.head?_dropWhile_not (· != '"') s
      simpa [hdrop] using hstop
    subst hd
    have hat : (c.passed ['"']).At (before ++ ['"']) (s.takeWhile (· != '"') ++ '"' :: rest) := by
      rwa [← hdrop, hsplit]
    have hslice := hat.slice
    rw [hdrop, bytes_cons_of_ascii (by decide)] at hrest
    rw [bytes_cons_of_ascii (by decide), List.isEmpty_cons, if_neg (by decide),
      bind_of_ok (advance_passed hrest (by decide)), bind_of_ok get_apply]
    have hcontents := textBetween_apply (c := ((c.passed ['"']).passed
      (bytes (s.takeWhile (· != '"')))).passed ['"']) hslice
    have hplace : (((c.passed ['"']).passed (bytes (s.takeWhile (· != '"')))).passed ['"']).start + 1 =
        (c.passed ['"']).curr := congrArg (· + 1) hstart
    rw [hplace]
    refine (bind_of_ok hcontents).trans ?_
    rw [passed_append, passed_append, List.cons_append, bytes_cons_of_ascii (by decide), bytes_append]
    rfl

/-- The text of a number is a number. -/
theorem numberOf?_numberSpan (hx : isDigit x = true) (s : List Char) :
    numberOf? (numberSpan (x :: s)).1 = some (numberValue (numberSpan (x :: s)).1) := by
  have hlexeme := lexeme_numberSpan s hx
  have hsplit := numberSpan_append (x :: s)
  obtain ⟨y, t, htext⟩ := List.exists_cons_of_ne_nil (numberSpan_ne_nil s hx)
  rw [htext] at hlexeme hsplit ⊢
  obtain rfl : y = x := (List.cons.inj hsplit).1
  have hcut := cut_of_lexeme hlexeme
  rw [cut_number hx] at hcut
  rw [numberOf?, if_pos ⟨hx, congrArg Prod.snd hcut⟩]

/-- Where no digit comes first, a number is no more than a fraction. -/
theorem numberSpan_of_not_digit (hrest : rest.takeWhile isDigit = []) :
    (∃ d t, rest = '.' :: d :: t ∧ isDigit d = true ∧
      (numberSpan rest).1 = '.' :: d :: t.takeWhile isDigit) ∨
    ¬(∃ d t, rest = '.' :: d :: t ∧ isDigit d = true) ∧ (numberSpan rest).1 = [] := by
  have hspan := List.takeWhile_append_dropWhile (p := isDigit) (l := rest)
  rw [hrest, List.nil_append] at hspan
  by_cases hpoint : ∃ d t, rest = '.' :: d :: t ∧ isDigit d = true
  · obtain ⟨d, t, rfl, hd⟩ := hpoint
    exact .inl ⟨d, t, rfl, hd, by rw [numberSpan_of_point hspan hd, hrest]; rfl⟩
  · refine .inr ⟨hpoint, ?_⟩
    rw [numberSpan_of_whole, hrest]
    exact fun d t heq => Bool.eq_false_iff.mpr fun hd => hpoint ⟨d, t, by rw [← heq, hspan], hd⟩

theorem takeWhile_dropWhile (p : Char → Bool) (s : List Char) : (s.dropWhile p).takeWhile p = [] := by
  cases hdrop : s.dropWhile p with
  | nil => rfl
  | cons d t =>
    have hstop := List.head?_dropWhile_not p s
    rw [hdrop] at hstop
    exact List.takeWhile_cons_of_neg (by simpa using hstop)

/-- A number is its first digits, and the fraction behind them. -/
theorem numberSpan_cons (hx : isDigit x = true) (s : List Char) : (numberSpan (x :: s)).1 =
    x :: (s.takeWhile isDigit ++ (numberSpan (s.dropWhile isDigit)).1) := by
  have htake := takeWhile_dropWhile isDigit s
  have hdrop : (s.dropWhile isDigit).dropWhile isDigit = s.dropWhile isDigit := by
    have hspan := List.takeWhile_append_dropWhile (p := isDigit) (l := s.dropWhile isDigit)
    rwa [htake, List.nil_append] at hspan
  unfold numberSpan
  rw [List.takeWhile_cons_of_pos hx, List.dropWhile_cons_of_pos hx, hdrop, htake]
  dsimp only
  split
  · split <;> simp
  · simp

/-- A point is passed if a digit is behind it, and the digits with it. -/
theorem fraction_apply (h : c.At before rest) (hrest : rest.takeWhile isDigit = []) :
    fraction c = .ok ⟨⟩ (c.passed (bytes (numberSpan rest).1)) := by
  rw [fraction, bind_of_ok peek_apply, bind_of_ok peekNext_apply]
  obtain ⟨d, t, rfl, hd, hspan⟩ | ⟨hpoint, hspan⟩ := numberSpan_of_not_digit hrest
  · have hpassed : (c.passed ['.']).At (before ++ ['.']) (d :: t) := h.passed (s := ['.'])
    have htake := (hpassed.span uniform_isDigit).1
    have hbytes : bytes ('.' :: d :: t) = '.' :: d :: bytes t := by
      rw [bytes_cons_of_ascii (by decide), bytes_cons_of_ascii (ascii_of_isDigit hd)]
    have hahead := h.ahead
    rw [hbytes] at hahead
    rw [hahead, List.headD_cons, List.tail_cons, List.headD_cons, if_pos ⟨rfl, hd⟩,
      bind_of_ok (advance_passed hahead (by decide)), bind_of_ok steps_apply,
      passWhile_apply rfl rfl (length_ahead_lt _), htake, passed_append, hspan,
      List.takeWhile_cons_of_pos hd]
    rfl
  · rw [hspan, if_neg]
    · rfl
    · rintro ⟨hdot, hdigit⟩
      rw [h.ahead] at hdot hdigit
      have hmark : Uniform (· == '.') := uniform_of_false fun d hd => by
        rw [beq_iff_eq.mp hd]
        decide
      obtain ⟨d, t, rfl, hd⟩ := headD_bytes hmark rfl (beq_iff_eq.mpr hdot)
      obtain rfl := beq_iff_eq.mp hd
      rw [bytes_cons_of_ascii (by decide), List.tail_cons] at hdigit
      obtain ⟨e, t, rfl, he⟩ := headD_bytes uniform_isDigit rfl hdigit
      exact hpoint ⟨e, t, rfl, he⟩

/-- Behind the first digit of a number its other digits are passed, and then the fraction. -/
theorem digits_apply (h : c.At before (x :: s)) (hx : isDigit x = true) :
    ∃ c', passWhile isDigit (c.src.length + 1) (c.passed [x]) = .ok ⟨⟩ c' ∧
      fraction c' = .ok ⟨⟩ (c.passed (bytes (numberSpan (x :: s)).1)) := by
  have hdigit : (c.passed [x]).At (before ++ [x]) s := by
    have hpassed := h.passed (s := [x])
    rwa [bytes_cons_of_ascii (ascii_of_isDigit hx)] at hpassed
  have htake := (hdigit.span uniform_isDigit).1
  have hbehind : ((c.passed [x]).passed (bytes (s.takeWhile isDigit))).At
      (before ++ [x] ++ s.takeWhile isDigit) (s.dropWhile isDigit) :=
    At.passed (by rwa [List.takeWhile_append_dropWhile])
  have hplace : ((c.passed [x]).passed (bytes (s.takeWhile isDigit))).passed
      (bytes (numberSpan (s.dropWhile isDigit)).1) = c.passed (bytes (numberSpan (x :: s)).1) := by
    rw [passed_append, passed_append, numberSpan_cons hx, bytes_cons_of_ascii (ascii_of_isDigit hx),
      bytes_append]
    rfl
  refine ⟨_, passWhile_apply rfl rfl (length_ahead_lt _), ?_⟩
  rw [htake, fraction_apply hbehind (takeWhile_dropWhile _ _), hplace]

/-- The text between where a number begins and where it ends is the number. -/
theorem numberText_apply (h : c.At before (x :: s)) (hstart : c.start = c.curr) :
    let c' := c.passed (bytes (numberSpan (x :: s)).1)
    Caret.textBetween c'.start c'.curr c' = .ok (numberSpan (x :: s)).1 c' := by
  have hspan : c.At before ((numberSpan (x :: s)).1 ++ (numberSpan (x :: s)).2) := by
    rwa [numberSpan_append]
  have hplace : (c.passed (bytes (numberSpan (x :: s)).1)).start = c.curr := hstart
  intro c'
  rw [hplace]
  exact hspan.textBetween

/-- The text of a number is passed. -/
theorem number_apply (h : c.At before (x :: s)) (hstart : c.start = c.curr) (hx : isDigit x = true) :
    number (c.passed [x]) = .ok ⟨⟩ { c.passed (bytes (numberSpan (x :: s)).1) with
      pending := some (.number (numberValue (numberSpan (x :: s)).1)) } := by
  obtain ⟨c', hdigits, hfraction⟩ := digits_apply h hx
  have htext := numberText_apply h hstart
  have hnumber := numberOf?_numberSpan hx s
  rw [number, bind_of_ok steps_apply]
  refine (bind_of_ok hdigits).trans ?_
  rw [bind_of_ok hfraction, bind_of_ok get_apply, bind_of_ok htext, hnumber]
  rfl

/-- The letters of a word are passed. -/
theorem word_apply (h : c.At before (x :: s)) (hstart : c.start = c.curr) (hx : isWordStart x = true) :
    word (c.passed [x]) = .ok ⟨⟩ { c.passed (bytes (x :: s.takeWhile isWordPart)) with
      pending := some (wordKind (x :: s.takeWhile isWordPart)) } := by
  have hone := bytes_cons_of_ascii (ascii_of_isWordStart hx)
  have hletter : (c.passed [x]).At (before ++ [x]) s := by
    have hpassed := h.passed (s := [x])
    rwa [hone] at hpassed
  obtain ⟨htake, -⟩ := hletter.span uniform_isWordPart
  have hascii : bytes (x :: s.takeWhile isWordPart) = x :: s.takeWhile isWordPart :=
    bytes_of_ascii (List.forall_mem_cons.mpr
      ⟨ascii_of_isWordStart hx, fun d hd => ascii_of_isWordPart (List.mem_takeWhile_imp hd)⟩)
  have hsplit : c.At before (x :: s.takeWhile isWordPart ++ s.dropWhile isWordPart) := by
    rwa [List.cons_append, List.takeWhile_append_dropWhile]
  have hbetween := hsplit.bytesBetween
  rw [word, bind_of_ok steps_apply, bind_of_ok (passWhile_apply rfl rfl (length_ahead_lt _)), htake,
    passed_append, List.singleton_append, ← hone, bind_of_ok get_apply]
  have hplace : (c.passed (bytes (x :: s.takeWhile isWordPart))).start = c.curr := hstart
  rw [hplace]
  refine (bind_of_ok hbetween).trans ?_
  rw [hascii]
  rfl

/-- The class of a piece, if it is a token. -/
def kindOf : Piece → Option Kind
  | .token kind _ => some kind
  | _ => none

/-- The fault in a piece that ends on this line, if there is one. -/
def faultOf (line : Nat) : Piece → Option Item
  | .unexpected x => some (.fault line (.unexpectedCharacter x))
  | .unterminated _ => some (.fault line .unterminatedString)
  | _ => none

/-- The caret goes past the piece, keeps the class of a token and gives back a fault. -/
def Scans (c : Caret) (p : Piece) : Prop :=
  scanToken c = .ok (faultOf (c.passed (bytes p.text)).line p)
    { c.passed (bytes p.text) with pending := kindOf p }

theorem passed_pending (hpending : c.pending = none) (u : List Char) :
    { c.passed u with pending := none } = c.passed u := by
  rw [← hpending]
  rfl

theorem scans_blank (h : c.At before (x :: s)) (hpending : c.pending = none)
    (hx : isBlank x = true) : c.Scans (.blank x) := by
  have hahead := h.ahead
  have hkind : kindOf (.blank x) = none := rfl
  simp only [isBlank, Bool.or_eq_true, beq_iff_eq] at hx
  rw [Scans, hkind, passed_pending hpending, scanToken]
  obtain ((rfl | rfl) | rfl) | rfl := hx
  all_goals rw [bytes_cons_of_ascii (by decide)] at hahead
  · rw [bind_of_ok (advance_passed hahead (by decide))]
    rfl
  · rw [bind_of_ok (advance_passed hahead (by decide))]
    rfl
  · rw [bind_of_ok (advance_passed hahead (by decide))]
    rfl
  · rw [bind_of_ok (advance_apply hahead)]
    rfl

theorem scans_string (h : c.At before ('"' :: s)) (hstart : c.start = c.curr)
    (hpending : c.pending = none) : c.Scans (cutString s).1 := by
  have hahead := h.ahead
  rw [bytes_cons_of_ascii (by decide)] at hahead
  have hsplit := List.takeWhile_append_dropWhile (p := (· != '"')) (l := s)
  rw [Scans, scanToken, bind_of_ok (advance_passed hahead (by decide)), if_neg (by decide),
    if_neg (by decide), if_neg (by decide), if_pos rfl, string_apply h hstart]
  unfold cutString
  cases hdrop : s.dropWhile (· != '"') with
  | nil =>
    rw [hdrop, List.append_nil] at hsplit
    have hkind : kindOf (.unterminated ('"' :: s)) = none := rfl
    rw [hsplit, hkind, passed_pending hpending]
    rfl
  | cons d rest =>
    have hd : d = '"' := by
      have hstop := List.head?_dropWhile_not (· != '"') s
      simpa [hdrop] using hstop
    rw [hd]
    rfl

/-- Behind the tests for blanks, slashes and quotes. -/
theorem scanToken_of_not_blank (hahead : c.ahead = b :: t) (hblank : isBlank b = false)
    (hquote : b ≠ '"') (hslash : b ≠ '/') : scanToken c =
      (if isDigit b then do
        number
        return none
      else if isWordStart b then do
        word
        return none
      else
        match Punct.ofPair? b '=', Punct.ofChar? b with
        | some long, some short => do
          emit (.punct (if ← matchByte '=' then long else short))
          return none
        | _, some p => do
          emit (.punct p)
          return none
        | _, none => unexpected : Move (Option Item)) (c.passed [b]) := by
  simp only [isBlank, Bool.or_eq_false_iff, beq_eq_false_iff_ne] at hblank
  obtain ⟨⟨⟨hspace, htab⟩, hreturn⟩, hnewline⟩ := hblank
  have hplain : ¬(b = ' ' ∨ b = '\r' ∨ b = '\t') := by
    rintro (h | h | h)
    · exact hspace h
    · exact hreturn h
    · exact htab h
  rw [scanToken, bind_of_ok (advance_passed hahead hnewline), if_neg hplain, if_neg hnewline,
    if_neg hslash]
  exact congrFun (if_neg hquote) _

/-- A character with a property is none of those without it. -/
theorem ne_of_property {d : Char} (hx : p x = true) (hd : p d = false) : x ≠ d := by
  rintro rfl
  rw [hx] at hd
  cases hd

theorem scans_number (h : c.At before (x :: s)) (hstart : c.start = c.curr) (hx : isDigit x = true) :
    c.Scans (.token (.number (numberValue (numberSpan (x :: s)).1)) (numberSpan (x :: s)).1) := by
  have hahead := h.ahead
  rw [bytes_cons_of_ascii (ascii_of_isDigit hx)] at hahead
  rw [Scans, scanToken_of_not_blank hahead (isBlank_of_isDigit hx) (ne_of_property hx (by decide))
    (ne_of_property hx (by decide)), if_pos hx, bind_of_ok (number_apply h hstart hx)]
  rfl

theorem scans_word (h : c.At before (x :: s)) (hstart : c.start = c.curr)
    (hx : isWordStart x = true) :
    c.Scans (.token (wordKind (x :: s.takeWhile isWordPart)) (x :: s.takeWhile isWordPart)) := by
  have hahead := h.ahead
  rw [bytes_cons_of_ascii (ascii_of_isWordStart hx)] at hahead
  rw [Scans, scanToken_of_not_blank hahead (isBlank_of_isWordStart hx) (ne_of_property hx (by decide))
    (ne_of_property hx (by decide)), if_neg (by rw [isDigit_of_isWordStart hx]; decide), if_pos hx,
    bind_of_ok (word_apply h hstart hx)]
  rfl

/-- A character that starts nothing is passed as a whole, wherever in it the caret is. -/
theorem unexpected_apply (h : c.At before (x :: s)) (hstart : c.start = c.curr) (hx : x ≠ '\n')
    (hb : b ≠ '\n') : unexpected (c.passed [b]) =
      .ok (some (.fault (c.passed (bytes [x])).line (.unexpectedCharacter x)))
        (c.passed (bytes [x])) := by
  have hdrop : dropBytes (c.passed [b]).text (c.passed [b]).start = some (x :: s) := by
    show dropBytes c.text c.start = _
    rw [h.text, hstart, h.curr, dropBytes_append]
  have htext : textFrom (c.passed [b]).start (c.passed [b]) = .ok (x :: s) (c.passed [b]) := by
    rw [textFrom, bind_of_ok get_apply, hdrop]
    rfl
  have hnone {d : Char} (hd : d ≠ '\n') : newlines [d] = 0 :=
    List.count_eq_zero.mpr (by simpa using hd.symm)
  have hline : newlines (bytes [x]) = newlines [b] := by rw [newlines_bytes, hnone hx, hnone hb]
  have hcurr : c.curr + (bytes [x]).length = c.start + x.utf8Size := by
    rw [hstart, bytes_cons, bytes_nil, List.append_nil, length_encoded]
  have hplace : c.passed (bytes [x]) = { c.passed [b] with curr := c.start + x.utf8Size } := by
    simp only [passed, hline, hcurr]
  rw [unexpected, bind_of_ok get_apply, bind_of_ok htext, hplace]
  rfl

/-- What a longer mark goes on with, and that it is longer than another. -/
theorem ofPair?_eq_some {d : Char} {long : Punct} (h : Punct.ofPair? x d = some long) :
    d = '=' ∧ ∃ short, Punct.ofChar? x = some short := by
  unfold Punct.ofPair? at h
  split at h
  all_goals first | exact ⟨rfl, _, rfl⟩ | cases h

theorem ascii_of_ofChar? {short : Punct} (h : Punct.ofChar? x = some short) : x.toNat < 128 := by
  have hspelling := Punct.ofChar?_spelling h
  cases short
  all_goals first | (cases hspelling; decide) | (injection hspelling with _ hrest; cases hrest)

theorem scans_slash (h : c.At before ('/' :: s)) (hpending : c.pending = none) :
    c.Scans (cut '/' s).1 := by
  have hahead := h.ahead
  rw [bytes_cons_of_ascii (by decide)] at hahead
  have hslash : (c.passed ['/']).At (before ++ ['/']) s := h.passed (s := ['/'])
  rw [Scans, scanToken, bind_of_ok (advance_passed hahead (by decide)), if_neg (by decide),
    if_neg (by decide), if_pos rfl]
  by_cases hline : s.head? = some '/'
  · obtain ⟨s, rfl⟩ := List.head?_eq_some_iff.mp hline
    have hcomment : ((c.passed ['/']).passed ['/']).At (before ++ ['/'] ++ ['/']) s :=
      hslash.passed (s := ['/'])
    have hnext := hslash.ahead
    have hkind : kindOf (cut '/' ('/' :: s)).1 = none := rfl
    rw [bytes_cons_of_ascii (by decide)] at hnext
    rw [bind_of_ok (matchByte_of_eq hnext (by decide)), if_pos rfl,
      bind_of_ok (lineComment_apply hcomment), hkind, passed_pending hpending, passed_append,
      passed_append]
    rfl
  by_cases hblock : s.head? = some '*'
  · obtain ⟨s, rfl⟩ := List.head?_eq_some_iff.mp hblock
    have hcomment : ((c.passed ['/']).passed ['*']).ahead = bytes s :=
      (hslash.passed (s := ['*'])).ahead
    have hnext := hslash.ahead
    have hkind : kindOf (cut '/' ('*' :: s)).1 = none := rfl
    rw [bytes_cons_of_ascii (by decide)] at hnext
    rw [bind_of_ok (matchByte_of_ne (hslash.head_ne (by decide) hline)), if_neg (by decide),
      bind_of_ok (matchByte_of_eq hnext (by decide)), if_pos rfl, bind_of_ok steps_apply,
      bind_of_ok (passComment_apply (length_ahead_lt _)), hcomment, take_commentLength_bytes, hkind,
      passed_pending hpending, passed_append, passed_append]
    rfl
  · rw [bind_of_ok (matchByte_of_ne (hslash.head_ne (by decide) hline)), if_neg (by decide),
      bind_of_ok (matchByte_of_ne (hslash.head_ne (by decide) hblock)), if_neg (by decide),
      cut_slash hline hblock]
    have hmark : cutMark '/' s = (.token (.punct .slash) ['/'], s) := by
      cases s <;> rfl
    rw [hmark]
    rfl

/-- A character that is no mark starts no longer one. -/
theorem ofPair?_eq_none (h : Punct.ofChar? x = none) (d : Char) : Punct.ofPair? x d = none := by
  cases hlong : Punct.ofPair? x d with
  | none => rfl
  | some long =>
    obtain ⟨-, short, hshort⟩ := ofPair?_eq_some hlong
    rw [h] at hshort
    cases hshort

/-- The next character makes a mark longer only if it is an equals sign. -/
theorem bind_ofPair?_eq_none (h : s.head? = some '=' → Punct.ofPair? x '=' = none) :
    s.head?.bind (Punct.ofPair? x) = none := by
  rw [Option.bind_eq_none_iff]
  intro d hd
  cases hlong : Punct.ofPair? x d with
  | none => rfl
  | some long =>
    obtain ⟨rfl, -⟩ := ofPair?_eq_some hlong
    rw [← hlong, h hd]

/-- A mark that nothing lengthens is cut off alone. -/
theorem cutMark_single {short : Punct} (h : Punct.ofChar? x = some short)
    (hpair : s.head? = some '=' → Punct.ofPair? x '=' = none) :
    cutMark x s = (.token (.punct short) short.spelling, s) := by
  rw [cutMark, bind_ofPair?_eq_none hpair, h]

/-- A character that is no mark is cut off alone. -/
theorem cutMark_unexpected (h : Punct.ofChar? x = none) (s : List Char) :
    cutMark x s = (.unexpected x, s) := by
  rw [cutMark, bind_ofPair?_eq_none fun _ => ofPair?_eq_none h _, h]

section
variable (h : c.At before (x :: s)) (hblank : isBlank x = false) (hdigit : isDigit x = false)
  (hword : isWordStart x = false) (hquote : x ≠ '"') (hslash : x ≠ '/')
include h hblank hdigit hword hquote hslash

/-- A mark is passed, the longest one that is there. -/
theorem scans_punct {short : Punct} (hshort : Punct.ofChar? x = some short) :
    c.Scans (cutMark x s).1 := by
  have hlt := ascii_of_ofChar? hshort
  have hahead := h.ahead
  rw [bytes_cons_of_ascii hlt] at hahead
  have hbehind := h.passed (s := [x])
  rw [bytes_cons_of_ascii hlt, bytes_nil] at hbehind
  have hone : c.passed (bytes short.spelling) = c.passed [x] := by
    rw [Punct.ofChar?_spelling hshort, bytes_cons_of_ascii hlt, bytes_nil]
  rw [Scans, scanToken_of_not_blank hahead hblank hquote hslash, hdigit, hword,
    if_neg (by decide), if_neg (by decide), hshort]
  cases hlong : Punct.ofPair? x '=' with
  | none =>
    rw [cutMark_single hshort fun _ => hlong, Piece.text, hone]
    rfl
  | some long =>
    dsimp only
    by_cases heq : s.head? = some '='
    · obtain ⟨s, rfl⟩ := List.head?_eq_some_iff.mp heq
      have hcut : cutMark x ('=' :: s) = (.token (.punct long) long.spelling, s) := by
        rw [cutMark, List.head?_cons, Option.bind_some, hlong]
        rfl
      have hnext := hbehind.ahead
      rw [bytes_cons_of_ascii (by decide)] at hnext
      have htwo : c.passed (bytes long.spelling) = (c.passed [x]).passed ['='] := by
        rw [Punct.ofPair?_spelling hlong, bytes_cons_of_ascii hlt, passed_append]
        rfl
      rw [bind_of_ok (matchByte_of_eq hnext (by decide)), hcut, Piece.text, htwo]
      rfl
    · have hcut := cutMark_single hshort fun h => absurd h heq
      rw [bind_of_ok (matchByte_of_ne (hbehind.head_ne (by decide) heq)), hcut, Piece.text, hone]
      rfl

/-- A character that starts nothing is passed, by a test of its first byte. -/
theorem scans_unexpected (hstart : c.start = c.curr) (hpending : c.pending = none)
    (hnone : Punct.ofChar? x = none) : c.Scans (.unexpected x) := by
  obtain ⟨b, t, hencoded⟩ := exists_encoded x
  have hahead := h.ahead
  rw [bytes_cons, hencoded, List.cons_append] at hahead
  have hsame {p : Char → Bool} (hp : Uniform p) : p b = p x :=
    hp.of_mem (by rw [hencoded]; exact List.mem_cons_self)
  have hne {mark : Char} (hmark : mark.toNat < 128) (hx : x ≠ mark) : b ≠ mark := by
    have hb := hsame (uniform_bne hmark)
    rw [bne_iff_ne.mpr hx] at hb
    exact bne_iff_ne.mp hb
  have hnewline : x ≠ '\n' := by
    rintro rfl
    cases hblank
  have hchar : Punct.ofChar? b = none := by
    have hb := hsame (p := fun c => (Punct.ofChar? c).isSome) (uniform_of_false fun c hc => by
      obtain ⟨short, hshort⟩ := Option.isSome_iff_exists.mp hc
      exact ascii_of_ofChar? hshort)
    simpa [hnone] using hb
  have hkind : kindOf (.unexpected x) = none := rfl
  rw [Scans, scanToken_of_not_blank hahead ((hsame uniform_isBlank).trans hblank)
    (hne (by decide) hquote) (hne (by decide) hslash), (hsame uniform_isDigit).trans hdigit,
    (hsame uniform_isWordStart).trans hword, if_neg (by decide), if_neg (by decide), hchar,
    ofPair?_eq_none hchar, hkind, passed_pending hpending]
  exact unexpected_apply h hstart hnewline (hne (by decide) hnewline)

/-- A mark is passed, the longest one that is there, or else a character that starts nothing. -/
theorem scans_mark (hstart : c.start = c.curr) (hpending : c.pending = none) :
    c.Scans (cutMark x s).1 := by
  cases hchar : Punct.ofChar? x with
  | none =>
    rw [cutMark_unexpected hchar]
    exact scans_unexpected h hblank hdigit hword hquote hslash hstart hpending hchar
  | some short => exact scans_punct h hblank hdigit hword hquote hslash hchar

end

/-- The caret goes past the piece that is cut off the text ahead. -/
theorem scans_cut (h : c.At before (x :: s)) (hstart : c.start = c.curr)
    (hpending : c.pending = none) : c.Scans (cut x s).1 := by
  by_cases hblank : isBlank x
  · rw [cut_blank hblank]
    exact scans_blank h hpending hblank
  by_cases hdigit : isDigit x
  · rw [cut_number hdigit]
    exact scans_number h hstart hdigit
  by_cases hword : isWordStart x
  · rw [cut_word hword]
    exact scans_word h hstart hword
  by_cases hquote : x = '"'
  · subst hquote
    exact scans_string h hstart hpending
  by_cases hslash : x = '/'
  · subst hslash
    exact scans_slash h hpending
  · rw [Bool.not_eq_true] at hblank hdigit hword
    have hcut : cut x s = cutMark x s := by
      simp [cut, hblank, hdigit, hword, hquote, hslash]
    rw [hcut]
    exact scans_mark h hblank hdigit hword hquote hslash hstart hpending

end Caret

end Treewalk.Source
