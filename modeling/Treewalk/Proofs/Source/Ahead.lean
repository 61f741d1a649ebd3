import Mathlib.Data.List.TakeWhile
import Treewalk.Source.Piece

/-! Looking ahead. How far a piece goes depends on little of what follows it: on the first
character, and behind a number that is followed by a point on the one behind the point. Characters
that start a word are not told apart, and the end of a text looks like a newline. Only what is not
closed before the end of the text goes on if more text follows. -/

namespace Treewalk

namespace Source

/-- How many comments are still open at the end of a text, `depth` comments being open at its
start. -/
def commentDepth : (depth : Nat) → List Char → Nat
  | 0, _ => 0
  | depth + 1, '*' :: '/' :: rest => commentDepth depth rest
  | depth + 1, '/' :: '*' :: rest => commentDepth (depth + 2) rest
  | depth + 1, _ :: rest => commentDepth (depth + 1) rest
  | depth + 1, [] => depth + 1

end Source

/-- A block comment that is not closed where its text ends. -/
def Piece.Open : Piece → Prop
  | blockComment ('/' :: '*' :: text) => Source.commentDepth 1 text ≠ 0
  | _ => False

namespace Source

/-! ### Comments -/

theorem le_commentLength (depth length : Nat) (s : List Char) :
    length ≤ commentLength depth length s := by
  fun_induction commentLength depth length s <;> omega

/-- The character begins neither a closing mark nor an opening one. -/
def MarksNone (c : Char) (rest : List Char) : Prop :=
  (∀ r, c = '*' → rest = '/' :: r → False) ∧ ∀ r, c = '/' → rest = '*' :: r → False

theorem MarksNone.of_head {c : Char} {rest rest' : List Char} (h : MarksNone c rest)
    (hhead : ∀ d r, rest' = d :: r → ∃ r', rest = d :: r') : MarksNone c rest' := by
  refine ⟨fun r hc hr => ?_, fun r hc hr => ?_⟩
  · obtain ⟨r', hr'⟩ := hhead _ _ hr
    exact h.1 r' hc hr'
  · obtain ⟨r', hr'⟩ := hhead _ _ hr
    exact h.2 r' hc hr'

theorem commentDepth_cons {c : Char} {rest : List Char} (h : MarksNone c rest) (depth : Nat) :
    commentDepth (depth + 1) (c :: rest) = commentDepth (depth + 1) rest := by
  rw [commentDepth]
  · exact h.1
  · exact h.2

theorem commentLength_cons {c : Char} {rest : List Char} (h : MarksNone c rest)
    (depth length : Nat) :
    commentLength (depth + 1) length (c :: rest) = commentLength (depth + 1) (length + 1) rest := by
  rw [commentLength]
  · exact h.1
  · exact h.2

/-- The characters of a comment leave open what the whole text leaves open. -/
theorem commentDepth_take (depth length : Nat) (s : List Char) :
    commentDepth depth (s.take (commentLength depth length s - length)) = commentDepth depth s := by
  fun_induction commentLength depth length s with
  | case1 => simp [commentDepth]
  | case2 depth length rest ih =>
    have hle := le_commentLength depth (length + 2) rest
    rw [show commentLength depth (length + 2) rest - length =
      commentLength depth (length + 2) rest - (length + 2) + 2 by omega]
    simpa [commentDepth] using ih
  | case3 depth length rest ih =>
    have hle := le_commentLength (depth + 2) (length + 2) rest
    rw [show commentLength (depth + 2) (length + 2) rest - length =
      commentLength (depth + 2) (length + 2) rest - (length + 2) + 2 by omega]
    simpa [commentDepth] using ih
  | case4 depth length c rest hclose hopen ih =>
    have hle := le_commentLength (depth + 1) (length + 1) rest
    rw [show commentLength (depth + 1) (length + 1) rest - length =
      commentLength (depth + 1) (length + 1) rest - (length + 1) + 1 by omega]
    have hnone : MarksNone c rest := ⟨hclose, hopen⟩
    rw [List.take_succ_cons, commentDepth_cons hnone, commentDepth_cons, ih]
    refine hnone.of_head fun d r htake => ?_
    obtain ⟨t, ht⟩ := htake ▸ List.take_prefix _ rest
    exact ⟨r ++ t, ht.symm⟩
  | case5 => simp

/-- A comment that is closed ends where it ended before more text was added. -/
theorem commentLength_append (depth length : Nat) (s t : List Char)
    (h : commentDepth depth s = 0) :
    commentLength depth length (s ++ t) = commentLength depth length s := by
  fun_induction commentDepth depth s generalizing length with
  | case1 => simp [commentLength]
  | case2 depth rest ih => simpa [commentLength] using ih _ h
  | case3 depth rest ih => simpa [commentLength] using ih _ h
  | case4 depth c rest hclose hopen ih =>
    have hnone : MarksNone c rest := ⟨hclose, hopen⟩
    rw [List.cons_append, commentLength_cons hnone, commentLength_cons, ih _ h]
    refine hnone.of_head fun d r happend => ?_
    cases rest with
    | nil => cases h
    | cons d' r' =>
      cases happend
      exact ⟨r', rfl⟩
  | case5 => cases h

/-- A comment that is never closed takes the whole text. -/
theorem commentLength_of_open {depth : Nat} {s : List Char} (h : commentDepth depth s ≠ 0)
    (length : Nat) : commentLength depth length s = length + s.length := by
  fun_induction commentDepth depth s generalizing length with
  | case1 => exact absurd rfl h
  | case2 depth rest ih => simp [commentLength, ih h]; omega
  | case3 depth rest ih => simp [commentLength, ih h]; omega
  | case4 depth c rest hclose hopen ih =>
    rw [commentLength_cons ⟨hclose, hopen⟩, ih h, List.length_cons]
    omega
  | case5 => simp [commentLength]

/-! ### What is seen of a text that follows -/

theorem isDigit_of_isWordStart {c : Char} (h : isWordStart c = true) : isDigit c = false := by
  simp only [isWordStart, isDigit, Bool.or_eq_true, Bool.and_eq_true, decide_eq_true_eq, beq_iff_eq,
    Bool.and_eq_false_iff, decide_eq_false_iff_not, Char.le_def, UInt32.le_iff_toNat_le] at h ⊢
  have hnine : '9'.val.toNat = 57 := rfl
  obtain (⟨hle, -⟩ | ⟨hle, -⟩) | rfl := h
  · have ha : 'a'.val.toNat = 97 := rfl
    omega
  · have ha : 'A'.val.toNat = 65 := rfl
    omega
  · decide

theorem isBlank_of_isWordStart {c : Char} (h : isWordStart c = true) : isBlank c = false := by
  rw [Bool.eq_false_iff]
  intro hblank
  simp only [isBlank, Bool.or_eq_true, beq_iff_eq] at hblank
  obtain ((rfl | rfl) | rfl) | rfl := hblank <;> revert h <;> decide

theorem isBlank_of_isDigit {c : Char} (h : isDigit c = true) : isBlank c = false := by
  rw [Bool.eq_false_iff]
  intro hblank
  simp only [isBlank, Bool.or_eq_true, beq_iff_eq] at hblank
  obtain ((rfl | rfl) | rfl) | rfl := hblank <;> revert h <;> decide

/-- A scan that looks ahead does not tell the two characters apart. -/
def Lookalike (c d : Char) : Prop := c = d ∨ isWordStart c = true ∧ isWordStart d = true

namespace Lookalike

variable {c d : Char}

theorem isDigit_eq (h : Lookalike c d) : isDigit c = isDigit d := by
  obtain rfl | ⟨hc, hd⟩ := h
  · rfl
  · rw [isDigit_of_isWordStart hc, isDigit_of_isWordStart hd]

theorem isWordPart_eq (h : Lookalike c d) : isWordPart c = isWordPart d := by
  obtain rfl | ⟨hc, hd⟩ := h
  · rfl
  · rw [isWordPart, isWordPart, hc, hd, Bool.true_or, Bool.true_or]

/-- A character that starts no word looks like itself only. -/
theorem eq_iff (h : Lookalike c d) {e : Char} (he : isWordStart e = false) : c = e ↔ d = e := by
  obtain rfl | ⟨hc, hd⟩ := h
  · rfl
  · constructor
    · rintro rfl
      rw [hc] at he
      cases he
    · rintro rfl
      rw [hd] at he
      cases he

theorem bne_eq (h : Lookalike c d) {e : Char} (he : isWordStart e = false) :
    (c != e) = (d != e) := by
  rw [Bool.eq_iff_iff, bne_iff_ne, bne_iff_ne, ne_eq, ne_eq, h.eq_iff he]

theorem ofPair?_eq (h : Lookalike c d) (start : Char) :
    Punct.ofPair? start c = Punct.ofPair? start d := by
  have hnone {c : Char} (hc : isWordStart c = true) : Punct.ofPair? start c = none := by
    unfold Punct.ofPair?
    split
    all_goals first | rfl | (revert hc; decide)
  obtain rfl | ⟨hc, hd⟩ := h
  · rfl
  · rw [hnone hc, hnone hd]

end Lookalike

/-- The character that a text starts with. An empty text seems to start with a newline. -/
def first (s : List Char) : Char := s.headD '\n'

theorem first_eq_iff {s : List Char} {e : Char} (he : e ≠ '\n') :
    first s = e ↔ s.head? = some e := by
  cases s with
  | nil => simp [first, he.symm]
  | cons c rest => simp [first]

theorem ofPair?_first (start : Char) (s : List Char) :
    s.head?.bind (Punct.ofPair? start) = Punct.ofPair? start (first s) := by
  cases s with
  | nil =>
    show none = Punct.ofPair? start '\n'
    unfold Punct.ofPair?
    split <;> simp_all
  | cons c rest => rfl

/-- The texts look alike where a piece in front of them ends. -/
def Ahead (s s' : List Char) : Prop := Lookalike (first s) (first s')

namespace Ahead

variable {s s' : List Char}

theorem refl (c : Char) (s s' : List Char) : Ahead (c :: s) (c :: s') := .inl rfl

theorem append (h : Ahead s s') (u : List Char) : Ahead (u ++ s) (u ++ s') := by
  cases u with
  | nil => exact h
  | cons c u => exact .refl c _ _

/-- Whether the texts start with a character that starts no word. -/
theorem head?_eq_iff (h : Ahead s s') {e : Char} (he : isWordStart e = false) (hne : e ≠ '\n') :
    s.head? = some e ↔ s'.head? = some e := by
  rw [← first_eq_iff hne, ← first_eq_iff hne]
  exact h.eq_iff he

theorem ofPair?_eq (h : Ahead s s') (start : Char) :
    s.head?.bind (Punct.ofPair? start) = s'.head?.bind (Punct.ofPair? start) := by
  rw [ofPair?_first, ofPair?_first, Lookalike.ofPair?_eq h]

end Ahead

section
variable {p : Char → Bool} {s t u : List Char}

/-- A search that newlines stop ends at what is in front of `t`. -/
theorem span_append (hu : ∀ c ∈ u, p c = true) (ht : p (first t) = false) :
    (u ++ t).takeWhile p = u ∧ (u ++ t).dropWhile p = t := by
  rw [List.takeWhile_append_of_pos hu, List.dropWhile_append_of_pos hu]
  cases t with
  | nil => simp
  | cons d rest =>
    have hd : p d = false := ht
    simp [hd]

/-- What follows where a search ended stops it, as what followed before did. -/
theorem Ahead.stops (hp : ∀ {c d}, Lookalike c d → p c = p d) (hnewline : p '\n' = false)
    (h : Ahead (s.dropWhile p) t) : p (first t) = false := by
  rw [← hp h]
  have hnot := List.head?_dropWhile_not p s
  cases hrest : s.dropWhile p with
  | nil => exact hnewline
  | cons c rest => rwa [hrest] at hnot

theorem span_ahead (hp : ∀ {c d}, Lookalike c d → p c = p d) (hnewline : p '\n' = false)
    (h : Ahead (s.dropWhile p) t) :
    (s.takeWhile p ++ t).takeWhile p = s.takeWhile p ∧ (s.takeWhile p ++ t).dropWhile p = t :=
  span_append (fun _ hc => List.mem_takeWhile_imp hc) (h.stops hp hnewline)

end

/-- The texts look alike behind a piece. Where they start with a point, they do so behind it. -/
structure Follows (s s' : List Char) : Prop where
  ahead : Ahead s s'
  point : s.head? = some '.' → Ahead s.tail s'.tail

/-! ### Cutting with another text behind the piece -/

section
variable {c : Char} {s t : List Char}

theorem numberSpan_of_point {d : Char} {rest : List Char}
    (h : s.dropWhile isDigit = '.' :: d :: rest) (hd : isDigit d = true) :
    numberSpan s = (s.takeWhile isDigit ++ '.' :: d :: rest.takeWhile isDigit,
      rest.dropWhile isDigit) := by
  simp [numberSpan, h, hd]

theorem numberSpan_of_whole
    (h : ∀ d rest, s.dropWhile isDigit = '.' :: d :: rest → isDigit d = false) :
    numberSpan s = (s.takeWhile isDigit, s.dropWhile isDigit) := by
  unfold numberSpan
  dsimp only
  split
  · next d rest hrest => simp [h d rest hrest, hrest]
  · rfl

theorem numberSpan_follows (h : Follows (numberSpan s).2 t) :
    numberSpan ((numberSpan s).1 ++ t) = ((numberSpan s).1, t) := by
  by_cases hpoint : ∃ d rest, s.dropWhile isDigit = '.' :: d :: rest ∧ isDigit d = true
  · obtain ⟨d, rest, hrest, hd⟩ := hpoint
    rw [numberSpan_of_point hrest hd] at h ⊢
    obtain ⟨htake, hdrop⟩ := span_ahead Lookalike.isDigit_eq rfl h.ahead
    have hahead : Ahead (s.dropWhile isDigit) ('.' :: d :: (rest.takeWhile isDigit ++ t)) := by
      rw [hrest]
      exact .refl _ _ _
    obtain ⟨htake', hdrop'⟩ := span_ahead Lookalike.isDigit_eq rfl hahead
    rw [List.append_assoc, List.cons_append, List.cons_append, numberSpan_of_point hdrop' hd,
      htake', htake, hdrop]
  · have hwhole (d : Char) (rest : List Char) (hrest : s.dropWhile isDigit = '.' :: d :: rest) :
        isDigit d = false :=
      Bool.eq_false_iff.mpr fun hd => hpoint ⟨d, rest, hrest, hd⟩
    rw [numberSpan_of_whole hwhole] at h ⊢
    obtain ⟨htake, hdrop⟩ := span_ahead Lookalike.isDigit_eq rfl h.ahead
    rw [numberSpan_of_whole, htake, hdrop]
    intro d rest hrest
    rw [hdrop] at hrest
    subst hrest
    have hhead := (h.ahead.head?_eq_iff (by decide) (by decide)).mpr rfl
    have hd := Lookalike.isDigit_eq (h.point hhead)
    obtain ⟨tail, htail⟩ := List.head?_eq_some_iff.mp hhead
    rw [htail] at hd
    refine hd.symm.trans ?_
    cases tail with
    | nil => rfl
    | cons d' rest' => exact hwhole d' rest' htail

/-- The piece goes on if more text follows: it is a comment or a string that is not closed. -/
def GoesOn : Piece → Prop
  | .unterminated _ => True
  | p => p.Open

theorem cutString_follows (hend : GoesOn (cutString s).1 → t = []) :
    ∃ u, (cutString s).1.text = '"' :: u ∧ cutString (u ++ t) = ((cutString s).1, t) := by
  unfold cutString at hend ⊢
  dsimp only at hend ⊢
  have hall : ∀ c ∈ s.takeWhile (· != '"'), (c != '"') = true :=
    fun _ hc => List.mem_takeWhile_imp (p := (· != '"')) hc
  cases hrest : s.dropWhile (· != '"') with
  | nil =>
    rw [hrest] at hend
    obtain rfl := hend trivial
    refine ⟨s.takeWhile (· != '"'), rfl, ?_⟩
    rw [List.append_nil, List.takeWhile_eq_self_iff.mpr hall, List.dropWhile_eq_nil_iff.mpr hall]
  | cons quote rest =>
    have hquote : (quote != '"') = false := by
      have hnot := List.head?_dropWhile_not (· != '"') s
      rwa [hrest] at hnot
    obtain ⟨htake, hdrop⟩ := span_append (t := quote :: t) hall hquote
    refine ⟨s.takeWhile (· != '"') ++ [quote], rfl, ?_⟩
    rw [List.append_assoc, List.singleton_append, htake, hdrop]

theorem commentLength_follows (hend : commentDepth 1 s ≠ 0 → t = []) :
    commentLength 1 0 (s.take (commentLength 1 0 s) ++ t) = commentLength 1 0 s := by
  by_cases hclosed : commentDepth 1 s = 0
  · have htake : commentDepth 1 (s.take (commentLength 1 0 s)) = 0 :=
      (commentDepth_take 1 0 s).trans hclosed
    have hlength := commentLength_append 1 0 _ (s.drop (commentLength 1 0 s)) htake
    rw [List.take_append_drop] at hlength
    rw [commentLength_append _ _ _ _ htake, ← hlength]
  · obtain rfl := hend hclosed
    have hlength : commentLength 1 0 s = s.length := by
      rw [commentLength_of_open hclosed, Nat.zero_add]
    rw [hlength, List.take_length, List.append_nil, hlength]

theorem cutMark_follows (h : Follows (cutMark c s).2 t) :
    ∃ u, (cutMark c s).1.text = c :: u ∧ Ahead s (u ++ t) ∧
      cutMark c (u ++ t) = ((cutMark c s).1, t) := by
  unfold cutMark at h ⊢
  cases hpair : s.head?.bind (Punct.ofPair? c) with
  | some p =>
    cases s with
    | nil => cases hpair
    | cons d rest =>
      refine ⟨[d], Punct.ofPair?_spelling hpair, .refl d rest t, ?_⟩
      rw [List.singleton_append, List.head?_cons, Option.bind_some,
        show Punct.ofPair? c d = _ from hpair]
      rfl
  | none =>
    rw [hpair] at h
    dsimp only at h ⊢
    cases hchar : Punct.ofChar? c with
    | some p =>
      rw [hchar] at h
      refine ⟨[], Punct.ofChar?_spelling hchar, h.ahead, ?_⟩
      rw [List.nil_append, ← h.ahead.ofPair?_eq, hpair]
    | none =>
      rw [hchar] at h
      refine ⟨[], rfl, h.ahead, ?_⟩
      rw [List.nil_append, ← h.ahead.ofPair?_eq, hpair]

theorem cut_blank (hc : isBlank c = true) (s : List Char) : cut c s = (.blank c, s) := by
  simp [cut, hc]

theorem cut_number (hc : isDigit c = true) (s : List Char) :
    cut c s = (.token (.number (numberValue (numberSpan (c :: s)).1)) (numberSpan (c :: s)).1,
      (numberSpan (c :: s)).2) := by
  simp [cut, isBlank_of_isDigit hc, hc]

theorem cut_word (hc : isWordStart c = true) (s : List Char) :
    cut c s = (.token (wordKind (c :: s.takeWhile isWordPart)) (c :: s.takeWhile isWordPart),
      s.dropWhile isWordPart) := by
  simp [cut, isBlank_of_isWordStart hc, isDigit_of_isWordStart hc, hc]

theorem cut_slash (hline : s.head? ≠ some '/') (hblock : s.head? ≠ some '*') :
    cut '/' s = cutMark '/' s := by
  cases s with
  | nil => rfl
  | cons d rest =>
    have hslash : d ≠ '/' := fun h => hline (by rw [h, List.head?_cons])
    have hstar : d ≠ '*' := fun h => hblock (by rw [h, List.head?_cons])
    unfold cut
    rw [if_neg (by decide), if_neg (by decide), if_neg (by decide), if_neg (by decide)]
    simp [hslash, hstar]

/-- Nothing follows a piece that would go on. -/
theorem rest_eq_nil : GoesOn (cut c s).1 → (cut c s).2 = [] := by
  unfold cut
  split
  · exact False.elim
  split
  · exact False.elim
  split
  · exact False.elim
  split
  · unfold cutString
    dsimp only
    split
    · exact False.elim
    · exact fun _ => rfl
  split
  · exact False.elim
  · next t _ _ _ _ =>
    intro hopen
    have hdepth : commentDepth 1 t ≠ 0 := by rwa [← commentDepth_take 1 0]
    dsimp only
    rw [commentLength_of_open hdepth, Nat.zero_add, List.drop_length]
  · unfold cutMark
    split
    · exact False.elim
    · split <;> exact False.elim

theorem tail_append {u : List Char} (h : (cut c s).1.text = c :: u) : u ++ (cut c s).2 = s := by
  have happend := cut_append c s
  rw [h] at happend
  exact (List.cons.inj happend).2

/-- A piece is cut off as before if what follows it looks as before, and nothing follows a piece
that would go on. -/
theorem cut_follows (h : Follows (cut c s).2 t) (hend : GoesOn (cut c s).1 → t = []) :
    ∃ u, (cut c s).1.text = c :: u ∧ cut c (u ++ t) = ((cut c s).1, t) := by
  by_cases hblank : isBlank c
  · rw [cut_blank hblank]
    exact ⟨[], rfl, cut_blank hblank t⟩
  by_cases hdigit : isDigit c
  · rw [cut_number hdigit] at h ⊢
    obtain ⟨u, hu⟩ : ∃ u, (numberSpan (c :: s)).1 = c :: u := by
      have happend := numberSpan_append (c :: s)
      cases hnumber : (numberSpan (c :: s)).1 with
      | nil => exact absurd hnumber (numberSpan_ne_nil s hdigit)
      | cons d u =>
        rw [hnumber] at happend
        exact ⟨u, by rw [(List.cons.inj happend).1]⟩
    have hspan := numberSpan_follows h
    rw [hu, List.cons_append] at hspan
    exact ⟨u, hu, by rw [cut_number hdigit, hspan, hu]⟩
  by_cases hword : isWordStart c
  · rw [cut_word hword] at h ⊢
    obtain ⟨htake, hdrop⟩ := span_ahead Lookalike.isWordPart_eq rfl h.ahead
    exact ⟨s.takeWhile isWordPart, rfl, by rw [cut_word hword, htake, hdrop]⟩
  by_cases hquote : c = '"'
  · subst hquote
    have hcut (s : List Char) : cut '"' s = cutString s := by simp [cut, hblank, hdigit, hword]
    rw [hcut] at hend ⊢
    obtain ⟨u, htext, hu⟩ := cutString_follows hend
    exact ⟨u, htext, by rw [hcut, hu]⟩
  by_cases hslash : c = '/'
  · subst hslash
    by_cases hline : s.head? = some '/'
    · obtain ⟨s, rfl⟩ := List.head?_eq_some_iff.mp hline
      have hcut (s : List Char) : cut '/' ('/' :: s) =
        (.lineComment ('/' :: '/' :: s.takeWhile (· != '\n')), s.dropWhile (· != '\n')) := rfl
      rw [hcut] at h ⊢
      obtain ⟨htake, hdrop⟩ := span_ahead (fun hcd => hcd.bne_eq (by decide)) rfl h.ahead
      refine ⟨'/' :: s.takeWhile (· != '\n'), rfl, ?_⟩
      rw [List.cons_append, hcut, htake, hdrop]
    by_cases hblock : s.head? = some '*'
    · obtain ⟨s, rfl⟩ := List.head?_eq_some_iff.mp hblock
      have hcut (s : List Char) : cut '/' ('*' :: s) =
        (.blockComment ('/' :: '*' :: s.take (commentLength 1 0 s)),
          s.drop (commentLength 1 0 s)) := rfl
      rw [hcut] at hend ⊢
      have hlength := commentLength_follows (s := s) (t := t) fun hopen =>
        hend (by rwa [← commentDepth_take 1 0] at hopen)
      have hle : commentLength 1 0 s ≤ s.length := by simpa using commentLength_le 1 0 s
      refine ⟨'*' :: s.take (commentLength 1 0 s), rfl, ?_⟩
      rw [List.cons_append, hcut, hlength]
      simp [hle]
    · rw [cut_slash hline hblock] at h ⊢
      obtain ⟨u, htext, hahead, hu⟩ := cutMark_follows h
      refine ⟨u, htext, ?_⟩
      rw [cut_slash, hu]
      · exact fun hhead => hline ((hahead.head?_eq_iff (by decide) (by decide)).mpr hhead)
      · exact fun hhead => hblock ((hahead.head?_eq_iff (by decide) (by decide)).mpr hhead)
  · have hcut (s : List Char) : cut c s = cutMark c s := by
      simp [cut, hblank, hdigit, hword, hquote, hslash]
    rw [hcut] at h ⊢
    obtain ⟨u, htext, -, hu⟩ := cutMark_follows h
    exact ⟨u, htext, by rw [hcut, hu]⟩

end

end Source

end Treewalk
