import Mathlib.Data.List.Basic
import Treewalk.Proofs.Source.Ahead
import Treewalk.Source.Item

/-! The bytes of a text. A byte is shown as the character that it is alone, so that what is scanned
character by character may be scanned byte by byte: outside of ASCII no byte looks like a character
that the scanner knows. -/

namespace Treewalk.Source

/-- The bytes of a character. -/
def encoded (c : Char) : List Char :=
  (String.utf8EncodeChar c).map Char.ofUInt8

/-- The bytes of a text. -/
def bytes (s : List Char) : List Char :=
  s.flatMap encoded

/-- The text behind its first `n` bytes. There is none if they end inside a character. -/
def dropBytes : List Char → (n : Nat) → Option (List Char)
  | s, 0 => some s
  | [], _ + 1 => none
  | c :: s, n + 1 => if c.utf8Size ≤ n + 1 then dropBytes s (n + 1 - c.utf8Size) else none

/-- The first `n` bytes as a text, if they do not end inside a character. -/
def takeBytes : List Char → (n : Nat) → Option (List Char)
  | _, 0 => some []
  | [], _ + 1 => none
  | c :: s, n + 1 =>
    if c.utf8Size ≤ n + 1 then (takeBytes s (n + 1 - c.utf8Size)).map (c :: ·) else none

/-- The text from byte `a` to byte `b`, if both are places between characters. -/
def slice (s : List Char) (a b : Nat) : Option (List Char) :=
  if a ≤ b then (dropBytes s a).bind (takeBytes · (b - a)) else none

/-! ### Characters -/

section
variable {b c : Char}

theorem encoded_of_ascii (h : c.toNat < 128) : encoded c = [c] := by
  have hle : c.val.toNat ≤ 127 := Nat.le_of_lt_succ h
  rw [encoded, String.utf8EncodeChar, if_pos hle]
  refine congrArg (fun b => [b]) (Char.ext (UInt32.toNat_inj.mp ?_))
  show (UInt8.ofNat c.val.toNat).toUInt32.toNat = c.val.toNat
  rw [UInt8.toNat_toUInt32, UInt8.toNat_ofNat', Nat.mod_eq_of_lt (by omega)]

theorem le_of_mem_encoded (h : 128 ≤ c.toNat) (hb : b ∈ encoded c) : 128 ≤ b.toNat := by
  obtain ⟨byte, hbyte, rfl⟩ := List.mem_map.mp hb
  show 128 ≤ byte.toUInt32.toNat
  have hlt : ¬c.val.toNat ≤ 127 := Nat.not_le.mpr h
  rw [UInt8.toNat_toUInt32]
  rw [String.utf8EncodeChar, if_neg hlt] at hbyte
  split at hbyte
  on_goal 2 => split at hbyte
  all_goals
    simp only [List.mem_cons, List.not_mem_nil, or_false] at hbyte
    rcases hbyte with rfl | rfl | rfl | rfl <;> rw [UInt8.toNat_ofNat'] <;> omega

theorem length_encoded (c : Char) : (encoded c).length = c.utf8Size := by
  rw [encoded, List.length_map, String.length_utf8EncodeChar]

theorem exists_encoded (c : Char) : ∃ b rest, encoded c = b :: rest := by
  refine List.exists_cons_of_length_pos ?_
  rw [length_encoded]
  exact c.utf8Size_pos

/-- A property that all characters outside of ASCII have, or none of them. -/
def Uniform (p : Char → Bool) : Prop :=
  ∀ b c : Char, 128 ≤ b.toNat → 128 ≤ c.toNat → p b = p c

/-- The bytes of a character have what it has. -/
theorem Uniform.of_mem {p : Char → Bool} (hp : Uniform p) (hb : b ∈ encoded c) : p b = p c := by
  obtain hlt | hle := Nat.lt_or_ge c.toNat 128
  · rw [encoded_of_ascii hlt, List.mem_singleton] at hb
    rw [hb]
  · exact hp b c (le_of_mem_encoded hle hb) hle

theorem uniform_of_false {p : Char → Bool} (h : ∀ c : Char, p c = true → c.toNat < 128) :
    Uniform p := by
  have hnone {c : Char} (hc : 128 ≤ c.toNat) : p c = false :=
    Bool.eq_false_iff.mpr fun htrue => absurd (h c htrue) (Nat.not_lt.mpr hc)
  exact fun b c hb hc => (hnone hb).trans (hnone hc).symm

theorem ascii_of_isDigit (h : isDigit c = true) : c.toNat < 128 := by
  simp only [isDigit, Bool.and_eq_true, decide_eq_true_eq] at h
  exact Nat.lt_of_le_of_lt (UInt32.le_iff_toNat_le.mp h.2) (by decide)

theorem ascii_of_isWordStart (h : isWordStart c = true) : c.toNat < 128 := by
  simp only [isWordStart, Bool.or_eq_true, Bool.and_eq_true, decide_eq_true_eq, beq_iff_eq] at h
  obtain (⟨-, h⟩ | ⟨-, h⟩) | rfl := h
  · exact Nat.lt_of_le_of_lt (UInt32.le_iff_toNat_le.mp h) (by decide)
  · exact Nat.lt_of_le_of_lt (UInt32.le_iff_toNat_le.mp h) (by decide)
  · decide

theorem ascii_of_isWordPart (h : isWordPart c = true) : c.toNat < 128 := by
  rw [isWordPart, Bool.or_eq_true] at h
  exact h.elim ascii_of_isWordStart ascii_of_isDigit

theorem ascii_of_isBlank (h : isBlank c = true) : c.toNat < 128 := by
  simp only [isBlank, Bool.or_eq_true, beq_iff_eq] at h
  obtain ((rfl | rfl) | rfl) | rfl := h <;> decide

theorem uniform_isBlank : Uniform isBlank := uniform_of_false fun _ => ascii_of_isBlank

theorem uniform_isDigit : Uniform isDigit := uniform_of_false fun _ => ascii_of_isDigit

theorem uniform_isWordStart : Uniform isWordStart := uniform_of_false fun _ => ascii_of_isWordStart

theorem uniform_isWordPart : Uniform isWordPart := uniform_of_false fun _ => ascii_of_isWordPart

theorem uniform_bne {mark : Char} (h : mark.toNat < 128) : Uniform (· != mark) := by
  have hall {c : Char} (hc : 128 ≤ c.toNat) : (c != mark) = true := by
    rw [bne_iff_ne]
    rintro rfl
    exact absurd h (Nat.not_lt.mpr hc)
  exact fun b c hb hc => (hall hb).trans (hall hc).symm

end

/-! ### Texts -/

section
variable {p : Char → Bool}

@[simp] theorem bytes_nil : bytes [] = [] := rfl

@[simp] theorem bytes_cons (c : Char) (s : List Char) : bytes (c :: s) = encoded c ++ bytes s :=
  List.flatMap_cons

@[simp] theorem bytes_append (s t : List Char) : bytes (s ++ t) = bytes s ++ bytes t :=
  List.flatMap_append

theorem bytes_cons_of_ascii {c : Char} (h : c.toNat < 128) (s : List Char) :
    bytes (c :: s) = c :: bytes s := by
  rw [bytes_cons, encoded_of_ascii h]
  rfl

theorem bytes_of_ascii {s : List Char} (h : ∀ c ∈ s, c.toNat < 128) : bytes s = s := by
  induction s with
  | nil => rfl
  | cons c s ih =>
    obtain ⟨hc, hs⟩ := List.forall_mem_cons.mp h
    rw [bytes_cons_of_ascii hc, ih hs]

/-- The first byte of a text has what its first character has. -/
theorem head_bytes (hp : Uniform p) {s t : List Char} {b : Char} (h : bytes s = b :: t) :
    ∃ c rest, s = c :: rest ∧ p b = p c := by
  cases s with
  | nil => cases h
  | cons c rest =>
    obtain ⟨b', t', hc⟩ := exists_encoded c
    rw [bytes_cons, hc] at h
    cases h
    exact ⟨c, rest, rfl, hp.of_mem (by rw [hc]; exact List.mem_cons_self)⟩

/-- A character comes first if its first byte has what no end of a text has. -/
theorem headD_bytes (hp : Uniform p) {nul : Char} (hnul : p nul = false) {s : List Char}
    (h : p ((bytes s).headD nul) = true) : ∃ c rest, s = c :: rest ∧ p c = true := by
  cases hbytes : bytes s with
  | nil =>
    rw [hbytes, List.headD_nil, hnul] at h
    cases h
  | cons b t =>
    obtain ⟨c, rest, rfl, hc⟩ := head_bytes hp hbytes
    rw [hbytes, List.headD_cons] at h
    exact ⟨c, rest, rfl, hc ▸ h⟩

/-- A run of characters that have a property is a run of bytes that have it. -/
theorem span_bytes (hp : Uniform p) (s : List Char) :
    (bytes s).takeWhile p = bytes (s.takeWhile p) ∧ (bytes s).dropWhile p = bytes (s.dropWhile p) := by
  induction s with
  | nil => exact ⟨rfl, rfl⟩
  | cons c s ih =>
    rw [bytes_cons]
    cases hc : p c with
    | true =>
      have hall : ∀ b ∈ encoded c, p b = true := fun b hb => (hp.of_mem hb).trans hc
      rw [List.takeWhile_append_of_pos hall, List.dropWhile_append_of_pos hall, ih.1, ih.2,
        List.takeWhile_cons_of_pos hc, List.dropWhile_cons_of_pos hc, bytes_cons]
      exact ⟨rfl, rfl⟩
    | false =>
      obtain ⟨b, rest, hb⟩ := exists_encoded c
      have hnone : ¬p b = true := by
        rw [hp.of_mem (c := c) (by rw [hb]; exact List.mem_cons_self), hc]
        decide
      have hc : ¬p c = true := by rw [hc]; decide
      rw [List.takeWhile_cons_of_neg hc, List.dropWhile_cons_of_neg hc, bytes_cons, hb,
        List.cons_append, List.takeWhile_cons_of_neg hnone, List.dropWhile_cons_of_neg hnone]
      exact ⟨rfl, rfl⟩

theorem length_le_bytes (s : List Char) : s.length ≤ (bytes s).length := by
  induction s with
  | nil => exact Nat.le_refl 0
  | cons c s ih =>
    have hpos := c.utf8Size_pos
    rw [bytes_cons, List.length_append, length_encoded, List.length_cons]
    omega

theorem newlines_bytes (s : List Char) : newlines (bytes s) = newlines s := by
  induction s with
  | nil => rfl
  | cons c s ih =>
    have hone : newlines (encoded c) = newlines [c] := by
      obtain hlt | hle := Nat.lt_or_ge c.toNat 128
      · rw [encoded_of_ascii hlt]
      · rw [newlines, newlines, List.count_eq_zero_of_not_mem, List.count_eq_zero_of_not_mem]
        · rw [List.mem_singleton]
          rintro rfl
          exact absurd hle (by decide)
        · exact fun hmem => absurd (le_of_mem_encoded hle hmem) (by decide)
    rw [bytes_cons, newlines_append, ih, hone, ← newlines_append]
    rfl

end

/-! ### Comments -/

theorem commentLength_add (depth length : Nat) (s : List Char) :
    commentLength depth length s = length + commentLength depth 0 s := by
  have hshift : ∀ m, commentLength depth length s + m = commentLength depth m s + length := by
    fun_induction commentLength depth length s with
    | case1 => simp [commentLength, Nat.add_comm]
    | case2 depth length rest ih =>
      intro m
      rw [commentLength]
      have hrest := ih (m + 2)
      omega
    | case3 depth length rest ih =>
      intro m
      rw [commentLength]
      have hrest := ih (m + 2)
      omega
    | case4 depth length c rest hclose hopen ih =>
      intro m
      rw [commentLength_cons ⟨hclose, hopen⟩]
      have hrest := ih (m + 1)
      omega
    | case5 => simp [commentLength, Nat.add_comm]
  have hzero := hshift 0
  omega

/-- Characters that occur in no mark are passed. -/
theorem commentLength_pass {u : List Char} (h : ∀ b ∈ u, b ≠ '*' ∧ b ≠ '/') (depth : Nat)
    (t : List Char) :
    commentLength (depth + 1) 0 (u ++ t) = u.length + commentLength (depth + 1) 0 t := by
  induction u with
  | nil => simp
  | cons b u ih =>
    obtain ⟨hb, hu⟩ := List.forall_mem_cons.mp h
    have hnone : MarksNone b (u ++ t) :=
      ⟨fun _ hstar => absurd hstar hb.1, fun _ hslash => absurd hslash hb.2⟩
    rw [List.cons_append, commentLength_cons hnone, commentLength_add, ih hu, List.length_cons]
    omega

/-- The bytes of a character that begins no mark are passed. -/
theorem commentLength_encoded {c : Char} {rest : List Char} (h : MarksNone c rest) (depth : Nat) :
    commentLength (depth + 1) 0 (encoded c ++ bytes rest) =
      (encoded c).length + commentLength (depth + 1) 0 (bytes rest) := by
  obtain hlt | hle := Nat.lt_or_ge c.toNat 128
  · have hmark {mark : Char} (hmark : mark.toNat < 128) {r : List Char} (hr : bytes rest = mark :: r) :
        ∃ r', rest = mark :: r' := by
      obtain ⟨d, r', rfl, hd⟩ := head_bytes (uniform_bne hmark) hr
      rw [bne_self_eq_false, eq_comm, bne_eq_false_iff_eq] at hd
      exact ⟨r', by rw [hd]⟩
    have hnone : MarksNone c (bytes rest) := by
      refine ⟨fun r hc hr => ?_, fun r hc hr => ?_⟩
      · obtain ⟨r', hr'⟩ := hmark (by decide) hr
        exact h.1 r' hc hr'
      · obtain ⟨r', hr'⟩ := hmark (by decide) hr
        exact h.2 r' hc hr'
    rw [encoded_of_ascii hlt, List.singleton_append, commentLength_cons hnone, commentLength_add]
    rfl
  · refine commentLength_pass (fun b hb => ?_) depth _
    have hlarge := le_of_mem_encoded hle hb
    constructor <;>
      · rintro rfl
        exact absurd hlarge (by decide)

/-- Two characters of a mark are two bytes. -/
theorem length_bytes_mark {a b : Char} (ha : a.toNat < 128) (hb : b.toNat < 128) (n : Nat)
    (s : List Char) :
    (bytes ((a :: b :: s).take (2 + n))).length = 2 + (bytes (s.take n)).length := by
  rw [Nat.add_comm, List.take_succ_cons, List.take_succ_cons, bytes_cons_of_ascii ha,
    bytes_cons_of_ascii hb, List.length_cons, List.length_cons]
  omega

/-- A comment has as many bytes as its characters have. -/
theorem commentLength_bytes (depth : Nat) (s : List Char) :
    commentLength depth 0 (bytes s) = (bytes (s.take (commentLength depth 0 s))).length := by
  -- The induction is on how the comment is taken, whatever was counted before.
  have hall : ∀ _ : Nat, commentLength depth 0 (bytes s) =
      (bytes (s.take (commentLength depth 0 s))).length := by
    intro length
    induction depth, length, s using commentLength.induct with
    | case1 => simp [commentLength]
    | case2 depth _ rest ih =>
      have hbytes : bytes ('*' :: '/' :: rest) = '*' :: '/' :: bytes rest := rfl
      rw [hbytes, commentLength, commentLength, commentLength_add depth (0 + 2),
        commentLength_add depth (0 + 2), ih, Nat.zero_add,
        length_bytes_mark (a := '*') (b := '/') (by decide) (by decide)]
    | case3 depth _ rest ih =>
      have hbytes : bytes ('/' :: '*' :: rest) = '/' :: '*' :: bytes rest := rfl
      rw [hbytes, commentLength, commentLength, commentLength_add (depth + 2) (0 + 2),
        commentLength_add (depth + 2) (0 + 2), ih, Nat.zero_add,
        length_bytes_mark (a := '/') (b := '*') (by decide) (by decide)]
    | case4 depth _ c rest hclose hopen ih =>
      have hnone : MarksNone c rest := ⟨hclose, hopen⟩
      rw [bytes_cons, commentLength_encoded hnone, ih, commentLength_cons hnone,
        commentLength_add (depth + 1) (0 + 1), Nat.zero_add, Nat.add_comm 1, List.take_succ_cons,
        bytes_cons, List.length_append]
    | case5 => simp [commentLength]
  exact hall 0

/-- The bytes of a comment are those of its characters. -/
theorem take_commentLength_bytes (depth : Nat) (s : List Char) :
    (bytes s).take (commentLength depth 0 (bytes s)) =
      bytes (s.take (commentLength depth 0 s)) := by
  have hsplit := List.take_append_drop (commentLength depth 0 s) s
  rw [commentLength_bytes]
  conv => lhs; arg 2; rw [← hsplit]
  rw [bytes_append, List.take_left]

/-! ### Places between characters -/

theorem dropBytes_append (before rest : List Char) :
    dropBytes (before ++ rest) (bytes before).length = some rest := by
  induction before with
  | nil => cases rest <;> rfl
  | cons c before ih =>
    have hlength : (bytes (c :: before)).length = (c.utf8Size - 1 + (bytes before).length) + 1 := by
      have hpos := c.utf8Size_pos
      rw [bytes_cons, List.length_append, length_encoded]
      omega
    have hpos := c.utf8Size_pos
    rw [hlength, List.cons_append, dropBytes, if_pos (by omega)]
    rw [show c.utf8Size - 1 + (bytes before).length + 1 - c.utf8Size = (bytes before).length by omega]
    exact ih

theorem takeBytes_append (text rest : List Char) :
    takeBytes (text ++ rest) (bytes text).length = some text := by
  induction text with
  | nil => cases rest <;> rfl
  | cons c text ih =>
    have hlength : (bytes (c :: text)).length = (c.utf8Size - 1 + (bytes text).length) + 1 := by
      have hpos := c.utf8Size_pos
      rw [bytes_cons, List.length_append, length_encoded]
      omega
    have hpos := c.utf8Size_pos
    rw [hlength, List.cons_append, takeBytes, if_pos (by omega)]
    rw [show c.utf8Size - 1 + (bytes text).length + 1 - c.utf8Size = (bytes text).length by omega, ih]
    rfl

/-- Between two places between characters lies a text. -/
theorem slice_append (before text rest : List Char) :
    slice (before ++ (text ++ rest)) (bytes before).length (bytes (before ++ text)).length =
      some text := by
  have hlength : (bytes (before ++ text)).length - (bytes before).length = (bytes text).length := by
    rw [bytes_append, List.length_append]
    omega
  rw [slice, if_pos (by simp), dropBytes_append, Option.bind_some, hlength, takeBytes_append]

/-- A place between two characters of a text, or at an end of it. -/
def Boundary (text : List Char) (place : Nat) : Prop :=
  ∃ before rest, text = before ++ rest ∧ place = (bytes before).length

theorem dropBytes_eq_some {text rest : List Char} {n : Nat} (h : dropBytes text n = some rest) :
    ∃ before, text = before ++ rest ∧ n = (bytes before).length := by
  fun_induction dropBytes text n with
  | case1 s =>
    cases h
    exact ⟨[], rfl, rfl⟩
  | case2 => cases h
  | case3 c s n hle ih =>
    obtain ⟨before, rfl, hn⟩ := ih h
    refine ⟨c :: before, rfl, ?_⟩
    rw [bytes_cons, List.length_append, length_encoded, ← hn]
    omega
  | case4 => cases h

theorem takeBytes_eq_some {text front : List Char} {n : Nat} (h : takeBytes text n = some front) :
    ∃ rest, text = front ++ rest ∧ n = (bytes front).length := by
  fun_induction takeBytes text n generalizing front with
  | case1 s =>
    cases h
    exact ⟨s, rfl, rfl⟩
  | case2 => cases h
  | case3 c s n hle ih =>
    obtain ⟨front, hfront, rfl⟩ := Option.map_eq_some_iff.mp h
    obtain ⟨rest, rfl, hn⟩ := ih hfront
    refine ⟨rest, rfl, ?_⟩
    rw [bytes_cons, List.length_append, length_encoded, ← hn]
    omega
  | case4 => cases h

theorem isSome_dropBytes_iff {text : List Char} {n : Nat} :
    (dropBytes text n).isSome ↔ Boundary text n := by
  constructor
  · intro h
    obtain ⟨rest, hrest⟩ := Option.isSome_iff_exists.mp h
    obtain ⟨before, htext, hn⟩ := dropBytes_eq_some hrest
    exact ⟨before, rest, htext, hn⟩
  · rintro ⟨before, rest, rfl, rfl⟩
    rw [dropBytes_append]
    rfl

theorem isSome_slice_iff {text : List Char} {a b : Nat} :
    (slice text a b).isSome ↔ a ≤ b ∧ Boundary text a ∧ Boundary text b := by
  constructor
  · intro h
    obtain ⟨part, hpart⟩ := Option.isSome_iff_exists.mp h
    unfold slice at hpart
    split at hpart
    · next hle =>
      obtain ⟨rest, hdrop, htake⟩ := Option.bind_eq_some_iff.mp hpart
      obtain ⟨before, rfl, ha⟩ := dropBytes_eq_some hdrop
      obtain ⟨behind, rfl, hb⟩ := takeBytes_eq_some htake
      refine ⟨hle, ⟨before, part ++ behind, rfl, ha⟩, before ++ part, behind, by simp, ?_⟩
      rw [bytes_append, List.length_append]
      omega
    · cases hpart
  · rintro ⟨hle, ⟨before, rest, rfl, rfl⟩, before', rest', htext, rfl⟩
    -- One of the two fronts goes on from the other, and the one up to `a` is not the longer one.
    obtain ⟨part, rfl, rfl⟩ | ⟨part, rfl, rfl⟩ := List.append_eq_append_iff.mp htext
    · rw [slice_append]
      rfl
    · have hpart : part = [] := by
        have hlength := length_le_bytes part
        rw [bytes_append, List.length_append] at hle
        exact List.eq_nil_of_length_eq_zero (by omega)
      subst hpart
      have hslice := slice_append before' [] rest
      rw [List.append_nil, List.nil_append] at hslice
      rw [List.append_nil, hslice]
      rfl

end Treewalk.Source
