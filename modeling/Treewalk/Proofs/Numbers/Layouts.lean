import Treewalk.Decimal.Layout
import Treewalk.Proofs.Json.Grammar
import Treewalk.Proofs.Numbers.Spans
import Treewalk.Proofs.Source.Ahead

/-! Reading decimals back. Both layouts of a decimal are numbers as JSON has them, and from either the
magnitude can be read off. -/

namespace Treewalk

namespace Json

/-- The whole number with a sign. -/
def signedValue : List Char → Int
  | '-' :: ds => -(Nat.ofDigitChars 10 ds 0)
  | '+' :: ds => Nat.ofDigitChars 10 ds 0
  | ds => Nat.ofDigitChars 10 ds 0

/-- The number before and behind a mark; nothing is behind it if the mark is not there. -/
def cutAt (mark : Char) (cs : List Char) : List Char × List Char :=
  (cs.takeWhile (· != mark), (cs.dropWhile (· != mark)).drop 1)

/-- The magnitude that a text without a sign stands for: digits, with a point and an exponent. -/
def magnitude (cs : List Char) : ℚ :=
  let (significand, exponent) := cutAt 'e' cs
  let (whole, fraction) := cutAt '.' significand
  Nat.ofDigitChars 10 (whole ++ fraction) 0 * 10 ^ (signedValue exponent - fraction.length)

theorem cutAt_of_mark {mark : Char} {cs ds : List Char} (h : mark ∉ cs) :
    cutAt mark (cs ++ mark :: ds) = (cs, ds) := by
  have hne : ∀ c ∈ cs, (c != mark) = true := fun c hc => by
    rw [bne_iff_ne]
    rintro rfl
    exact h hc
  rw [cutAt, List.takeWhile_append_of_pos hne, List.dropWhile_append_of_pos hne]
  simp

theorem cutAt_of_not_mem {mark : Char} {cs : List Char} (h : mark ∉ cs) :
    cutAt mark cs = (cs, []) := by
  have hne : ∀ c ∈ cs, (c != mark) = true := fun c hc => by
    rw [bne_iff_ne]
    rintro rfl
    exact h hc
  have htake : cs.takeWhile (· != mark) = cs := List.takeWhile_eq_self_iff.mpr hne
  have hdrop : cs.dropWhile (· != mark) = [] := List.dropWhile_eq_nil_iff.mpr hne
  rw [cutAt, htake, hdrop]
  rfl

/-- Digits are none of the marks in a number. -/
theorem notMem_digits {mark : Char} {cs : List Char} (hmark : mark.isDigit = false)
    (h : ∀ c ∈ cs, c.isDigit = true) : mark ∉ cs := by
  intro hmem
  rw [h mark hmem] at hmark
  cases hmark

/-- The magnitude of digits with a point in them. -/
theorem magnitude_point {whole fraction : List Char} (hwhole : ∀ c ∈ whole, c.isDigit = true)
    (hfraction : ∀ c ∈ fraction, c.isDigit = true) :
    magnitude (whole ++ '.' :: fraction) =
      Nat.ofDigitChars 10 (whole ++ fraction) 0 * 10 ^ (-fraction.length : Int) := by
  have hmark : 'e' ∉ whole ++ '.' :: fraction := by
    have hwhole : 'e' ∉ whole := notMem_digits (by decide) hwhole
    have hfraction : 'e' ∉ fraction := notMem_digits (by decide) hfraction
    simp [hwhole, hfraction]
  rw [magnitude, cutAt_of_not_mem hmark]
  dsimp only
  rw [cutAt_of_mark (notMem_digits (by decide) hwhole)]
  simp [signedValue]

/-- One digit, and the others behind a point. -/
def significand (c : Char) : List Char → List Char
  | [] => [c]
  | rest => c :: '.' :: rest

/-- The magnitude of digits with one before the point and an exponent behind. -/
theorem magnitude_power {c sign : Char} {rest ds : List Char} (hc : c.isDigit = true)
    (hrest : ∀ d ∈ rest, d.isDigit = true) :
    magnitude (significand c rest ++ 'e' :: sign :: ds) =
      Nat.ofDigitChars 10 (c :: rest) 0 * 10 ^ (signedValue (sign :: ds) - rest.length) := by
  have hone : ∀ d ∈ [c], d.isDigit = true := by simpa using hc
  cases rest with
  | nil =>
    rw [significand, magnitude, cutAt_of_mark (notMem_digits (by decide) hone)]
    dsimp only
    rw [cutAt_of_not_mem (notMem_digits (by decide) hone)]
    simp
  | cons d rest =>
    have hmark : 'e' ∉ [c] ++ '.' :: d :: rest := by
      simp only [List.mem_append, List.mem_cons (a := 'e') (b := '.'), not_or]
      exact ⟨notMem_digits (by decide) hone, by decide, notMem_digits (by decide) hrest⟩
    rw [magnitude, show significand c (d :: rest) = [c] ++ '.' :: d :: rest from rfl,
      cutAt_of_mark hmark]
    dsimp only
    rw [cutAt_of_mark (notMem_digits (by decide) hone)]
    rfl

end Json

open Json

/-- The first digit of a number other than zero is no zero. -/
theorem head_toDigits_ne {n : Nat} (h : n ≠ 0) :
    ∃ c rest, Nat.toDigits 10 n = c :: rest ∧ c ≠ '0' := by
  induction n using Nat.strongRecOn with
  | _ n ih =>
    obtain hlt | hle := Nat.lt_or_ge n 10
    · refine ⟨n.digitChar, [], Nat.toDigits_of_lt_base hlt, ?_⟩
      rwa [Ne, Nat.digitChar_eq_zero]
    · obtain ⟨c, rest, hdigits, hc⟩ := ih (n / 10) (by omega) (by omega)
      refine ⟨c, rest ++ [(n % 10).digitChar], ?_, hc⟩
      rw [Nat.toDigits_of_base_le (by decide) hle, hdigits]
      rfl

namespace Decimal

variable (d : Decimal)

theorem isDigit_digitChars : ∀ c ∈ d.digitChars, c.isDigit = true :=
  fun _ hc => Nat.isDigit_of_mem_toDigits (by decide) (by decide) hc

theorem ofDigitChars_digitChars : Nat.ofDigitChars 10 d.digitChars 0 = d.digits :=
  Nat.ofDigitChars_ten_toDigits

theorem isDigit_replicate (n : Nat) : ∀ c ∈ List.replicate n '0', c.isDigit = true := by
  intro c hc
  rw [List.eq_of_mem_replicate hc]
  decide

theorem isDigit_wholeChars : ∀ c ∈ d.wholeChars, c.isDigit = true := by
  unfold wholeChars
  split
  · exact List.forall_mem_append.mpr ⟨d.isDigit_digitChars, isDigit_replicate _⟩
  · dsimp only
    split
    · exact List.forall_mem_singleton.mpr (by decide)
    · exact fun c hc => d.isDigit_digitChars c (List.mem_of_mem_take hc)

theorem isDigit_fractionChars : ∀ c ∈ d.fractionChars, c.isDigit = true := by
  unfold fractionChars
  split
  · simp
  · refine List.forall_mem_append.mpr ⟨isDigit_replicate _, fun c hc => ?_⟩
    exact d.isDigit_digitChars c (List.mem_of_mem_drop hc)

/-- The digits before and behind the point are those of the decimal, in their places. -/
theorem value_parts : (Nat.ofDigitChars 10 (d.wholeChars ++ d.fractionChars) 0 : ℚ) *
    10 ^ (-d.fractionChars.length : Int) = d.value := by
  unfold value
  by_cases h : 0 ≤ d.exponent
  · have hexponent : (10 : ℚ) ^ d.exponent = 10 ^ d.exponent.toNat := by
      rw [← zpow_natCast, Int.toNat_of_nonneg h]
    rw [wholeChars, fractionChars, if_pos h, if_pos h, List.append_nil, Nat.ofDigitChars_append,
      ofDigitChars_digitChars, Nat.ofDigitChars_replicate_zero, hexponent]
    push_cast
    simp [mul_comm]
  · have hplaces : d.exponent = -((-d.exponent).toNat : Int) := by omega
    have hparts : Nat.ofDigitChars 10 (d.wholeChars ++ d.fractionChars) 0 = d.digits ∧
        d.fractionChars.length = (-d.exponent).toNat := by
      rw [wholeChars, fractionChars, if_neg h, if_neg h]
      dsimp only
      by_cases hshort : d.digitChars.length ≤ (-d.exponent).toNat
      · rw [if_pos hshort, Nat.sub_eq_zero_of_le hshort, List.drop_zero]
        constructor
        · rw [Nat.ofDigitChars_append, Nat.ofDigitChars_append, Nat.ofDigitChars_replicate_zero]
          simp [Nat.ofDigitChars_cons, ofDigitChars_digitChars]
        · simp
          omega
      · rw [if_neg hshort, Nat.sub_eq_zero_of_le (Nat.le_of_not_le hshort), List.replicate_zero,
          List.nil_append, List.take_append_drop, ofDigitChars_digitChars, List.length_drop]
        exact ⟨rfl, by omega⟩
    rw [hparts.1, hparts.2, ← hplaces]

theorem magnitude_pointed : magnitude d.pointed = d.value := by
  unfold pointed
  split
  · next hfraction =>
    rw [magnitude_point d.isDigit_wholeChars (List.forall_mem_singleton.mpr (by decide)),
      ← value_parts, hfraction, List.append_nil, Nat.ofDigitChars_append]
    norm_num [Nat.ofDigitChars_cons]
    ring
  · next hfraction =>
    rw [magnitude_point d.isDigit_wholeChars d.isDigit_fractionChars, value_parts]

/-- There is a first digit. -/
theorem exists_digit : ∃ c rest, d.digitChars = c :: rest ∧ c.isDigit = true ∧
    ∀ e ∈ rest, e.isDigit = true := by
  obtain ⟨c, rest, hdigits⟩ := List.exists_cons_of_ne_nil
    (show d.digitChars ≠ [] from Nat.toDigits_ne_nil)
  have hall := d.isDigit_digitChars
  rw [hdigits, List.forall_mem_cons] at hall
  exact ⟨c, rest, hdigits, hall⟩

theorem scientific_eq {c : Char} {rest : List Char} (h : d.digitChars = c :: rest) :
    d.scientific = significand c rest ++ 'e' :: (if d.leadingExponent < 0 then '-' else '+') ::
      Nat.toDigits 10 d.leadingExponent.natAbs := by
  unfold scientific
  rw [h]
  cases rest <;> rfl

theorem magnitude_scientific : magnitude d.scientific = d.value := by
  obtain ⟨c, rest, hdigits, hc, hrest⟩ := d.exists_digit
  have hexponent : signedValue ((if d.leadingExponent < 0 then '-' else '+') ::
      Nat.toDigits 10 d.leadingExponent.natAbs) = d.leadingExponent := by
    split <;> rw [signedValue, Nat.ofDigitChars_ten_toDigits] <;> omega
  have hplaces : d.leadingExponent - rest.length = d.exponent := by
    rw [leadingExponent, hdigits, List.length_cons]
    omega
  rw [scientific_eq d hdigits, magnitude_power hc hrest, hexponent, hplaces, ← hdigits,
    ofDigitChars_digitChars]
  rfl

end Decimal

end Treewalk
