import Mathlib.Tactic.FieldSimp
import Treewalk.Proofs.Numbers.Spans

/-! Rounding to doubles. The mantissa and the two bits behind it tell how far a number is from the
nearest doubles, and shifting keeps them true. So what a positive number is rounded to is the double
whose span has the number: the nearest one, and of two nearest ones the even one. -/

namespace Treewalk

open Float.Model UnpackedFloat

/-- The extended mantissa measures the number `q`: the mantissa is its whole part, the round bit
says whether at least one half is left, and the sticky bit whether anything but that is. -/
structure Measures (em : ExtendedMantissa) (q : ℚ) : Prop where
  le : em.mantissa ≤ q
  lt : q < em.mantissa + 1
  round : em.roundBit = true ↔ em.mantissa + 1 / 2 ≤ q
  sticky : em.stickyBit = true ↔ q ≠ em.mantissa ∧ q ≠ em.mantissa + 1 / 2

namespace Measures

variable {em : ExtendedMantissa} {q : ℚ}

/-- One of the two bits is set unless the number is whole. -/
theorem bits (h : Measures em q) : (em.roundBit || em.stickyBit) = true ↔ q ≠ em.mantissa := by
  rw [Bool.or_eq_true, h.round, h.sticky]
  constructor
  · rintro (hhalf | ⟨hne, -⟩)
    · intro heq
      rw [heq] at hhalf
      linarith
    · exact hne
  · intro hne
    by_cases hhalf : q = em.mantissa + 1 / 2
    · exact .inl hhalf.ge
    · exact .inr ⟨hne, hhalf⟩

theorem shiftRightOne (h : Measures em q) : Measures em.shiftRightOne (q / 2) := by
  have hle := h.le
  have hlt := h.lt
  have hbits := h.bits
  obtain ⟨m, roundBit, stickyBit⟩ := em
  dsimp only at hle hlt hbits
  obtain ⟨k, rfl | rfl⟩ := Nat.even_or_odd' m
  · have hhalf : 2 * k / 2 = k := by omega
    simp only [ExtendedMantissa.shiftRightOne, hhalf, Nat.mul_mod_right]
    push_cast at hle hlt hbits
    refine ⟨by dsimp only; linarith, by dsimp only; linarith, ?_, ?_⟩
    · dsimp only
      simp only [bne_self_eq_false, Bool.false_eq_true, false_iff, not_le]
      linarith
    · dsimp only
      rw [hbits]
      constructor
      · intro hne
        refine ⟨fun heq => hne (by linarith), fun heq => ?_⟩
        linarith
      · rintro ⟨hne, -⟩ heq
        exact hne (by linarith)
  · have hhalf : (2 * k + 1) / 2 = k := by omega
    have hodd : (2 * k + 1) % 2 = 1 := by omega
    simp only [ExtendedMantissa.shiftRightOne, hhalf, hodd]
    push_cast at hle hlt hbits
    refine ⟨by dsimp only; linarith, by dsimp only; linarith, ?_, ?_⟩
    · dsimp only
      simp only [Nat.reduceBneDiff, true_iff]
      linarith
    · dsimp only
      rw [hbits]
      constructor
      · intro hne
        refine ⟨fun heq => ?_, fun heq => hne (by linarith)⟩
        linarith
      · rintro ⟨-, hne⟩ heq
        exact hne (by linarith)

theorem shiftRight (h : Measures em q) (n : Nat) : Measures (em >>> n) (q / 2 ^ n) := by
  induction n with
  | zero =>
    rw [pow_zero, div_one]
    exact h
  | succ n ih =>
    rw [pow_succ, ← div_div]
    exact ih.shiftRightOne

/-- A mantissa with its accuracy, made ready to be shifted. -/
theorem exact (m : Nat) : Measures (.ofMantissaAndAccuracy m .exact) m where
  le := le_rfl
  lt := lt_add_one _
  round := by simp [ExtendedMantissa.ofMantissaAndAccuracy]
  sticky := by simp [ExtendedMantissa.ofMantissaAndAccuracy]

end Measures

/-- The whole number is the nearest one to `q`, and the even one if there are two. -/
structure Nearest (r : Nat) (q : ℚ) : Prop where
  ge : (r : ℚ) - 1 / 2 ≤ q
  le : q ≤ r + 1 / 2
  inside : r % 2 = 1 → (r : ℚ) - 1 / 2 < q ∧ q < r + 1 / 2

namespace Measures

variable {em : ExtendedMantissa} {q : ℚ}

/-- The mantissa is rounded up or down. -/
theorem rounded (h : Measures em q) : Nearest em.roundedMantissa q ∧
    (em.roundedMantissa = em.mantissa ∨ em.roundedMantissa = em.mantissa + 1) := by
  obtain ⟨hle, hlt, hround, hsticky⟩ := h
  obtain ⟨m, roundBit, stickyBit⟩ := em
  dsimp only at hle hlt hround hsticky
  cases roundBit with
  | false =>
    have hbelow : q < m + 1 / 2 := not_le.mp fun hhalf => by simpa using hround.mpr hhalf
    have hrounded : (ExtendedMantissa.mk m false stickyBit).roundedMantissa = m := by
      cases stickyBit <;> rfl
    rw [hrounded]
    exact ⟨⟨by linarith, hbelow.le, fun _ => ⟨by linarith, hbelow⟩⟩, .inl rfl⟩
  | true =>
    have habove : (m : ℚ) + 1 / 2 ≤ q := hround.mp rfl
    cases stickyBit with
    | false =>
      have hhalf : q = m + 1 / 2 := by
        by_contra hne
        have hne' : q ≠ m := fun heq => by linarith
        simpa using hsticky.mpr ⟨hne', hne⟩
      have hrounded : (ExtendedMantissa.mk m true false).roundedMantissa = m + m % 2 := rfl
      rw [hrounded]
      obtain hm | hm := Nat.mod_two_eq_zero_or_one m
      · rw [hm, add_zero]
        exact ⟨⟨by linarith, hhalf.le, fun hodd => by omega⟩, .inl rfl⟩
      · rw [hm]
        refine ⟨⟨?_, ?_, fun hodd => by omega⟩, .inr rfl⟩ <;> push_cast <;> linarith
    | true =>
      have hne : q ≠ m + 1 / 2 := (hsticky.mp rfl).2
      have habove : (m : ℚ) + 1 / 2 < q := lt_of_le_of_ne habove hne.symm
      have hrounded : (ExtendedMantissa.mk m true true).roundedMantissa = m + 1 := rfl
      rw [hrounded]
      refine ⟨⟨?_, ?_, fun _ => ⟨?_, ?_⟩⟩, .inr rfl⟩ <;> push_cast <;> linarith

end Measures

namespace Span

/-- A number lies in the span of a double if, measured in the double's own unit, it is between the
ends. -/
theorem mem_iff (d : Dyadic) (q : ℚ) : d.span.Mem (q * 2 ^ d.exponent) ↔
    if d.span.closed then (d.span.low : ℚ) ≤ 4 * q ∧ 4 * q ≤ d.span.high
    else (d.span.low : ℚ) < 4 * q ∧ 4 * q < d.span.high := by
  have hpositive : (0 : ℚ) < 2 ^ d.span.exponent := by positivity
  have hunit : q * 2 ^ d.exponent = 4 * q * 2 ^ d.span.exponent := by
    rw [show d.exponent = 2 + d.span.exponent by simp [Dyadic.span], zpow_add₀ (by norm_num)]
    norm_num
    ring
  rw [Mem, hunit]
  split <;>
    simp only [mul_le_mul_iff_left₀ hpositive, mul_lt_mul_iff_left₀ hpositive]

end Span

namespace Dyadic

variable {d : Dyadic} {q : ℚ}

/-- The low end of a span whose mantissa is not the least one with all its digits. -/
theorem low_eq (h : ¬(d.mantissa = 2 ^ 52 ∧ -1074 < d.exponent)) :
    d.span.low = 4 * d.mantissa - 2 := by
  simp only [span, Nat.pow_eq, if_neg h]

/-- What is rounded to the mantissa of a double lies in the double's span. A mantissa that is the least
one with all its digits must not have been rounded up to. -/
theorem mem_of_nearest (hq : 0 ≤ q) (h : Nearest d.mantissa q)
    (hleast : d.mantissa = 2 ^ 52 ∧ -1074 < d.exponent → 2 ^ 52 ≤ q) :
    d.span.Mem (q * 2 ^ d.exponent) := by
  obtain ⟨hge, hle, hinside⟩ := h
  rw [Span.mem_iff]
  have hhigh : (d.span.high : ℚ) = 4 * d.mantissa + 2 := by simp [span]
  obtain heven | hodd := Nat.mod_two_eq_zero_or_one d.mantissa
  · have hlow : (d.span.low : ℚ) ≤ 4 * q := by
      by_cases hnarrow : d.mantissa = 2 ^ 52 ∧ -1074 < d.exponent
      · have hlow : (d.span.low : ℚ) ≤ 4 * 2 ^ 52 := by
          exact_mod_cast (Nat.sub_le _ _).trans (Nat.mul_le_mul_left 4 hnarrow.1.le)
        linarith [hleast hnarrow]
      · obtain hzero | hpositive := Nat.eq_zero_or_pos d.mantissa
        · rw [low_eq hnarrow, hzero]
          norm_num
          exact hq
        · rw [low_eq hnarrow, Nat.cast_sub (by omega)]
          push_cast
          linarith
    rw [if_pos (by simp [span, heven]), hhigh]
    exact ⟨hlow, by linarith⟩
  · obtain ⟨hgt, hlt⟩ := hinside hodd
    rw [if_neg (by simp [span, hodd]), hhigh, low_eq (by omega), Nat.cast_sub (by omega)]
    push_cast
    exact ⟨by linarith, by linarith⟩

/-- Below the least mantissa with all its digits the span is a quarter of a unit wide. -/
theorem mem_of_carry (hmantissa : d.mantissa = 2 ^ 52) (hexponent : -1074 < d.exponent)
    (hge : 2 ^ 52 - 1 / 4 ≤ q) (hle : q ≤ 2 ^ 52) : d.span.Mem (q * 2 ^ d.exponent) := by
  have hclosed : d.span.closed = true := by simp [span, hmantissa]
  have hlow : (d.span.low : ℚ) = 4 * 2 ^ 52 - 1 := by
    simp only [span, Nat.pow_eq, hmantissa, hexponent, and_self, if_true]
    norm_num
  have hhigh : (d.span.high : ℚ) = 4 * 2 ^ 52 + 2 := by
    simp only [span, hmantissa]
    norm_num
  rw [Span.mem_iff, if_pos hclosed, hlow, hhigh]
  exact ⟨by linarith, by linarith⟩

/-- The sign of a double. -/
def sign (d : Dyadic) : Sign := if d.negative then .negative else .positive

/-- The double as arithmetic takes it. -/
def unpacked (d : Dyadic) : UnpackedFloat :=
  if h : d.mantissa = 0 then .zero d.sign
  else .finite d.sign d.mantissa d.exponent (Nat.pos_of_ne_zero h)

end Dyadic

/-! ### Rounding -/

theorem mantissa_shiftRight (em : ExtendedMantissa) (n : Nat) :
    (em >>> n).mantissa = em.mantissa / 2 ^ n := by
  induction n with
  | zero => exact (Nat.div_one _).symm
  | succ n ih =>
    rw [pow_succ, ← Nat.div_div_eq_div_mul, ← ih]
    rfl

/-- The exponent at which 53 digits are left of a number, but not less than the least one. -/
theorem targetExponent_eq (e : Int) : Format.binary64.targetExponent e = max (e - 53) (-1074) := rfl

/-- How far a mantissa is shifted: to 53 digits, but not below the least exponent. -/
def shiftAmount (m : Nat) (e : Int) : Nat := (max (m.log2 + e - 52) (-1074) - e).toNat

theorem shiftToTargetExponent_eq (m : Nat) (e : Int) (accuracy : Accuracy) :
    shiftToTargetExponent .binary64 m e accuracy =
      (ExtendedMantissa.ofMantissaAndAccuracy m accuracy >>> shiftAmount m e, e + shiftAmount m e) := by
  have htarget : Format.binary64.targetExponent (totalExponent m e) =
      max (m.log2 + e - 52) (-1074) := by
    rw [targetExponent_eq, totalExponent]
    omega
  simp only [shiftToTargetExponent, shiftToExponent, htarget, shiftAmount]

/-- A mantissa with no more than 53 digits stays as it is. -/
theorem shiftAmount_of_lt {m : Nat} {e : Int} (hm : m < 2 ^ 53) (he : -1074 ≤ e) :
    shiftAmount m e = 0 := by
  have hlog : m.log2 ≤ 52 := by
    obtain rfl | hpositive := Nat.eq_zero_or_pos m
    · simp
    · exact Nat.le_of_lt_succ ((Nat.log2_lt hpositive.ne').mpr hm)
  unfold shiftAmount
  omega

theorem shiftAmount_carry {e : Int} (he : -1074 ≤ e) : shiftAmount (2 ^ 53) e = 1 := by
  unfold shiftAmount
  rw [Nat.log2_two_pow]
  omega

/-- What is left of a mantissa has 53 digits, or the exponent is the least one. -/
theorem shifted_bounds {m : Nat} {e : Int} (hfine : 2 ^ 52 ≤ m ∨ e ≤ -1074) :
    m / 2 ^ shiftAmount m e < 2 ^ 53 ∧ -1074 ≤ e + shiftAmount m e ∧
      (2 ^ 52 ≤ m / 2 ^ shiftAmount m e ∨ e + shiftAmount m e = -1074) := by
  have hlog (hm : 2 ^ 52 ≤ m) : 52 ≤ m.log2 := (Nat.le_log2 (by omega)).mpr hm
  refine ⟨?_, ?_, ?_⟩
  · rw [Nat.div_lt_iff_lt_mul (by positivity), ← Nat.pow_add]
    refine Nat.lt_log2_self.trans_le (Nat.pow_le_pow_right (by decide) ?_)
    unfold shiftAmount
    omega
  · unfold shiftAmount
    omega
  · by_cases hleast : e + shiftAmount m e = -1074
    · exact .inr hleast
    · left
      have hshift : m.log2 = 52 + shiftAmount m e := by
        unfold shiftAmount at hleast ⊢
        omega
      rw [Nat.le_div_iff_mul_le (by positivity), ← Nat.pow_add, ← hshift]
      refine Nat.log2_self_le ?_
      rintro rfl
      rw [Nat.log2_zero] at hshift
      omega

/-- A positive number is rounded to a double whose span has it, if it was given with 53 digits or with
the least exponent. -/
theorem roundWithAccuracy_eq {m : Nat} {e : Int} {accuracy : Accuracy} {q : ℚ}
    (h : Measures (.ofMantissaAndAccuracy m accuracy) q) (hfine : 2 ^ 52 ≤ m ∨ e ≤ -1074) :
    ∃ d : Dyadic, d.Formed ∧ d.negative = false ∧ d.span.Mem (q * 2 ^ e) ∧
      roundWithAccuracy .binary64 .positive m e accuracy = d.unpacked := by
  obtain ⟨hlt, hle, hnormal⟩ := shifted_bounds hfine
  have hshifted := h.shiftRight (shiftAmount m e)
  have hmantissa : (ExtendedMantissa.ofMantissaAndAccuracy m accuracy >>> shiftAmount m e).mantissa =
      m / 2 ^ shiftAmount m e := by
    rw [mantissa_shiftRight]
    cases accuracy with
    | exact => rfl
    | inexact ordering => cases ordering <;> rfl
  have hvalue : q * 2 ^ e = q / 2 ^ shiftAmount m e * 2 ^ (e + shiftAmount m e) := by
    rw [zpow_add₀ (by norm_num), zpow_natCast]
    field_simp
  rw [← hmantissa] at hlt hnormal
  rw [hvalue, roundWithAccuracy, shiftToTargetExponent_eq]
  dsimp only
  generalize ExtendedMantissa.ofMantissaAndAccuracy m accuracy >>> shiftAmount m e = em at *
  generalize q / 2 ^ shiftAmount m e = q' at *
  generalize e + shiftAmount m e = t at *
  obtain ⟨hnearest, hrounded⟩ := hshifted.rounded
  generalize em.roundedMantissa = r at *
  rw [shiftToTargetExponent_eq]
  obtain hsmall | hcarry : r < 2 ^ 53 ∨ r = 2 ^ 53 := by omega
  · refine ⟨⟨false, r, t⟩, ⟨hsmall, hle, ?_⟩, rfl, ?_, ?_⟩
    · dsimp only
      omega
    · refine Dyadic.mem_of_nearest ?_ hnearest ?_
      · exact le_trans (Nat.cast_nonneg _) hshifted.le
      · rintro ⟨hr, ht⟩
        dsimp only at hr ht
        have hle : 2 ^ 52 ≤ em.mantissa := by omega
        exact le_trans (by exact_mod_cast hle) hshifted.le
    · rw [shiftAmount_of_lt hsmall hle, Nat.cast_zero, add_zero]
      rfl
  · have hge := hnearest.ge
    have hlast : (em.mantissa : ℚ) + 1 ≤ 2 ^ 53 := by exact_mod_cast hlt
    have hlt := hshifted.lt.trans_le hlast
    rw [hcarry] at hge ⊢
    push_cast at hge
    have hunit : q' * 2 ^ t = q' / 2 * 2 ^ (t + 1) := by
      rw [zpow_add₀ (by norm_num)]
      ring
    refine ⟨⟨false, 2 ^ 52, t + 1⟩, ⟨by norm_num, ?_, .inl le_rfl⟩, rfl, ?_, ?_⟩
    · dsimp only
      omega
    · rw [hunit]
      refine Dyadic.mem_of_carry rfl ?_ ?_ ?_
      · dsimp only
        omega
      · linarith
      · linarith
    · rw [shiftAmount_carry hle]
      rfl

end Treewalk
