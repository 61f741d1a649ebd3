import Mathlib.Algebra.Order.Field.Power
import Mathlib.Algebra.Order.Field.Rat
import Mathlib.Tactic.Linarith
import Mathlib.Tactic.NormNum
import Mathlib.Tactic.Positivity
import Mathlib.Tactic.Ring
import Treewalk.Decimal.Shortest

/-! The fewest digits tell doubles apart. The decimal that stands for a double lies in the interval of
the numbers that read back as it, and the intervals of two doubles have no number in common. -/

namespace Treewalk

/-- The magnitude that a decimal stands for. -/
def Decimal.value (d : Decimal) : ℚ := d.digits * 10 ^ d.exponent

/-- A dyadic as doubles have them: all 53 digits of the mantissa are used, or the exponent is the least
one. -/
def Dyadic.Canonical (d : Dyadic) : Prop :=
  d.mantissa < 2 ^ 53 ∧ -1074 ≤ d.exponent ∧ d.exponent ≤ 971 ∧
    (2 ^ 52 ≤ d.mantissa ∨ d.exponent = -1074)

/-- A dyadic as doubles would have them if there were no greatest exponent. -/
structure Dyadic.Formed (d : Dyadic) : Prop where
  mantissa_lt : d.mantissa < 2 ^ 53
  le_exponent : -1074 ≤ d.exponent
  normal : 2 ^ 52 ≤ d.mantissa ∨ d.exponent = -1074

theorem Dyadic.Canonical.formed {d : Dyadic} (h : d.Canonical) : d.Formed :=
  ⟨h.1, h.2.1, h.2.2.2⟩

theorem Dyadic.Formed.canonical {d : Dyadic} (h : d.Formed) (hgreatest : d.exponent ≤ 971) :
    d.Canonical :=
  ⟨h.mantissa_lt, h.le_exponent, hgreatest, h.normal⟩

/-- A power of ten is below a power of two, if it is by the continued fractions of the logarithm. -/
theorem ten_zpow_le_two_zpow {k e : Int} (hcoarse : 10 * k ≤ 3 * e) (hfine : 93 * k ≤ 28 * e) :
    (10 : ℚ) ^ k ≤ 2 ^ e := by
  obtain he | he := Int.le_total 0 e
  · refine le_of_pow_le_pow_left₀ (by decide : 10 ≠ 0) (by positivity) ?_
    calc ((10 : ℚ) ^ k) ^ 10 = 10 ^ (10 * k) := by rw [← zpow_natCast, ← zpow_mul, mul_comm]; rfl
      _ ≤ 10 ^ (3 * e) := zpow_le_zpow_right₀ (by norm_num) hcoarse
      _ = ((10 : ℚ) ^ (3 : Int)) ^ e := zpow_mul ..
      _ ≤ ((2 : ℚ) ^ (10 : Int)) ^ e := zpow_le_zpow_left₀ he (by positivity) (by norm_num)
      _ = (2 ^ e) ^ 10 := by rw [← zpow_natCast, ← zpow_mul, ← zpow_mul, mul_comm]; rfl
  · refine le_of_pow_le_pow_left₀ (by decide : 93 ≠ 0) (by positivity) ?_
    calc ((10 : ℚ) ^ k) ^ 93 = 10 ^ (93 * k) := by rw [← zpow_natCast, ← zpow_mul, mul_comm]; rfl
      _ ≤ 10 ^ (28 * e) := zpow_le_zpow_right₀ (by norm_num) hfine
      _ = ((10 : ℚ) ^ (28 : Int)) ^ e := zpow_mul ..
      _ ≤ ((2 : ℚ) ^ (93 : Int)) ^ e := by
        have hbase : ((2 : ℚ) ^ (93 : Int)) ^ (-e) ≤ ((10 : ℚ) ^ (28 : Int)) ^ (-e) :=
          zpow_le_zpow_left₀ (by omega) (by positivity) (by norm_num)
        rw [zpow_neg, zpow_neg] at hbase
        exact (inv_le_inv₀ (by positivity) (by positivity)).mp hbase
      _ = (2 ^ e) ^ 93 := by rw [← zpow_natCast, ← zpow_mul, ← zpow_mul, mul_comm]; rfl

namespace Span

variable {tie : Tie} {s : Span} {k : Int} {y : Nat} {x : ℚ}

/-- The number lies in the span. -/
def Mem (s : Span) (x : ℚ) : Prop :=
  if s.closed then s.low * 2 ^ s.exponent ≤ x ∧ x ≤ s.high * 2 ^ s.exponent
  else s.low * 2 ^ s.exponent < x ∧ x < s.high * 2 ^ s.exponent

theorem Mem.low_le (h : s.Mem x) : s.low * 2 ^ s.exponent ≤ x := by
  unfold Mem at h
  split at h
  · exact h.1
  · exact h.1.le

theorem Mem.le_high (h : s.Mem x) : x ≤ s.high * 2 ^ s.exponent := by
  unfold Mem at h
  split at h
  · exact h.2
  · exact h.2.le

/-- The factors bring the two units to a common one. -/
theorem factors_eq (s : Span) (k : Int) : ∃ c : ℚ, 0 < c ∧
    ((s.factors k).1 : ℚ) = 2 ^ s.exponent * c ∧ ((s.factors k).2 : ℚ) = 10 ^ k * c := by
  have hsplit (b : ℚ) (hb : b ≠ 0) (e : Int) : b ^ e.toNat = b ^ e * b ^ (-e).toNat := by
    rw [← zpow_natCast, ← zpow_natCast, ← zpow_add₀ hb]
    congr 1
    omega
  refine ⟨2 ^ (-s.exponent).toNat * 10 ^ (-k).toNat, by positivity, ?_, ?_⟩
  · simp only [factors, Nat.pow_eq, Nat.cast_mul, Nat.cast_pow, Nat.cast_ofNat]
    rw [hsplit 2 (by norm_num) s.exponent]
    ring
  · simp only [factors, Nat.pow_eq, Nat.cast_mul, Nat.cast_pow, Nat.cast_ofNat]
    rw [hsplit 10 (by norm_num) k]
    ring

theorem contains_iff : s.contains k y = true ↔ s.Mem (y * 10 ^ k) := by
  obtain ⟨c, hc, hunits, hgrid⟩ := s.factors_eq k
  have hscale (a : Nat) : ((a * (s.factors k).1 : Nat) : ℚ) = a * 2 ^ s.exponent * c := by
    rw [Nat.cast_mul, hunits, mul_assoc]
  have hpoint : ((y * (s.factors k).2 : Nat) : ℚ) = y * 10 ^ k * c := by
    rw [Nat.cast_mul, hgrid, mul_assoc]
  have hle (a : Nat) : a * (s.factors k).1 ≤ y * (s.factors k).2 ↔
      (a : ℚ) * 2 ^ s.exponent ≤ y * 10 ^ k := by
    rw [← Nat.cast_le (α := ℚ), hscale, hpoint, mul_le_mul_iff_left₀ hc]
  have hge (a : Nat) : y * (s.factors k).2 ≤ a * (s.factors k).1 ↔
      (y : ℚ) * 10 ^ k ≤ a * 2 ^ s.exponent := by
    rw [← Nat.cast_le (α := ℚ), hscale, hpoint, mul_le_mul_iff_left₀ hc]
  unfold contains Mem
  dsimp only
  split
  · rw [decide_eq_true_iff, hle, hge]
  · rw [decide_eq_true_iff, ← not_le, ← not_le, hle, hge, not_le, not_le]

theorem mem_of_nearest? (h : s.nearest? tie k = some y) : s.Mem (y * 10 ^ k) := by
  rw [← contains_iff]
  have hrounded (up : Bool) (hdown : s.contains k (s.floor k) = true)
      (hup : s.contains k (s.floor k + 1) = true) :
      s.contains k (if up then s.floor k + 1 else s.floor k) = true := by
    cases up
    · exact hdown
    · exact hup
  unfold nearest? at h
  dsimp only at h
  split at h
  · next hdown hup =>
    cases h
    exact hrounded _ hdown hup
  · next hdown _ =>
    cases h
    exact hdown
  · next hup =>
    cases h
    exact hup
  · cases h

/-- A grid no wider than the units of the span has a multiple between its low end and its value. -/
theorem nearest?_of_fine (hlow : s.low < s.value) (hhigh : s.value < s.high)
    (hgrid : (10 : ℚ) ^ k ≤ 2 ^ s.exponent) : ∃ y, s.nearest? tie k = some y := by
  obtain ⟨c, hc, hunits, hten⟩ := s.factors_eq k
  have hfine : (s.factors k).2 ≤ (s.factors k).1 := by
    rw [← Nat.cast_le (α := ℚ), hunits, hten]
    exact mul_le_mul_of_nonneg_right hgrid hc.le
  have hpositive : 0 < (s.factors k).2 := by
    have hten : (0 : ℚ) < (s.factors k).2 := by rw [hten]; positivity
    exact_mod_cast hten
  have hbelow : s.floor k * (s.factors k).2 ≤ s.value * (s.factors k).1 := Nat.div_mul_le_self ..
  have habove : s.value * (s.factors k).1 < s.floor k * (s.factors k).2 + (s.factors k).2 :=
    Nat.lt_div_mul_add hpositive
  have hfirst : s.low * (s.factors k).1 + (s.factors k).1 ≤ s.value * (s.factors k).1 := by
    rw [← Nat.succ_mul]
    exact Nat.mul_le_mul_right _ hlow
  have hlast : s.value * (s.factors k).1 + (s.factors k).1 ≤ s.high * (s.factors k).1 := by
    rw [← Nat.succ_mul]
    exact Nat.mul_le_mul_right _ hhigh
  have hcontains : s.contains k (s.floor k) = true := by
    unfold contains
    dsimp only
    split <;> rw [decide_eq_true_iff] <;> omega
  unfold nearest?
  dsimp only
  rw [hcontains]
  cases s.contains k (s.floor k + 1) <;> exact ⟨_, rfl⟩

/-- The search ends with a hit, if the last grid that it tries has one. -/
theorem nearest?_search {n : Nat} (h : ∃ y, s.nearest? tie (k - n) = some y) :
    s.nearest? tie (s.search tie (n + 1) k).exponent = some (s.search tie (n + 1) k).digits := by
  induction n generalizing k with
  | zero =>
    obtain ⟨y, hy⟩ := h
    rw [Nat.cast_zero, sub_zero] at hy
    rw [search, hy]
    exact hy
  | succ n ih =>
    rw [search]
    split
    · next y hy => exact hy
    · refine ih ?_
      rwa [show k - 1 - (n : Int) = k - (n + 1 : Nat) by push_cast; ring]

end Span

namespace Dyadic

variable {tie : Tie} {d d' : Dyadic} {x : ℚ}

theorem low_lt_value (h : 0 < d.mantissa) : d.span.low < d.span.value := by
  unfold span
  dsimp only
  split <;> omega

/-- The decimal that stands for a double other than zero is a hit. -/
theorem nearest?_shortest (hd : d.Canonical) (h : d.mantissa ≠ 0) :
    d.span.nearest? tie (d.shortest tie).exponent = some (d.shortest tie).digits := by
  obtain ⟨hmantissa, hleast, hgreatest, -⟩ := hd
  have hlog : Nat.log2 (4 * d.mantissa) < 55 :=
    (Nat.log2_lt (by omega)).mpr (by omega)
  rw [shortest, if_neg h]
  refine Span.nearest?_search (Span.nearest?_of_fine (low_lt_value (Nat.pos_of_ne_zero h)) ?_ ?_)
  · simp [span]
  · refine ten_zpow_le_two_zpow ?_ ?_ <;>
      simp only [Span.topExponent, span, Nat.cast_ofNat] <;> omega

/-- The decimal that stands for a double other than zero lies in its span. -/
theorem mem_shortest (hd : d.Canonical) (h : d.mantissa ≠ 0) : d.span.Mem (d.shortest tie).value :=
  Span.mem_of_nearest? (nearest?_shortest hd h)

/-- The span of a double ends before that of a greater one, or where it begins; and then one of the two
does not have the point. -/
theorem high_le_low (hd : d.Formed) (hd' : d'.Formed)
    (hlt : d.exponent < d'.exponent ∨ d.exponent = d'.exponent ∧ d.mantissa < d'.mantissa) :
    d.span.high ≤ d'.span.low * 2 ^ (d'.exponent - d.exponent).toNat ∧
      (d.span.closed = true → d'.span.closed = true →
        d.span.high < d'.span.low * 2 ^ (d'.exponent - d.exponent).toNat) := by
  obtain ⟨hmantissa, hleast, -⟩ := hd
  obtain ⟨hmantissa', hleast', hnormal⟩ := hd'
  simp only [span, beq_iff_eq]
  obtain hexponent | ⟨hexponent, hlt⟩ := hlt
  · have hnormal : 2 ^ 52 ≤ d'.mantissa := hnormal.resolve_right (by omega)
    have htwo : 2 ≤ 2 ^ (d'.exponent - d.exponent).toNat :=
      Nat.le_self_pow (by omega) 2
    have hscaled := Nat.mul_le_mul_left
      (4 * d'.mantissa - if d'.mantissa = Nat.pow 2 52 ∧ -1074 < d'.exponent then 1 else 2) htwo
    refine ⟨Nat.le_trans ?_ hscaled, fun heven _ => Nat.lt_of_lt_of_le ?_ hscaled⟩ <;>
      split <;> simp only [Nat.pow_eq] at * <;> omega
  · rw [hexponent, sub_self, Int.toNat_zero, pow_zero, mul_one]
    refine ⟨?_, fun heven heven' => ?_⟩ <;> split <;> omega

/-- The spans of two doubles have no number in common. -/
theorem not_mem_of_lt (hd : d.Formed) (hd' : d'.Formed)
    (hlt : d.exponent < d'.exponent ∨ d.exponent = d'.exponent ∧ d.mantissa < d'.mantissa)
    (hx : d.span.Mem x) : ¬d'.span.Mem x := by
  intro hx'
  obtain ⟨hle, hstrict⟩ := high_le_low hd hd' hlt
  have hunit : (2 : ℚ) ^ d'.span.exponent =
      2 ^ (d'.exponent - d.exponent).toNat * 2 ^ d.span.exponent := by
    rw [← zpow_natCast, ← zpow_add₀ (by norm_num)]
    congr 1
    simp only [span]
    omega
  have hpositive : (0 : ℚ) < 2 ^ d.span.exponent := by positivity
  have hends : (d.span.high : ℚ) * 2 ^ d.span.exponent ≤ d'.span.low * 2 ^ d'.span.exponent := by
    rw [hunit, ← mul_assoc]
    exact mul_le_mul_of_nonneg_right (by exact_mod_cast hle) hpositive.le
  have hboth : (d.span.high : ℚ) * 2 ^ d.span.exponent = d'.span.low * 2 ^ d'.span.exponent :=
    le_antisymm hends (hx'.low_le.trans hx.le_high)
  have hclosed : d.span.closed = true := by
    by_contra hopen
    rw [Span.Mem, if_neg hopen] at hx
    exact absurd (hx'.low_le.trans_lt hx.2) (by rw [hboth]; exact lt_irrefl _)
  have hclosed' : d'.span.closed = true := by
    by_contra hopen
    rw [Span.Mem, if_neg hopen] at hx'
    exact absurd (hx'.1.trans_le hx.le_high) (by rw [hboth]; exact lt_irrefl _)
  have hless : (d.span.high : ℚ) * 2 ^ d.span.exponent < d'.span.low * 2 ^ d'.span.exponent := by
    rw [hunit, ← mul_assoc]
    exact mul_lt_mul_of_pos_right (by exact_mod_cast hstrict hclosed hclosed') hpositive
  exact absurd hboth hless.ne

/-- A number lies in the span of one double at most. -/
theorem eq_of_mem (hd : d.Formed) (hd' : d'.Formed) (hx : d.span.Mem x) (hx' : d'.span.Mem x) :
    d.mantissa = d'.mantissa ∧ d.exponent = d'.exponent := by
  by_contra hne
  obtain hlt | hlt :
      (d.exponent < d'.exponent ∨ d.exponent = d'.exponent ∧ d.mantissa < d'.mantissa) ∨
      (d'.exponent < d.exponent ∨ d'.exponent = d.exponent ∧ d'.mantissa < d.mantissa) := by omega
  · exact not_mem_of_lt hd hd' hlt hx hx'
  · exact not_mem_of_lt hd' hd hlt hx' hx

/-- The decimal that stands for a double other than zero is positive. -/
theorem value_shortest_pos (hd : d.Canonical) (h : d.mantissa ≠ 0) :
    0 < (d.shortest tie).value := by
  have hlow : 0 < d.span.low := by
    unfold span
    dsimp only
    split <;> omega
  refine lt_of_lt_of_le ?_ (mem_shortest hd h).low_le
  positivity

/-- Doubles with one shortest decimal have one magnitude. -/
theorem eq_of_shortest (hd : d.Canonical) (hd' : d'.Canonical)
    (h : (d.shortest tie).value = (d'.shortest tie).value) :
    d.mantissa = d'.mantissa ∧ d.exponent = d'.exponent := by
  have hzero {d : Dyadic} (h : d.mantissa = 0) : (d.shortest tie).value = 0 := by
    simp [shortest, h, Decimal.value]
  have hexponent {d : Dyadic} (hd : d.Canonical) (h : d.mantissa = 0) : d.exponent = -1074 :=
    hd.2.2.2.resolve_left (by omega)
  by_cases hm : d.mantissa = 0 <;> by_cases hm' : d'.mantissa = 0
  · exact ⟨hm.trans hm'.symm, (hexponent hd hm).trans (hexponent hd' hm').symm⟩
  · exact absurd (hzero hm ▸ h) (value_shortest_pos hd' hm').ne
  · exact absurd (hzero hm' ▸ h) (value_shortest_pos hd hm).ne'
  · have hx : d.span.Mem (d.shortest tie).value := mem_shortest hd hm
    have hx' : d'.span.Mem (d'.shortest tie).value := mem_shortest hd' hm'
    rw [h] at hx
    exact eq_of_mem hd.formed hd'.formed hx hx'

end Dyadic

end Treewalk
