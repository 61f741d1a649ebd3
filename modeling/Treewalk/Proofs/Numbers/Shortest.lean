import Treewalk.Proofs.Numbers.Nearest
import Treewalk.Proofs.Numbers.Layouts

/-! The fewest digits. The decimal that stands for a double lies on the coarsest grid that meets the
double's span, so no decimal in the span has fewer digits, and on that grid none is nearer. -/

namespace Treewalk

namespace Span

variable {tie : Tie} {s : Span} {k : Int} {m : Nat} {x y z : ℚ}

theorem Mem.between (hx : s.Mem x) (hz : s.Mem z) (hxy : x ≤ y) (hyz : y ≤ z) : s.Mem y := by
  unfold Mem at *
  split
  · next hclosed =>
    rw [if_pos hclosed] at hx hz
    exact ⟨hx.1.trans hxy, hyz.trans hz.2⟩
  · next hopen =>
    rw [if_neg hopen] at hx hz
    exact ⟨hx.1.trans_le hxy, hyz.trans_lt hz.2⟩

/-- The last multiple that is not above the value, and the one behind it. -/
theorem floor_le (s : Span) (k : Int) : s.floor k * 10 ^ k ≤ s.value * (2 : ℚ) ^ s.exponent ∧
    s.value * (2 : ℚ) ^ s.exponent < (s.floor k + 1 : Nat) * 10 ^ k := by
  obtain ⟨c, hc, hunits, hgrid⟩ := s.factors_eq k
  have hpositive : 0 < (s.factors k).2 := by
    have hgrid : (0 : ℚ) < (s.factors k).2 := by rw [hgrid]; positivity
    exact_mod_cast hgrid
  have hscale (n : Nat) (u : ℚ) {v : Nat} (hv : (v : ℚ) = u * c) :
      ((n * v : Nat) : ℚ) = n * u * c := by
    rw [Nat.cast_mul, hv, mul_assoc]
  constructor
  · have hle : s.floor k * (s.factors k).2 ≤ s.value * (s.factors k).1 := Nat.div_mul_le_self ..
    rw [← Nat.cast_le (α := ℚ), hscale _ _ hunits, hscale _ _ hgrid, mul_le_mul_iff_left₀ hc] at hle
    exact hle
  · have hlt : s.value * (s.factors k).1 < (s.floor k + 1) * (s.factors k).2 := by
      rw [Nat.succ_mul]
      exact Nat.lt_div_mul_add hpositive
    rw [← Nat.cast_lt (α := ℚ), hscale _ _ hunits, hscale _ _ hgrid, mul_lt_mul_iff_left₀ hc] at hlt
    exact hlt

/-- If any multiple in the span is below the value, the last one that is not above it is in the span. -/
theorem contains_floor (hvalue : s.Mem (s.value * 2 ^ s.exponent)) {n : Nat}
    (hn : s.Mem (n * 10 ^ k)) (hle : n ≤ s.floor k) : s.contains k (s.floor k) = true := by
  rw [contains_iff]
  refine hn.between hvalue ?_ (s.floor_le k).1
  exact mul_le_mul_of_nonneg_right (by exact_mod_cast hle) (by positivity)

/-- If any multiple in the span is above the value, the first one above it is in the span. -/
theorem contains_ceil (hvalue : s.Mem (s.value * 2 ^ s.exponent)) {n : Nat}
    (hn : s.Mem (n * 10 ^ k)) (hlt : s.floor k < n) : s.contains k (s.floor k + 1) = true := by
  rw [contains_iff]
  refine hvalue.between hn (s.floor_le k).2.le ?_
  exact mul_le_mul_of_nonneg_right (by exact_mod_cast hlt) (by positivity)

/-- A grid without a hit has no multiple in the span. -/
theorem not_mem_of_nearest? (hvalue : s.Mem (s.value * 2 ^ s.exponent))
    (h : s.nearest? tie k = none) (n : Nat) : ¬s.Mem (n * 10 ^ k) := by
  intro hn
  have hhit : s.contains k (s.floor k) = true ∨ s.contains k (s.floor k + 1) = true :=
    (Nat.lt_or_ge (s.floor k) n).symm.imp (contains_floor hvalue hn) (contains_ceil hvalue hn)
  unfold nearest? at h
  dsimp only at h
  split at h <;> simp_all

/-- Twice how far the value is behind the last multiple that is not above it. -/
def twice (s : Span) (k : Int) : Nat :=
  2 * (s.value * (s.factors k).1 - s.floor k * (s.factors k).2)

/-- Twice the way behind the one multiple is no longer than the grid exactly if the other is no
nearer. -/
theorem twice_iff (s : Span) (k : Int) :
    (s.twice k ≤ (s.factors k).2 ↔ s.value * 2 ^ s.exponent - s.floor k * 10 ^ k ≤
      (s.floor k + 1 : Nat) * (10 : ℚ) ^ k - s.value * 2 ^ s.exponent) ∧
    ((s.factors k).2 ≤ s.twice k ↔ (s.floor k + 1 : Nat) * 10 ^ k - s.value * 2 ^ s.exponent ≤
      s.value * (2 : ℚ) ^ s.exponent - s.floor k * 10 ^ k) := by
  obtain ⟨c, hc, hunits, hgrid⟩ := s.factors_eq k
  have hle : s.floor k * (s.factors k).2 ≤ s.value * (s.factors k).1 := Nat.div_mul_le_self ..
  have htwice : (s.twice k : ℚ) =
      2 * (s.value * 2 ^ s.exponent - s.floor k * 10 ^ k) * c := by
    rw [twice, Nat.cast_mul, Nat.cast_sub hle]
    push_cast
    rw [hunits, hgrid]
    ring
  rw [← Nat.cast_le (α := ℚ), ← Nat.cast_le (α := ℚ), htwice, hgrid, mul_le_mul_iff_left₀ hc,
    mul_le_mul_iff_left₀ hc, Nat.cast_succ]
  constructor <;> constructor <;> intro h <;> linarith

/-- A hit is one of the two multiples next to the value; the other is not nearer, if it is in the
span at all. -/
theorem eq_of_nearest? (h : s.nearest? tie k = some m) :
    m = s.floor k ∧ (s.contains k (s.floor k + 1) = true → s.twice k ≤ (s.factors k).2) ∨
    m = s.floor k + 1 ∧ (s.contains k (s.floor k) = true → (s.factors k).2 ≤ s.twice k) := by
  unfold nearest? at h
  dsimp only at h
  rw [← twice] at h
  split at h
  · cases h
    split
    · next heq =>
      exact (ite_eq_or_eq ..).symm.imp (⟨·, fun _ => heq.le⟩) (⟨·, fun _ => heq.ge⟩)
    · split
      · next hlt => exact .inr ⟨rfl, fun _ => (of_decide_eq_true hlt).le⟩
      · next hle => exact .inl ⟨rfl, fun _ => not_lt.mp fun hlt => hle (decide_eq_true hlt)⟩
  · next hno =>
    cases h
    exact .inl ⟨rfl, fun hyes => absurd (hno.symm.trans hyes) (by decide)⟩
  · next hno _ =>
    cases h
    exact .inr ⟨rfl, fun hyes => absurd (hno.symm.trans hyes) (by decide)⟩
  · cases h

/-- A hit is as near to the value as any multiple in the span. -/
theorem abs_sub_le_of_nearest? (hvalue : s.Mem (s.value * 2 ^ s.exponent))
    (h : s.nearest? tie k = some m) {n : Nat} (hn : s.Mem (n * 10 ^ k)) :
    |m * 10 ^ k - s.value * (2 : ℚ) ^ s.exponent| ≤ |n * 10 ^ k - s.value * (2 : ℚ) ^ s.exponent| := by
  obtain ⟨hbelow, habove⟩ := s.floor_le k
  have hunit : (0 : ℚ) < 10 ^ k := by positivity
  have hleft (hle : n ≤ s.floor k) : s.value * 2 ^ s.exponent - s.floor k * 10 ^ k ≤
      |n * 10 ^ k - s.value * (2 : ℚ) ^ s.exponent| := by
    have hle : (n : ℚ) * 10 ^ k ≤ s.floor k * 10 ^ k :=
      mul_le_mul_of_nonneg_right (by exact_mod_cast hle) hunit.le
    rw [abs_sub_comm]
    exact (sub_le_sub_left hle _).trans (le_abs_self _)
  have hright (hlt : s.floor k < n) : (s.floor k + 1 : Nat) * 10 ^ k - s.value * 2 ^ s.exponent ≤
      |n * 10 ^ k - s.value * (2 : ℚ) ^ s.exponent| := by
    have hle : ((s.floor k + 1 : Nat) : ℚ) * 10 ^ k ≤ n * 10 ^ k :=
      mul_le_mul_of_nonneg_right (by exact_mod_cast hlt) hunit.le
    exact (sub_le_sub_right hle _).trans (le_abs_self _)
  obtain ⟨hnear, hfar⟩ := s.twice_iff k
  obtain ⟨rfl, hother⟩ | ⟨rfl, hother⟩ := eq_of_nearest? h
  · rw [abs_sub_comm (_ * _), abs_of_nonneg (sub_nonneg.mpr hbelow)]
    obtain hlt | hle := Nat.lt_or_ge (s.floor k) n
    · exact (hnear.mp (hother (contains_ceil hvalue hn hlt))).trans (hright hlt)
    · exact hleft hle
  · rw [abs_of_pos (sub_pos.mpr habove)]
    obtain hlt | hle := Nat.lt_or_ge (s.floor k) n
    · exact hright hlt
    · exact (hfar.mp (hother (contains_floor hvalue hn hle))).trans (hleft hle)

/-- No grid that was tried before the search ended has a hit. -/
theorem nearest?_of_exponent_lt {n : Nat} {k' : Int}
    (hlt : (s.search tie n k).exponent < k') (hle : k' ≤ k) : s.nearest? tie k' = none := by
  induction n generalizing k with
  | zero => exact absurd hlt (not_lt.mpr hle)
  | succ n ih =>
    rw [search] at hlt
    cases hk : s.nearest? tie k with
    | some y =>
      rw [hk] at hlt
      exact absurd hlt (not_lt.mpr hle)
    | none =>
      rw [hk] at hlt
      obtain rfl | hlt' := eq_or_lt_of_le hle
      · exact hk
      · exact ih hlt (Int.le_sub_one_of_lt hlt')

end Span

namespace Dyadic

variable {tie : Tie} {d : Dyadic} {k : Int}

/-- All of a span is below the power of ten behind the one that the search begins with. -/
theorem high_lt_top (hd : d.Canonical) (hne : d.mantissa ≠ 0) (hk : d.span.topExponent < k) :
    d.span.high * (2 : ℚ) ^ d.span.exponent < 10 ^ k := by
  obtain ⟨hmantissa, hleast, hgreatest, -⟩ := hd
  have hlog : (4 * d.mantissa).log2 = d.mantissa.log2 + 2 := by
    rw [show 4 * d.mantissa = 2 * (2 * d.mantissa) by ring, Nat.log2_two_mul (by omega),
      Nat.log2_two_mul hne]
  have hsmall : d.mantissa.log2 < 53 := (Nat.log2_lt hne).mpr hmantissa
  have hhigh : d.span.high < 2 ^ (d.mantissa.log2 + 3) := by
    have hlt := Nat.lt_log2_self (n := d.mantissa)
    rw [pow_add, ← Nat.mul_comm (2 ^ 3)]
    rw [pow_succ] at hlt
    simp only [span]
    omega
  calc d.span.high * (2 : ℚ) ^ d.span.exponent
      < 2 ^ (d.mantissa.log2 + 3) * 2 ^ d.span.exponent :=
        mul_lt_mul_of_pos_right (by exact_mod_cast hhigh) (by positivity)
    _ = 2 ^ (d.mantissa.log2 + d.exponent + 1) := by
        rw [← zpow_natCast, ← zpow_add₀ (by norm_num)]
        congr 1
        simp only [span]
        push_cast
        ring
    _ ≤ 10 ^ k := by
        have hpow := ten_zpow_le_two_zpow (k := -k) (e := -(d.mantissa.log2 + d.exponent + 1)) ?_ ?_
        · rw [zpow_neg, zpow_neg] at hpow
          exact (inv_le_inv₀ (by positivity) (by positivity)).mp hpow
        all_goals
          simp only [Span.topExponent, span, hlog] at hk
          push_cast at hk
          omega

theorem span_value (d : Dyadic) : d.span.value * (2 : ℚ) ^ d.span.exponent = d.value := by
  rw [value, show d.exponent = 2 + d.span.exponent by simp [span], zpow_add₀ (by norm_num)]
  simp only [span]
  push_cast
  ring

theorem mem_span_value (d : Dyadic) : d.span.Mem (d.span.value * 2 ^ d.span.exponent) := by
  rw [span_value]
  exact d.mem_value

theorem not_mem_zero (hne : d.mantissa ≠ 0) : ¬d.span.Mem 0 := by
  intro hmem
  have hlow : 0 < d.span.low := by
    unfold span
    dsimp only
    split <;> omega
  exact absurd hmem.low_le (not_le.mpr (by positivity))

/-- No grid that is coarser than that of the shortest decimal meets the span. -/
theorem not_mem_of_exponent_lt (hd : d.Canonical) (hne : d.mantissa ≠ 0)
    (hk : (d.shortest tie).exponent < k) (n : Nat) : ¬d.span.Mem (n * 10 ^ k) := by
  rw [shortest, if_neg hne] at hk
  by_cases htop : k ≤ d.span.topExponent
  · exact Span.not_mem_of_nearest? d.mem_span_value (Span.nearest?_of_exponent_lt hk htop) n
  · intro hmem
    have hhigh := high_lt_top hd hne (not_le.mp htop)
    obtain rfl | hpositive := Nat.eq_zero_or_pos n
    · rw [Nat.cast_zero, zero_mul] at hmem
      exact not_mem_zero hne hmem
    · have hone : (10 : ℚ) ^ k ≤ n * 10 ^ k := by
        have hn : (1 : ℚ) ≤ n := by exact_mod_cast hpositive
        exact le_mul_of_one_le_left (by positivity) hn
      exact absurd (hone.trans hmem.le_high) (not_le.mpr hhigh)

/-- A decimal in the span has no fewer digits than the shortest one. Otherwise the power of ten between
the two would be a multiple of a coarser grid. -/
theorem length_shortest_le (hd : d.Canonical) (hne : d.mantissa ≠ 0) {c : Decimal}
    (hc : d.span.Mem c.value) :
    (d.shortest tie).digitChars.length ≤ c.digitChars.length := by
  by_contra hlt
  have hmem : d.span.Mem (d.shortest tie).value := mem_shortest hd hne
  have hgrid : c.exponent ≤ (d.shortest tie).exponent := by
    by_contra hcoarse
    exact not_mem_of_exponent_lt hd hne (not_le.mp hcoarse) c.digits hc
  have hlength : 0 < c.digitChars.length := Nat.length_toDigits_pos
  have hless : c.digits < 10 ^ c.digitChars.length :=
    (Nat.length_toDigits_le_iff (by decide) hlength).mp le_rfl
  have hmore : 10 ^ c.digitChars.length ≤ (d.shortest tie).digits := by
    by_contra hfew
    exact hlt ((Nat.length_toDigits_le_iff (by decide) hlength).mpr (not_le.mp hfew))
  have hbelow : c.value ≤ 10 ^ (c.digitChars.length + (d.shortest tie).exponent : Int) :=
    calc c.value ≤ 10 ^ c.digitChars.length * 10 ^ c.exponent :=
          mul_le_mul_of_nonneg_right (by exact_mod_cast hless.le) (by positivity)
      _ ≤ 10 ^ c.digitChars.length * 10 ^ (d.shortest tie).exponent :=
          mul_le_mul_of_nonneg_left (zpow_le_zpow_right₀ (by norm_num) hgrid) (by positivity)
      _ = 10 ^ (c.digitChars.length + (d.shortest tie).exponent : Int) := by
          rw [zpow_add₀ (by norm_num), zpow_natCast]
  have habove : 10 ^ (c.digitChars.length + (d.shortest tie).exponent : Int) ≤
      (d.shortest tie).value := by
    rw [zpow_add₀ (by norm_num), zpow_natCast, Decimal.value]
    exact mul_le_mul_of_nonneg_right (by exact_mod_cast hmore) (by positivity)
  have hpower := hc.between hmem hbelow habove
  have hcoarse : (d.shortest tie).exponent < c.digitChars.length + (d.shortest tie).exponent := by
    omega
  rw [← one_mul ((10 : ℚ) ^ _), ← Nat.cast_one] at hpower
  exact not_mem_of_exponent_lt hd hne hcoarse 1 hpower

/-- Of the decimals on its grid that lie in the span none is nearer to the double. -/
theorem abs_shortest_sub_le (hd : d.Canonical) (hne : d.mantissa ≠ 0) {c : Decimal}
    (hc : d.span.Mem c.value) (hexponent : c.exponent = (d.shortest tie).exponent) :
    |(d.shortest tie).value - d.value| ≤ |c.value - d.value| := by
  have hhit : d.span.nearest? tie (d.shortest tie).exponent = some (d.shortest tie).digits :=
    nearest?_shortest hd hne
  rw [Decimal.value, hexponent] at hc
  have hnear := Span.abs_sub_le_of_nearest? d.mem_span_value hhit hc
  rw [span_value] at hnear
  rwa [Decimal.value, Decimal.value, hexponent]

end Dyadic

end Treewalk
