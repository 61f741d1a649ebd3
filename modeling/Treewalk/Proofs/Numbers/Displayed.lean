import Treewalk.Proofs.Numbers.Shortest
import Treewalk.Value

/-! The text of a number. It has the fewest digits that are read back as the number, each in its place;
and a whole number that is not too great has its own digits, so that it may be printed as one. -/

namespace Treewalk

open Source (decimal nearest numberValue Digits)

/-! ### Reading back -/

theorem Source.decimal_eq (digits : List Char) : decimal digits = Nat.ofDigitChars 10 digits 0 :=
  decimal_eq_foldl digits

namespace Decimal

variable {d : Dyadic} (c : Decimal)

theorem digits_wholeChars : Digits c.wholeChars := by
  refine ⟨?_, c.isDigit_wholeChars⟩
  have hdigits : 0 < c.digitChars.length := Nat.length_toDigits_pos
  unfold wholeChars
  split
  · exact List.append_ne_nil_of_left_ne_nil (List.length_pos_iff.mp hdigits) _
  · dsimp only
    split
    · exact List.cons_ne_nil _ _
    · exact List.length_pos_iff.mp (by rw [List.length_take]; omega)

theorem numberValue_positional :
    numberValue c.positional = nearest c.wholeChars c.fractionChars := by
  have hwhole := c.digits_wholeChars
  unfold positional
  split
  · next hnil => rw [hnil, Source.numberValue_whole hwhole]
  · next hne => rw [Source.numberValue_fraction hwhole ⟨hne, c.isDigit_fractionChars⟩]

/-- The text of a decimal is read as the double nearest to it. -/
theorem roundedFrom_positional :
    (Reading.ofFloat (numberValue c.positional)).RoundedFrom c.value := by
  have hrounded := Source.roundedFrom_nearest c.wholeChars c.fractionChars
  rw [Source.decimal_eq, div_eq_mul_inv, ← zpow_natCast, ← zpow_neg, value_parts] at hrounded
  rwa [numberValue_positional]

/-- The text of the decimal is read as the magnitude of the double. -/
def ReadsAs (c : Decimal) (d : Dyadic) : Prop :=
  Reading.ofFloat (numberValue c.positional) = .finite { d with negative := false }

variable {c}

theorem readsAs_iff (hd : d.Canonical) : c.ReadsAs d ↔ d.span.Mem c.value :=
  c.roundedFrom_positional.finite_iff (d := { d with negative := false }) hd rfl

/-- The decimal is read as the magnitude of the double. None with fewer digits is; and of those on its
grid that are, none is nearer. -/
structure ShortestFor (c : Decimal) (d : Dyadic) : Prop where
  readsAs : c.ReadsAs d
  fewest : ∀ c' : Decimal, c'.ReadsAs d → c.digitChars.length ≤ c'.digitChars.length
  nearest : ∀ c' : Decimal, c'.ReadsAs d → c'.exponent = c.exponent →
    |c.value - d.value| ≤ |c'.value - d.value|

end Decimal

/-- The decimal that the search ends with is the shortest. -/
theorem Dyadic.shortestFor {tie : Tie} {d : Dyadic} (hd : d.Canonical) :
    (d.shortest tie).ShortestFor d := by
  by_cases hzero : d.mantissa = 0
  · have hshortest : d.shortest tie = ⟨0, 0⟩ := if_pos hzero
    have hvalue : (Decimal.mk 0 0).value = d.value := by
      simp [Decimal.value, Dyadic.value, hzero]
    rw [hshortest]
    refine ⟨(Decimal.readsAs_iff hd).mpr (hvalue ▸ d.mem_value), fun c' _ => ?_, fun c' _ _ => ?_⟩
    · exact Nat.length_toDigits_pos
    · rw [hvalue, sub_self, abs_zero]
      exact abs_nonneg _
  · exact ⟨(Decimal.readsAs_iff hd).mpr (mem_shortest hd hzero),
      fun c' hc' => length_shortest_le hd hzero ((Decimal.readsAs_iff hd).mp hc'),
      fun c' hc' => abs_shortest_sub_le hd hzero ((Decimal.readsAs_iff hd).mp hc')⟩

/-! ### Whole numbers -/

/-- A power of ten puts zeros behind the digits. -/
theorem toDigits_mul_pow {n : Nat} (hn : 0 < n) (k : Nat) :
    Nat.toDigits 10 (n * 10 ^ k) = Nat.toDigits 10 n ++ List.replicate k '0' := by
  induction k with
  | zero => simp
  | succ k ih =>
    have hstep := Nat.toDigits_append_toDigits (b := 10) (n := n * 10 ^ k) (d := 0) (by decide)
      (by positivity) (by decide)
    rw [Nat.add_zero, ih, show Nat.toDigits 10 0 = ['0'] from rfl] at hstep
    rw [Nat.pow_succ', Nat.mul_left_comm, ← hstep, List.replicate_succ', List.append_assoc]

namespace Dyadic

variable {d : Dyadic}

/-- A double without a fraction part is its whole part. -/
theorem value_of_isWhole (h : d.isWhole = true) : d.value = d.whole := by
  have hdvd : Nat.pow 2 (-d.exponent).toNat ∣ d.mantissa * Nat.pow 2 d.exponent.toNat :=
    (Nat.dvd_of_mod_eq_zero (by simpa [isWhole] using h)).mul_right _
  have hsplit : (2 : ℚ) ^ d.exponent * 2 ^ (-d.exponent).toNat = 2 ^ d.exponent.toNat := by
    rw [← zpow_natCast, ← zpow_natCast, ← zpow_add₀ (by norm_num)]
    congr 1
    omega
  rw [whole, Nat.cast_div hdvd (by simp), eq_div_iff (by simp), value]
  push_cast [Nat.pow_eq]
  rw [mul_assoc, hsplit]

/-- A span has one whole number of no more than 53 digits at most. -/
theorem eq_of_mem_natCast {m n : Nat} (hd : d.Formed) (hm : 0 < m) (hmlt : m < 2 ^ 53)
    (hn : 0 < n) (hnlt : n < 2 ^ 53) (hm' : d.span.Mem m) (hn' : d.span.Mem n) : m = n := by
  have hvalue {k : Nat} (hk : 0 < k) (hlt : k < 2 ^ 53) (hmem : d.span.Mem k) : (k : ℚ) = d.value := by
    obtain ⟨c, hc, -, heq, -⟩ := exists_of_lt hk hlt
    obtain ⟨hmantissa, hexponent⟩ := eq_of_mem hc.formed hd c.mem_value (heq ▸ hmem)
    rw [← heq, value, value, hmantissa, hexponent]
  exact_mod_cast (hvalue hm hmlt hm').trans (hvalue hn hnlt hn').symm

/-- The shortest decimal of a whole number below `10 ^ 15` is the number, and has no point. -/
theorem shortest_of_isWhole {tie : Tie} (hd : d.Canonical) (hne : d.mantissa ≠ 0)
    (hwhole : d.isWhole = true) (hlt : d.whole < 10 ^ 15) :
    0 ≤ (d.shortest tie).exponent ∧
      (d.shortest tie).digits * 10 ^ (d.shortest tie).exponent.toNat = d.whole := by
  have hvalue := value_of_isWhole hwhole
  have hmem : d.span.Mem d.whole := hvalue ▸ d.mem_value
  have hexponent : 0 ≤ (d.shortest tie).exponent := by
    by_contra hfine
    refine not_mem_of_exponent_lt hd hne (not_le.mp hfine) d.whole ?_
    rwa [zpow_zero, mul_one]
  refine ⟨hexponent, ?_⟩
  have hshortest : d.span.Mem ((d.shortest tie).digits * 10 ^ (d.shortest tie).exponent.toNat : Nat) := by
    have hmem : d.span.Mem (d.shortest tie).value := mem_shortest hd hne
    rw [Decimal.value, ← Int.toNat_of_nonneg hexponent, zpow_natCast] at hmem
    exact_mod_cast hmem
  have hpositive {n : Nat} (h : d.span.Mem n) : 0 < n := by
    refine Nat.pos_of_ne_zero ?_
    rintro rfl
    exact not_mem_zero hne (by exact_mod_cast h)
  -- The span ends before twice the number.
  have hbound : ((d.shortest tie).digits * 10 ^ (d.shortest tie).exponent.toNat : Nat) ≤
      (2 : ℚ) * d.whole := by
    have hhigh : (d.span.high : ℚ) ≤ 2 * d.span.value := by
      have hhigh : d.span.high ≤ 2 * d.span.value := by
        simp only [span]
        omega
      exact_mod_cast hhigh
    calc _ ≤ d.span.high * (2 : ℚ) ^ d.span.exponent := hshortest.le_high
      _ ≤ 2 * d.span.value * 2 ^ d.span.exponent :=
        mul_le_mul_of_nonneg_right hhigh (by positivity)
      _ = 2 * d.whole := by rw [mul_assoc, span_value, hvalue]
  have hbound : (d.shortest tie).digits * 10 ^ (d.shortest tie).exponent.toNat ≤ 2 * d.whole := by
    exact_mod_cast hbound
  exact eq_of_mem_natCast hd.formed (hpositive hshortest) (by omega) (hpositive hmem) (by omega)
    hshortest hmem

/-- A whole number below `10 ^ 15` has its own digits as its fewest. -/
theorem positional_of_isWhole {tie : Tie} (hd : d.Canonical) (hwhole : d.isWhole = true)
    (hlt : d.whole < 10 ^ 15) : (d.shortest tie).positional = Nat.toDigits 10 d.whole := by
  by_cases hzero : d.mantissa = 0
  · have hshortest : d.shortest tie = ⟨0, 0⟩ := if_pos hzero
    have hnone : d.whole = 0 := by simp [whole, hzero]
    rw [hshortest, hnone]
    rfl
  · obtain ⟨hexponent, hdigits⟩ : 0 ≤ (d.shortest tie).exponent ∧
        (d.shortest tie).digits * 10 ^ (d.shortest tie).exponent.toNat = d.whole :=
      shortest_of_isWhole hd hzero hwhole hlt
    have hpositive : 0 < (d.shortest tie).digits := by
      refine Nat.pos_of_ne_zero fun hnone => ?_
      have hvalue : 0 < (d.shortest tie).value := value_shortest_pos hd hzero
      simp [Decimal.value, hnone] at hvalue
    rw [Decimal.positional, Decimal.fractionChars, Decimal.wholeChars, if_pos hexponent,
      if_pos hexponent, ← hdigits, toDigits_mul_pow hpositive]
    rfl

end Dyadic

/-! ### The text -/

/-- The plain texts of numbers: the fewest digits without an exponent, with the sign; and the two kinds
of non-finite number by name. -/
inductive Reading.Plain : Reading → List Char → Prop
  | finite {d : Dyadic} {c : Decimal} (h : c.ShortestFor d) :
      Plain (.finite d) (signed d.negative c.positional)
  | infinite (negative : Bool) : Plain (.infinite negative) (signed negative ['i', 'n', 'f'])
  | notANumber : Plain .notANumber ['N', 'a', 'N']

namespace Value

/-- Neither the way that whole numbers are printed nor that of negative zero changes the text. -/
theorem numberText_eq (x : Float) : numberText x = (Reading.ofFloat x).plain := by
  unfold numberText
  dsimp only
  split
  · next hzero =>
    rw [hzero]
    rfl
  · split
    · next d hsmall =>
      unfold Reading.smallWhole? at hsmall
      split at hsmall
      · next d' hfinite =>
        split at hsmall
        · next hwhole =>
          cases hsmall
          rw [Bool.and_eq_true, decide_eq_true_eq, Nat.pow_eq] at hwhole
          have hd := Reading.canonical_of_ofBits hfinite
          rw [hfinite, Reading.plain, Dyadic.positional_of_isWhole hd hwhole.1 hwhole.2]
        · cases hsmall
      · cases hsmall
    · rfl

/-- The text of a number is its plain text, whichever of the ways it is printed: the fewest digits
that are read back as the number, without an exponent. -/
theorem text_number_plain (x : Float) :
    (number x).text.toList = (Reading.ofFloat x).plain ∧
      (Reading.ofFloat x).Plain (number x).text.toList := by
  have htext : (number x).text.toList = (Reading.ofFloat x).plain := by
    rw [text, String.toList_ofList, numberText_eq]
  refine ⟨htext, ?_⟩
  rw [htext]
  cases hx : Reading.ofFloat x with
  | finite d => exact .finite (Dyadic.shortestFor (Reading.canonical_of_ofBits hx))
  | infinite negative => exact .infinite negative
  | notANumber => exact .notANumber

end Value

end Treewalk
