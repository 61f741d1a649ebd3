import Treewalk.Proofs.Numbers.Packing

/-! Numbers in a text become the doubles nearest to them. Whatever digits a number has and wherever its
point is, it is read as the double whose span it lies in, or as the infinite one if it lies above all
spans of finite ones. -/

namespace Treewalk

open Float.Model UnpackedFloat

/-- What the number is rounded to: the double in whose span it lies. Above the greatest exponent all
doubles are one. -/
def Reading.RoundedFrom (r : Reading) (x : ℚ) : Prop :=
  ∃ d : Dyadic, d.Formed ∧ d.negative = false ∧ d.span.Mem x ∧
    r = if d.exponent ≤ 971 then .finite d else .infinite false

namespace Reading

variable {r : Reading} {x : ℚ} {d : Dyadic}

/-- A number is rounded to a finite double exactly if it lies in the double's span. -/
theorem RoundedFrom.finite_iff (h : r.RoundedFrom x) (hd : d.Canonical) (hsign : d.negative = false) :
    r = .finite d ↔ d.span.Mem x := by
  obtain ⟨c, hc, hplus, hmem, rfl⟩ := h
  constructor
  · intro heq
    split at heq
    · cases heq
      exact hmem
    · cases heq
  · intro hmem'
    obtain ⟨hmantissa, hexponent⟩ := Dyadic.eq_of_mem hc hd.formed hmem hmem'
    have heq : c = d := by
      obtain ⟨negative, mantissa, exponent⟩ := c
      cases hplus.trans hsign.symm
      cases hmantissa
      cases hexponent
      rfl
    rw [heq, if_pos hd.2.2.1]

theorem RoundedFrom.pack (hd : d.Formed) (hsign : d.negative = false) (hx : d.span.Mem x) :
    (ofFloat ⟨Float.Model.pack d.unpacked⟩).RoundedFrom x := by
  refine ⟨d, hd, hsign, hx, ?_⟩
  split
  · next hle => exact Dyadic.ofFloat_pack (hd.canonical hle)
  · next hlt => rw [Dyadic.ofFloat_pack_of_lt hd (not_le.mp hlt), hsign]

theorem roundedFrom_roundWithAccuracy {m : Nat} {e : Int} {accuracy : Accuracy} {q : ℚ}
    (h : Measures (.ofMantissaAndAccuracy m accuracy) q) (hfine : 2 ^ 52 ≤ m ∨ e ≤ -1074) :
    (ofFloat ⟨Float.Model.pack
      (roundWithAccuracy .binary64 .positive m e accuracy)⟩).RoundedFrom (q * 2 ^ e) := by
  obtain ⟨d, hd, hsign, hx, heq⟩ := roundWithAccuracy_eq h hfine
  rw [heq]
  exact .pack hd hsign hx

/-- Zero, and what is rounded to it. -/
theorem roundedFrom_zero (hx : 0 ≤ x) (hle : x ≤ 2 ^ (-1075 : Int)) :
    (ofFloat ⟨Float.Model.pack (.zero .positive)⟩).RoundedFrom x := by
  have hmem : (Dyadic.mk false 0 (-1074)).span.Mem x := by
    have hhigh : ((2 : Nat) : ℚ) * 2 ^ (-1076 : Int) = 2 ^ (-1075 : Int) := by
      rw [show (-1075 : Int) = 1 + -1076 by norm_num, zpow_add₀ (by norm_num)]
      norm_num
    refine ⟨?_, ?_⟩
    · rw [show (Dyadic.mk false 0 (-1074)).span.low = 0 from rfl]
      simpa using hx
    · exact hle.trans hhigh.ge
  have hunpacked : (Dyadic.mk false 0 (-1074)).unpacked = .zero .positive := rfl
  rw [← hunpacked]
  exact .pack ⟨by decide, le_rfl, .inr rfl⟩ rfl hmem

end Reading

/-! ### Quotients -/

/-- The bits behind a mantissa tell how a fraction compares with zero and one half. -/
theorem extended_fraction (m : Nat) {r n : Nat} (hn : 0 < n) :
    ExtendedMantissa.ofMantissaAndAccuracy m (accuracyOfFraction r n) =
      ⟨m, decide (n ≤ 2 * r), decide (r ≠ 0 ∧ 2 * r ≠ n)⟩ := by
  unfold accuracyOfFraction
  split
  · next hzero =>
    subst hzero
    simp [ExtendedMantissa.ofMantissaAndAccuracy, hn.ne']
  · next hne =>
    obtain hlt | heq | hgt := Nat.lt_trichotomy (2 * r) n
    · rw [Nat.compare_eq_lt.mpr hlt]
      simp [ExtendedMantissa.ofMantissaAndAccuracy, hlt, hne, hlt.ne]
    · rw [Nat.compare_eq_eq.mpr heq]
      simp [ExtendedMantissa.ofMantissaAndAccuracy, heq]
    · rw [Nat.compare_eq_gt.mpr hgt]
      simp [ExtendedMantissa.ofMantissaAndAccuracy, hgt.le, hne, hgt.ne']

/-- A quotient with its remainder, made ready to be rounded. -/
theorem Measures.quotient (m : Nat) {n : Nat} (hn : 0 < n) :
    Measures (.ofMantissaAndAccuracy (m / n) (accuracyOfFraction (m % n) n)) ((m : ℚ) / n) := by
  have hpositive : (0 : ℚ) < n := by exact_mod_cast hn
  have hdivision : (m : ℚ) = (m / n : Nat) * n + (m % n : Nat) := by
    exact_mod_cast (Nat.div_add_mod' m n).symm
  have hparts : (m : ℚ) / n = (m / n : Nat) + (m % n : Nat) / n := by
    rw [hdivision, add_div, mul_div_cancel_right₀ _ hpositive.ne']
  have hmod := Nat.mod_lt m hn
  rw [hparts, extended_fraction _ hn]
  generalize m / n = q
  generalize m % n = r at hmod
  have hzero : (r : ℚ) / n = 0 ↔ r = 0 := by simp [hpositive.ne']
  have hhalf : (1 : ℚ) / 2 ≤ r / n ↔ n ≤ 2 * r := by
    rw [div_le_div_iff₀ (by norm_num) hpositive, one_mul, mul_comm (r : ℚ)]
    exact_mod_cast Iff.rfl
  have hmiddle : (r : ℚ) / n = 1 / 2 ↔ 2 * r = n := by
    rw [div_eq_div_iff hpositive.ne' (by norm_num), one_mul, mul_comm (r : ℚ)]
    exact_mod_cast Iff.rfl
  refine ⟨?_, ?_, ?_, ?_⟩
  · exact le_add_of_nonneg_right (by positivity)
  · rw [add_lt_add_iff_left, div_lt_one hpositive]
    exact_mod_cast hmod
  · rw [add_le_add_iff_left, hhalf, decide_eq_true_eq]
  · simp only [decide_eq_true_eq, ne_eq, add_eq_left, add_right_inj, hzero, hmiddle]

/-- Division shifts the first mantissa until the quotient has 53 digits, but not below the least
exponent. -/
theorem divCore_eq {m₁ m₂ : Nat} (e₁ e₂ : Int) (h₁ : 0 < m₁) (h₂ : 0 < m₂) :
    ∃ (shift : Nat) (e : Int), e + shift = e₁ - e₂ ∧
      (2 ^ 52 ≤ m₁ * 2 ^ shift / m₂ ∨ e ≤ -1074) ∧
      divCore .binary64 m₁ e₁ m₂ e₂ =
        (m₁ * 2 ^ shift / m₂, e, accuracyOfFraction (m₁ * 2 ^ shift % m₂) m₂) := by
  have htarget : Format.binary64.targetExponent (totalExponent m₁ e₁ - totalExponent m₂ e₂) =
      max (m₁.log2 + e₁ - (m₂.log2 + e₂) - 53) (-1074) := by
    simp only [targetExponent_eq, totalExponent]
    omega
  unfold divCore
  rw [htarget]
  dsimp only
  simp only [Nat.shiftLeft_eq]
  generalize he : min (e₁ - e₂) (max (m₁.log2 + e₁ - (m₂.log2 + e₂) - 53 : Int) (-1074)) = e
  refine ⟨(e₁ - e₂ - e).toNat, e, by omega, ?_, rfl⟩
  by_cases hleast : e ≤ -1074
  · exact .inr hleast
  · left
    have hshift : m₂.log2 + 53 ≤ m₁.log2 + (e₁ - e₂ - e).toNat := by omega
    rw [Nat.le_div_iff_mul_le h₂]
    calc 2 ^ 52 * m₂ ≤ 2 ^ 52 * 2 ^ (m₂.log2 + 1) := Nat.mul_le_mul_left _ Nat.lt_log2_self.le
      _ = 2 ^ (m₂.log2 + 53) := by rw [← Nat.pow_add]; congr 1; omega
      _ ≤ 2 ^ (m₁.log2 + (e₁ - e₂ - e).toNat) := Nat.pow_le_pow_right (by decide) hshift
      _ = 2 ^ m₁.log2 * 2 ^ (e₁ - e₂ - e).toNat := Nat.pow_add ..
      _ ≤ m₁ * 2 ^ (e₁ - e₂ - e).toNat := Nat.mul_le_mul_right _ (Nat.log2_self_le h₁.ne')

/-- A quotient is rounded as a number. -/
theorem Reading.roundedFrom_div {m₁ m₂ : Nat} (e₁ e₂ : Int) (h₁ : 0 < m₁) (h₂ : 0 < m₂) :
    (ofFloat ⟨Float.Model.pack (UnpackedFloat.div .binary64 (.finite .positive m₁ e₁ h₁)
      (.finite .positive m₂ e₂ h₂))⟩).RoundedFrom (m₁ * 2 ^ e₁ / (m₂ * 2 ^ e₂)) := by
  obtain ⟨shift, e, hexponent, hfine, hcore⟩ := divCore_eq e₁ e₂ h₁ h₂
  have hvalue : (m₁ : ℚ) * 2 ^ e₁ / (m₂ * 2 ^ e₂) = (m₁ * 2 ^ shift : Nat) / m₂ * 2 ^ e := by
    have hshift : (2 : ℚ) ^ e₁ / 2 ^ e₂ = 2 ^ shift * 2 ^ e := by
      rw [← zpow_natCast, ← zpow_add₀ (by norm_num), ← zpow_sub₀ (by norm_num), ← hexponent,
        add_comm]
    rw [mul_div_mul_comm, hshift]
    push_cast
    ring
  rw [hvalue]
  have hrounded := roundedFrom_roundWithAccuracy (.quotient (m₁ * 2 ^ shift) h₂) hfine
  rw [UnpackedFloat.div, hcore]
  exact hrounded

/-! ### Whole numbers -/

/-- The magnitude of a double. -/
def Dyadic.value (d : Dyadic) : ℚ := d.mantissa * 2 ^ d.exponent

/-- A double lies in its own span. -/
theorem Dyadic.mem_value (d : Dyadic) : d.span.Mem d.value := by
  refine mem_of_nearest (Nat.cast_nonneg _) ⟨?_, ?_, fun _ => ⟨?_, ?_⟩⟩ fun h => ?_
  · linarith
  · linarith
  · linarith
  · linarith
  · exact_mod_cast h.1.ge

/-- A whole number with no more than 53 digits is a double. -/
theorem Dyadic.exists_of_lt {n : Nat} (hn : 0 < n) (hlt : n < 2 ^ 53) :
    ∃ d : Dyadic, d.Canonical ∧ d.negative = false ∧ d.value = n ∧ 0 < d.mantissa := by
  have hlog : n.log2 < 53 := (Nat.log2_lt hn.ne').mpr hlt
  have hpow : n.log2 + (52 - n.log2) = 52 := by omega
  have hlow : 2 ^ 52 ≤ n * 2 ^ (52 - n.log2) := by
    calc 2 ^ 52 = 2 ^ n.log2 * 2 ^ (52 - n.log2) := by rw [← Nat.pow_add, hpow]
      _ ≤ n * 2 ^ (52 - n.log2) := Nat.mul_le_mul_right _ (Nat.log2_self_le hn.ne')
  have hhigh : n * 2 ^ (52 - n.log2) < 2 ^ 53 := by
    calc n * 2 ^ (52 - n.log2) < 2 ^ (n.log2 + 1) * 2 ^ (52 - n.log2) :=
        Nat.mul_lt_mul_of_pos_right Nat.lt_log2_self (by positivity)
      _ = 2 ^ 53 := by rw [← Nat.pow_add]; congr 1; omega
  refine ⟨⟨false, n * 2 ^ (52 - n.log2), -(52 - n.log2 : Nat)⟩, ⟨hhigh, ?_, ?_, .inl hlow⟩, rfl, ?_,
    ?_⟩
  · dsimp only
    omega
  · dsimp only
    omega
  · rw [value]
    push_cast
    rw [zpow_neg, zpow_natCast, mul_assoc, mul_inv_cancel₀ (by positivity), mul_one]
  · positivity

namespace Reading

/-- A whole number is rounded as a number. -/
theorem roundedFrom_round {n : Nat} (hn : 0 < n) :
    (ofFloat ⟨Float.Model.pack (UnpackedFloat.round .binary64 .positive n 0)⟩).RoundedFrom n := by
  have htarget : Format.binary64.targetExponent (totalExponent n 0) = max (n.log2 - 52 : Int) (-1074) := by
    simp only [targetExponent_eq, totalExponent]
    omega
  have hshift : (0 - max (n.log2 - 52 : Int) (-1074)).toNat = 52 - n.log2 := by omega
  have hfine : 2 ^ 52 ≤ n * 2 ^ (52 - n.log2) := by
    calc 2 ^ 52 ≤ 2 ^ n.log2 * 2 ^ (52 - n.log2) := by
          rw [← Nat.pow_add]
          exact Nat.pow_le_pow_right (by decide) (by omega)
      _ ≤ n * 2 ^ (52 - n.log2) := Nat.mul_le_mul_right _ (Nat.log2_self_le hn.ne')
  have hvalue : (n : ℚ) = (n * 2 ^ (52 - n.log2) : Nat) * 2 ^ (0 - (52 - n.log2 : Nat) : Int) := by
    push_cast
    rw [zero_sub, zpow_neg, zpow_natCast, mul_assoc, mul_inv_cancel₀ (by positivity), mul_one]
  have hrounded := roundedFrom_roundWithAccuracy (e := 0 - (52 - n.log2 : Nat))
    (.exact (n * 2 ^ (52 - n.log2))) (.inl hfine)
  rw [← hvalue] at hrounded
  unfold UnpackedFloat.round decreaseExponent
  simp only [htarget, hshift, Nat.shiftLeft_eq]
  exact hrounded

/-- A whole number with no more than 53 digits is read as it is. -/
theorem exists_ofFloat_toFloat {n : Nat} (hn : 0 < n) (hlt : n < 2 ^ 53) :
    ∃ d : Dyadic, ofFloat n.toUInt64.toFloat = .finite d ∧ d.negative = false ∧ d.value = n ∧
      0 < d.mantissa := by
  obtain ⟨d, hd, hsign, hvalue, hpositive⟩ := Dyadic.exists_of_lt hn hlt
  have hround : (n.toUInt64.toFloat : Float) =
      ⟨Float.Model.pack (UnpackedFloat.round .binary64 .positive n 0)⟩ := by
    show (⟨Float.Model.pack (UnpackedFloat.normalize .binary64 (n.toUInt64.toNat : Int) 0 .positive)⟩ :
      Float) = _
    rw [Nat.toUInt64, UInt64.toNat_ofNat', Nat.mod_eq_of_lt (hlt.trans (by decide)),
      UnpackedFloat.normalize,
      show compare (n : Int) 0 = .gt from Int.compare_eq_gt.mpr (by exact_mod_cast hn)]
    rfl
  refine ⟨d, ?_, hsign, hvalue, hpositive⟩
  rw [hround, (roundedFrom_round hn).finite_iff hd hsign, ← hvalue]
  exact d.mem_value

end Reading

/-! ### Decimal fractions -/

/-- The reading is the whole number, exactly and without a sign. -/
def Reading.isExactly (r : Reading) (n : Nat) : Bool :=
  match r with
  | .finite d => !d.negative && d.mantissa != 0 &&
    d.mantissa * Nat.pow 2 d.exponent.toNat == n * Nat.pow 2 (-d.exponent).toNat
  | _ => false

theorem Reading.exists_of_isExactly {r : Reading} {n : Nat} (h : r.isExactly n = true) :
    ∃ d : Dyadic, r = .finite d ∧ d.negative = false ∧ d.value = n ∧ 0 < d.mantissa := by
  unfold isExactly at h
  split at h
  · next d =>
    simp only [Bool.and_eq_true, Bool.not_eq_true', bne_iff_ne, beq_iff_eq, Nat.pow_eq] at h
    obtain ⟨⟨hsign, hne⟩, hvalue⟩ := h
    refine ⟨d, rfl, hsign, ?_, Nat.pos_of_ne_zero hne⟩
    have hvalue : (d.mantissa : ℚ) * 2 ^ d.exponent.toNat = n * 2 ^ (-d.exponent).toNat := by
      exact_mod_cast hvalue
    have hsplit : (2 : ℚ) ^ d.exponent * 2 ^ (-d.exponent).toNat = 2 ^ d.exponent.toNat := by
      rw [← zpow_natCast, ← zpow_natCast, ← zpow_add₀ (by norm_num)]
      congr 1
      omega
    have hpositive : (0 : ℚ) < 2 ^ (-d.exponent).toNat := by positivity
    rw [Dyadic.value, ← mul_left_inj' hpositive.ne', mul_assoc, hsplit, hvalue]
  · cases h

/-- The powers of ten that a number with few digits is divided by. -/
theorem isExactly_powerOfTen :
    ∀ (i : Nat) (h : i < Float.exactlyRepresentablePowersOfTen.size),
      (Reading.ofFloat Float.exactlyRepresentablePowersOfTen[i]).isExactly (Nat.pow 10 i) = true := by
  decide +kernel

namespace Dyadic

variable {d : Dyadic}

theorem unpacked_of_pos (hsign : d.negative = false) (h : 0 < d.mantissa) :
    d.unpacked = .finite .positive d.mantissa d.exponent h := by
  rw [unpacked, dif_neg h.ne', sign, hsign]
  rfl

end Dyadic

namespace Reading

/-- The quotient of two doubles without a sign is rounded as a number. -/
theorem roundedFrom_quotient {x y : Float} {c d : Dyadic} (hx : ofFloat x = .finite c)
    (hy : ofFloat y = .finite d) (hc : c.negative = false) (hd : d.negative = false)
    (hcpos : 0 < c.mantissa) (hdpos : 0 < d.mantissa) :
    (ofFloat (x / y)).RoundedFrom (c.value / d.value) := by
  have hdiv : x / y =
      ⟨Float.Model.pack (UnpackedFloat.div .binary64 x.toModel.unpack y.toModel.unpack)⟩ := rfl
  rw [hdiv, Dyadic.unpack_of_ofFloat hx, Dyadic.unpack_of_ofFloat hy,
    Dyadic.unpacked_of_pos hc hcpos, Dyadic.unpacked_of_pos hd hdpos]
  exact roundedFrom_div _ _ hcpos hdpos

/-- Digits of which there are few are divided by the power of ten. -/
theorem roundedFrom_of_few {m places : Nat} (hm : m < 2 ^ 53)
    (hplaces : places < Float.exactlyRepresentablePowersOfTen.size) :
    (ofFloat (m.toUInt64.toFloat / Float.exactlyRepresentablePowersOfTen[places])).RoundedFrom
      (m / 10 ^ places) := by
  obtain ⟨d, hd, hdsign, hdvalue, hdpos⟩ :=
    exists_of_isExactly (isExactly_powerOfTen places hplaces)
  obtain rfl | hpositive := Nat.eq_zero_or_pos m
  · have hzero : (0 : Nat).toUInt64.toFloat / Float.exactlyRepresentablePowersOfTen[places] =
        ⟨Float.Model.pack (UnpackedFloat.div .binary64 (.zero .positive) d.unpacked)⟩ := by
      rw [← Dyadic.unpack_of_ofFloat hd]
      rfl
    rw [hzero, Dyadic.unpacked_of_pos hdsign hdpos]
    exact roundedFrom_zero (by positivity) (by simp)
  · obtain ⟨c, hc, hcsign, hcvalue, hcpos⟩ := exists_ofFloat_toFloat hpositive hm
    have hquotient := roundedFrom_quotient hc hd hcsign hdsign hcpos hdpos
    rw [hcvalue, hdvalue] at hquotient
    simpa using hquotient

/-- A number so small that it is not looked at closely is rounded to zero. -/
theorem le_of_few {m places : Nat} (h : 2048 + m.log2 < places) :
    (m : ℚ) / 10 ^ places ≤ 2 ^ (-1075 : Int) := by
  rw [div_le_iff₀ (by positivity), zpow_neg, inv_mul_eq_div, le_div_iff₀ (by positivity)]
  have hten : 2 ^ places ≤ 10 ^ places := Nat.pow_le_pow_left (by decide) places
  have hlog : m ≤ 2 ^ (m.log2 + 1) := Nat.lt_log2_self.le
  have hnat : m * 2 ^ 1075 ≤ 10 ^ places :=
    calc m * 2 ^ 1075 ≤ 2 ^ (m.log2 + 1) * 2 ^ 1075 := Nat.mul_le_mul_right _ hlog
      _ = 2 ^ (m.log2 + 1076) := by rw [← Nat.pow_add]
      _ ≤ 2 ^ places := Nat.pow_le_pow_right (by decide) (by omega)
      _ ≤ 10 ^ places := hten
  exact_mod_cast hnat

/-- Digits of which there are many are divided as whole numbers. -/
theorem roundedFrom_of_many (m places : Nat) :
    (ofFloat ⟨Float.Model.pack
      (UnpackedFloat.ofScientific .binary64 m (Int.negOfNat places))⟩).RoundedFrom
      (m / 10 ^ places) := by
  unfold UnpackedFloat.ofScientific
  rw [Int.negOfNat_eq, Int.ofNat_eq_natCast]
  split
  · next hzero =>
    rw [hzero]
    exact roundedFrom_zero (by simp) (by simp)
  · next hne =>
    have hpositive := Nat.pos_of_ne_zero hne
    rw [if_neg (by norm_num)]
    split
    · next hsmall =>
      refine roundedFrom_zero (by positivity) (le_of_few ?_)
      norm_num at hsmall
      omega
    · split
      · next hplaces =>
        obtain rfl : places = 0 := by omega
        have hrounded := roundedFrom_roundWithAccuracy (e := -53 + 0)
          (.exact (m <<< 53 * 10 ^ 0)) (.inl ?_)
        · have hvalue : ((m <<< 53 * 10 ^ 0 : Nat) : ℚ) * 2 ^ (-53 + 0 : Int) = m / 10 ^ 0 := by
            rw [Nat.shiftLeft_eq]
            push_cast
            rw [zpow_neg]
            norm_num
            ring
          rw [hvalue] at hrounded
          exact hrounded
        · rw [Nat.shiftLeft_eq]
          omega
      · next hplaces =>
        have hdiv := roundedFrom_div 0 0 hpositive (Nat.pow_pos (n := places) (by decide : 0 < 10))
        simpa using hdiv

/-- Digits with a point in them are rounded as the number that they stand for. -/
theorem roundedFrom_ofScientific (m places : Nat) :
    (ofFloat (Float.ofScientific m true places)).RoundedFrom (m / 10 ^ places) := by
  unfold Float.ofScientific
  split
  · next h => exact roundedFrom_of_few h.1 (Nat.lt_succ_of_le h.2)
  · exact roundedFrom_of_many m places

end Reading

/-- The double nearest to digits with a point in them is what they are rounded to. -/
theorem Source.roundedFrom_nearest (whole fraction : List Char) :
    (Reading.ofFloat (nearest whole fraction)).RoundedFrom
      (decimal (whole ++ fraction) / 10 ^ fraction.length) :=
  Reading.roundedFrom_ofScientific _ _

end Treewalk
