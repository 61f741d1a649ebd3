import Treewalk.Document
import Treewalk.Proofs.Numbers.Layouts

/-! Doubles in JSON texts. What is written for a double is a number, or null, and two finite doubles
have the same text only if they are the same, bit by bit. -/

namespace Treewalk

open Json

namespace Decimal

variable {d : Decimal}

/-- A zero stands at the beginning only if it is alone. -/
theorem whole_digitChars (h : d.digits ≠ 0) {n : Nat} (zeros : List Char)
    (hzeros : ∀ c ∈ zeros, c.isDigit = true) : Whole (d.digitChars.take (n + 1) ++ zeros) := by
  obtain ⟨c, rest, hdigits, hc⟩ := head_toDigits_ne h
  have hall := d.isDigit_digitChars
  rw [digitChars, hdigits, List.forall_mem_cons] at hall
  rw [digitChars, hdigits, List.take_succ_cons, List.cons_append]
  refine .digits hall.1 hc (List.forall_mem_append.mpr ⟨fun d hd => ?_, hzeros⟩)
  exact hall.2 d (List.mem_of_mem_take hd)

theorem whole_wholeChars (h : d.digits = 0 → d.exponent = 0) : Whole d.wholeChars := by
  by_cases hzero : d.digits = 0
  · have hexponent := h hzero
    obtain ⟨digits, exponent⟩ := d
    cases hzero
    cases hexponent
    exact .zero
  · unfold wholeChars
    split
    · have hwhole := whole_digitChars hzero (n := d.digitChars.length) _
        (isDigit_replicate d.exponent.toNat)
      rwa [List.take_of_length_le (Nat.le_succ _)] at hwhole
    · dsimp only
      split
      · exact .zero
      · next hlong =>
        obtain ⟨n, hn⟩ := Nat.exists_eq_succ_of_ne_zero
          (Nat.sub_ne_zero_of_lt (Nat.lt_of_not_le hlong))
        have hwhole := whole_digitChars hzero (n := n) [] (by simp)
        rwa [List.append_nil, ← Nat.succ_eq_add_one, ← hn] at hwhole

theorem magnitude_of_pointed (h : d.digits = 0 → d.exponent = 0) : Magnitude d.pointed := by
  have hpoint {fraction : List Char} (hfraction : Digits fraction) :
      Magnitude (d.wholeChars ++ '.' :: fraction) := by
    have hparts := Magnitude.parts (whole_wholeChars h) (.point hfraction) .none
    rwa [List.append_nil] at hparts
  unfold pointed
  split
  · exact hpoint ⟨List.cons_ne_nil _ _, List.forall_mem_singleton.mpr (by decide)⟩
  · next hne => exact hpoint ⟨hne, d.isDigit_fractionChars⟩

theorem magnitude_of_scientific : Magnitude d.scientific := by
  obtain ⟨c, rest, hdigits, hc, hrest⟩ := d.exists_digit
  have hwhole : Whole [c] := by
    by_cases hzero : c = '0'
    · rw [hzero]
      exact .zero
    · exact .digits hc hzero (by simp)
  have hfraction : Fraction (if rest = [] then [] else '.' :: rest) := by
    split
    · exact .none
    · next hne => exact .point ⟨hne, hrest⟩
  have hsign : [if d.leadingExponent < 0 then '-' else '+'] ∈ [[], ['+'], ['-']] := by
    split <;> simp
  have hexponent : Digits (Nat.toDigits 10 d.leadingExponent.natAbs) :=
    ⟨Nat.toDigits_ne_nil, fun c hc => Nat.isDigit_of_mem_toDigits (by decide) (by decide) hc⟩
  have hparts := Magnitude.parts hwhole hfraction (.power (List.mem_cons_self) hsign hexponent)
  rw [scientific_eq d hdigits]
  cases rest <;> exact hparts

end Decimal

/-- A magnitude begins with a digit. -/
theorem Json.Magnitude.head {cs : List Char} (h : Magnitude cs) :
    ∃ c rest, cs = c :: rest ∧ c.isDigit = true := by
  cases h with
  | parts hwhole _ _ =>
    cases hwhole with
    | zero => exact ⟨_, _, rfl, by decide⟩
    | digits hc => exact ⟨_, _, rfl, hc⟩

theorem Json.Number.signed {negative : Bool} {cs : List Char} (h : Magnitude cs) :
    Number (signed negative cs) := by
  cases negative with
  | false => exact .positive h
  | true => exact .negative h

/-- The sign of a number can be seen. -/
theorem signed_inj {negative negative' : Bool} {cs cs' : List Char} (h : Magnitude cs)
    (h' : Magnitude cs') (heq : signed negative cs = signed negative' cs') :
    negative = negative' ∧ cs = cs' := by
  have hne {cs ds : List Char} (h : Magnitude cs) : cs ≠ '-' :: ds := by
    rintro rfl
    obtain ⟨c, rest, heq, hc⟩ := h.head
    cases heq
    cases hc
  cases negative <;> cases negative'
  · exact ⟨rfl, heq⟩
  · exact absurd heq (hne h)
  · exact absurd heq.symm (hne h')
  · exact ⟨rfl, List.tail_eq_of_cons_eq heq⟩

namespace Dyadic

variable {d d' : Dyadic}

/-- The text of the magnitude. -/
def magnitudeText (d : Dyadic) : List Char :=
  let decimal := d.shortest .even
  if -5 ≤ decimal.leadingExponent ∧ decimal.leadingExponent ≤ 15 then decimal.pointed
  else decimal.scientific

theorem digits_shortest (hd : d.Canonical) :
    (d.shortest .even).digits = 0 → (d.shortest .even).exponent = 0 := by
  intro hzero
  by_cases hm : d.mantissa = 0
  · simp [shortest, hm]
  · have hpositive : 0 < (d.shortest .even).value := value_shortest_pos hd hm
    simp [Decimal.value, hzero] at hpositive

theorem magnitude_magnitudeText (hd : d.Canonical) : Magnitude d.magnitudeText := by
  unfold magnitudeText
  dsimp only
  split
  · exact Decimal.magnitude_of_pointed (digits_shortest hd)
  · exact Decimal.magnitude_of_scientific

theorem magnitude_eq (d : Dyadic) : magnitude d.magnitudeText = (d.shortest .even).value := by
  unfold magnitudeText
  dsimp only
  split
  · exact Decimal.magnitude_pointed _
  · exact Decimal.magnitude_scientific _

end Dyadic

namespace Reading

/-- What the bits of a finite double say is in the form of doubles. -/
theorem canonical_of_ofBits {bits : Nat} {d : Dyadic} (h : ofBits bits = .finite d) :
    d.Canonical := by
  unfold ofBits at h
  dsimp only at h
  simp only [Nat.pow_eq] at h
  split at h
  · split at h <;> cases h
  · split at h
    · cases h
      refine ⟨?_, ?_, ?_, ?_⟩ <;> dsimp only <;> omega
    · cases h
      refine ⟨?_, ?_, ?_, ?_⟩ <;> dsimp only <;> omega

/-- The sign bit. -/
def signBit (negative : Bool) : Nat := if negative then 2 ^ 63 else 0

/-- The bits that say this. -/
def bits : Reading → Nat
  | finite d => signBit d.negative +
    if d.mantissa < 2 ^ 52 then d.mantissa
    else (d.exponent + 1075).toNat * 2 ^ 52 + (d.mantissa - 2 ^ 52)
  | infinite negative => signBit negative + 2047 * 2 ^ 52
  | notANumber => 0

/-- A double that is a number has no other bits. -/
theorem bits_ofBits {bits : Nat} (hlt : bits < 2 ^ 64) (hnumber : ofBits bits ≠ .notANumber) :
    (ofBits bits).bits = bits := by
  have hsign : signBit (decide (2 ^ 63 ≤ bits)) = bits / 2 ^ 63 * 2 ^ 63 := by
    unfold signBit
    split <;> simp only [decide_eq_true_eq] at * <;> omega
  unfold ofBits at hnumber ⊢
  dsimp only at hnumber ⊢
  simp only [Nat.pow_eq] at hnumber ⊢
  split
  · split
    · rw [Reading.bits, hsign]
      omega
    · simp_all
  · split
    · rw [Reading.bits, hsign, if_pos (by dsimp only; omega)]
      dsimp only
      omega
    · rw [Reading.bits, hsign, if_neg (by dsimp only; omega)]
      dsimp only
      omega

/-- Doubles that are numbers and say the same are the same. -/
theorem ofFloat_inj {x y : Float} (heq : ofFloat x = ofFloat y)
    (hnumber : ofFloat x ≠ .notANumber) : x = y := by
  have hbits : x.toBits.toNat = y.toBits.toNat :=
    calc x.toBits.toNat = (ofFloat x).bits := (bits_ofBits x.toBits.toNat_lt hnumber).symm
      _ = (ofFloat y).bits := congrArg bits heq
      _ = y.toBits.toNat := bits_ofBits y.toBits.toNat_lt fun hnone => hnumber (heq.trans hnone)
  obtain ⟨⟨bits, valid⟩⟩ := x
  obtain ⟨⟨bits', valid'⟩⟩ := y
  obtain rfl : bits = bits' := UInt64.toNat_inj.mp hbits
  rfl

end Reading

namespace Document

variable {x y : Float} {d : Dyadic}

theorem doubleText_finite (h : Reading.ofFloat x = .finite d) :
    doubleText x = signed d.negative d.magnitudeText := by
  rw [doubleText, h]
  rfl

/-- The text of a finite double is a number. -/
theorem number_doubleText (h : Reading.ofFloat x = .finite d) : Number (doubleText x) := by
  rw [doubleText_finite h]
  exact .signed (Dyadic.magnitude_magnitudeText (Reading.canonical_of_ofBits h))

/-- Two finite doubles with one text are the same. -/
theorem doubleText_inj {d' : Dyadic} (hx : Reading.ofFloat x = .finite d)
    (hy : Reading.ofFloat y = .finite d') (heq : doubleText x = doubleText y) : x = y := by
  have hd := Reading.canonical_of_ofBits hx
  have hd' := Reading.canonical_of_ofBits hy
  rw [doubleText_finite hx, doubleText_finite hy] at heq
  obtain ⟨hsign, htext⟩ := signed_inj (Dyadic.magnitude_magnitudeText hd)
    (Dyadic.magnitude_magnitudeText hd') heq
  have hvalue : (d.shortest .even).value = (d'.shortest .even).value := by
    rw [← Dyadic.magnitude_eq, htext, Dyadic.magnitude_eq]
  obtain ⟨hmantissa, hexponent⟩ := Dyadic.eq_of_shortest hd hd' hvalue
  have heq : d = d' := by
    obtain ⟨negative, mantissa, exponent⟩ := d
    cases hsign
    cases hmantissa
    cases hexponent
    rfl
  exact Reading.ofFloat_inj (hx.trans (heq ▸ hy.symm)) (by simp [hx])

end Document

end Treewalk
