import Treewalk.Proofs.Numbers.Rounding
import Treewalk.Proofs.Numbers.Scanned

/-! The bits of finite doubles. What the bits of a double say is what arithmetic works with, and what
arithmetic makes is packed into the bits that say it. -/

namespace Treewalk

open Float.Model UnpackedFloat

namespace Dyadic

variable {d : Dyadic}

/-- The exponent bits of a double: none is set if not all digits of the mantissa are used. -/
def exponentField (d : Dyadic) : Nat := if d.mantissa < 2 ^ 52 then 0 else (d.exponent + 1075).toNat

/-- The fraction bits of a double: the first digit of the mantissa is left out if all are used. -/
def fractionField (d : Dyadic) : Nat :=
  if d.mantissa < 2 ^ 52 then d.mantissa else d.mantissa - 2 ^ 52

theorem exponentField_lt (hd : d.Canonical) : d.exponentField < 2047 := by
  obtain ⟨-, hleast, hgreatest, -⟩ := hd
  unfold exponentField
  split <;> omega

theorem fractionField_lt (hd : d.Canonical) : d.fractionField < 2 ^ 52 := by
  have hmantissa := hd.1
  unfold fractionField
  split <;> omega

/-- Arithmetic packs a double into its fields. -/
theorem pack_unpacked (hd : d.Canonical) : UnpackedFloat.pack .binary64 d.unpacked =
    packComponents .binary64 d.sign (BitVec.ofNat 11 d.exponentField)
      (BitVec.ofNat 52 d.fractionField) := by
  obtain ⟨hmantissa, hleast, hgreatest, hnormal⟩ := hd
  unfold unpacked
  split
  · next hzero => simp [UnpackedFloat.pack, packedZero, exponentField, fractionField, hzero]
  · next hne =>
    have hbias : d.exponent + 1023 + 52 = d.exponent + 1075 := by ring
    rw [UnpackedFloat.pack]
    dsimp only [Format.exponentBias, Format.mantissaBits]
    norm_num
    rw [hbias, if_neg (by omega)]
    by_cases hshort : d.mantissa < 2 ^ 52
    · have hlog : d.mantissa.log2 < 52 := (Nat.log2_lt hne).mpr hshort
      rw [if_neg (by omega), exponentField, fractionField, if_pos hshort, if_pos hshort]
    · have hlog : d.mantissa.log2 < 53 := (Nat.log2_lt hne).mpr hmantissa
      have hlog' : 52 ≤ d.mantissa.log2 := (Nat.le_log2 hne).mpr (by omega)
      have hfirst : BitVec.ofNat 52 (d.mantissa - 2 ^ 52) = BitVec.ofNat 52 d.mantissa := by
        apply BitVec.eq_of_toNat_eq
        rw [BitVec.toNat_ofNat, BitVec.toNat_ofNat]
        omega
      rw [if_pos (by omega), exponentField, fractionField, if_neg hshort, if_neg hshort, hfirst]

/-- What the fields of a double say. -/
theorem ofBits_eq (negative : Bool) {scale fraction : Nat} (hscale : scale < 2047)
    (hfraction : fraction < 2 ^ 52) :
    Reading.ofBits (Reading.signBit negative + (scale * 2 ^ 52 + fraction)) =
      if scale = 0 then .finite ⟨negative, fraction, -1074⟩
      else .finite ⟨negative, 2 ^ 52 + fraction, scale - 1075⟩ := by
  have hsign : Reading.signBit negative = if negative then 2 ^ 63 else 0 := rfl
  generalize hbits : Reading.signBit negative + (scale * 2 ^ 52 + fraction) = bits
  have hnegative : decide (2 ^ 63 ≤ bits) = negative := by
    rw [Bool.eq_iff_iff, decide_eq_true_eq]
    split at hsign <;> simp_all <;> omega
  have hscale' : bits / 2 ^ 52 % 2 ^ 11 = scale := by
    split at hsign <;> omega
  have hfraction' : bits % 2 ^ 52 = fraction := by
    split at hsign <;> omega
  unfold Reading.ofBits
  simp only [Nat.pow_eq, hnegative, hscale', hfraction', if_neg hscale.ne]

/-- A double is what its fields say. -/
theorem ofBits_fields (hd : d.Canonical) : Reading.ofBits
    (Reading.signBit d.negative + (d.exponentField * 2 ^ 52 + d.fractionField)) = .finite d := by
  rw [ofBits_eq _ (exponentField_lt hd) (fractionField_lt hd)]
  obtain ⟨hmantissa, hleast, hgreatest, hnormal⟩ := hd
  obtain ⟨negative, mantissa, exponent⟩ := d
  dsimp only at hmantissa hleast hgreatest hnormal
  unfold exponentField fractionField
  dsimp only
  by_cases hshort : mantissa < 2 ^ 52
  · rw [if_pos hshort, if_pos hshort, if_pos rfl, hnormal.resolve_left (by omega)]
  · rw [if_neg hshort, if_neg hshort, if_neg (by omega), Nat.add_sub_of_le (by omega)]
    congr 2
    omega

theorem toNat_packComponents (d : Dyadic) (exponent : BitVec 11) (fraction : BitVec 52) :
    (packComponents .binary64 d.sign exponent fraction).toNat =
      Reading.signBit d.negative + (exponent.toNat * 2 ^ 52 + fraction.toNat) := by
  unfold packComponents sign Reading.signBit
  rw [BitVec.toNat_append, BitVec.toNat_append,
    ← Nat.shiftLeft_add_eq_or_of_lt exponent.isLt, ← Nat.shiftLeft_add_eq_or_of_lt fraction.isLt,
    Nat.shiftLeft_eq, Nat.shiftLeft_eq]
  split
  · rw [show Sign.negative.toBitVec.toNat = 1 from rfl]
    ring
  · rw [show Sign.positive.toBitVec.toNat = 0 from rfl]
    ring

/-- The double that is packed is read again. -/
theorem ofFloat_pack (hd : d.Canonical) : Reading.ofFloat ⟨Float.Model.pack d.unpacked⟩ = .finite d := by
  have hbits : (Float.toBits ⟨Float.Model.pack d.unpacked⟩).toNat =
      Reading.signBit d.negative + (d.exponentField * 2 ^ 52 + d.fractionField) := by
    show (UnpackedFloat.pack .binary64 d.unpacked).toNat = _
    rw [pack_unpacked hd, toNat_packComponents, BitVec.toNat_ofNat, BitVec.toNat_ofNat,
      Nat.mod_eq_of_lt (exponentField_lt hd |>.trans (by decide)),
      Nat.mod_eq_of_lt (fractionField_lt hd)]
  rw [Reading.ofFloat, hbits, ofBits_fields hd]

/-- A double above the greatest finite one is packed as the infinite one. -/
theorem ofFloat_pack_of_lt (hd : d.Formed) (hlarge : 971 < d.exponent) :
    Reading.ofFloat ⟨Float.Model.pack d.unpacked⟩ = .infinite d.negative := by
  have hne : d.mantissa ≠ 0 := by
    have := hd.normal
    omega
  have hpack : UnpackedFloat.pack .binary64 d.unpacked = packedInfinity .binary64 d.sign := by
    rw [unpacked, dif_neg hne, UnpackedFloat.pack]
    dsimp only [Format.exponentBias, Format.mantissaBits]
    norm_num
    omega
  have hbits : (Float.toBits ⟨Float.Model.pack d.unpacked⟩).toNat =
      Reading.signBit d.negative + 2047 * 2 ^ 52 := by
    show (UnpackedFloat.pack .binary64 d.unpacked).toNat = _
    rw [hpack, packedInfinity, toNat_packComponents]
    rfl
  rw [Reading.ofFloat, hbits]
  cases d.negative <;> decide

theorem ofBitVec_sign (d : Dyadic) : Sign.ofBitVec d.sign.toBitVec = d.sign := by
  cases d.sign <;> rfl

/-- What is packed is unpacked again. -/
theorem unpack_pack (hd : d.Canonical) :
    UnpackedFloat.unpack .binary64 (UnpackedFloat.pack .binary64 d.unpacked) = d.unpacked := by
  have hscale := exponentField_lt hd
  have hfraction := fractionField_lt hd
  have hones : BitVec.ofNat 11 d.exponentField ≠ -1#11 := fun h => by
    have hvalue := congrArg BitVec.toNat h
    rw [BitVec.toNat_ofNat, Nat.mod_eq_of_lt (hscale.trans (by decide))] at hvalue
    exact absurd hvalue hscale.ne
  have hnone : BitVec.ofNat 11 d.exponentField = 0#11 ↔ d.exponentField = 0 := by
    rw [← BitVec.toNat_inj, BitVec.toNat_ofNat, Nat.mod_eq_of_lt (hscale.trans (by decide))]
    rfl
  have hempty : BitVec.ofNat 52 d.fractionField = 0#52 ↔ d.fractionField = 0 := by
    rw [← BitVec.toNat_inj, BitVec.toNat_ofNat, Nat.mod_eq_of_lt hfraction]
    rfl
  rw [pack_unpacked hd, UnpackedFloat.unpack]
  simp only [unpackExponent_packComponents, unpackSign_packComponents,
    unpackMantissa_packComponents, ofBitVec_sign, if_neg hones]
  have hbias : (Format.binary64.exponentBias : Int) + (52 : Nat) = 1075 := rfl
  have hvalue : (BitVec.ofNat 52 d.fractionField).toNat = d.fractionField := by
    rw [BitVec.toNat_ofNat, Nat.mod_eq_of_lt hfraction]
  have hshifted : (BitVec.ofNat 11 d.exponentField).toNat = d.exponentField := by
    rw [BitVec.toNat_ofNat, Nat.mod_eq_of_lt (hscale.trans (by decide))]
  obtain ⟨hmantissa, hleast, hgreatest, hnormal⟩ := hd
  unfold unpacked
  by_cases hshort : d.mantissa < 2 ^ 52
  · have hscale : d.exponentField = 0 := if_pos hshort
    have hfraction : d.fractionField = d.mantissa := if_pos hshort
    have hexponent : d.exponent = -1074 := hnormal.resolve_left (by omega)
    rw [if_pos (hnone.mpr hscale)]
    by_cases hzero : d.mantissa = 0
    · rw [dif_pos (hempty.mpr (hfraction.trans hzero)), dif_pos hzero]
    · rw [dif_neg (fun h => hzero (hfraction.symm.trans (hempty.mp h))), dif_neg hzero]
      simp only [hvalue, hshifted, hbias, UnpackedFloat.finite.injEq, true_and]
      omega
  · have hscale : d.exponentField = (d.exponent + 1075).toNat := if_neg hshort
    have hfraction' : d.fractionField = d.mantissa - 2 ^ 52 := if_neg hshort
    have hfirst : (1#1 ++ BitVec.ofNat 52 d.fractionField).toNat = d.mantissa := by
      rw [BitVec.toNat_append, hvalue, ← Nat.shiftLeft_add_eq_or_of_lt hfraction, hfraction',
        Nat.shiftLeft_eq]
      show 1 * 2 ^ 52 + _ = _
      omega
    rw [if_neg (fun h => by have := hnone.mp h; omega), dif_neg (by omega)]
    simp only [hfirst, hshifted, hbias, UnpackedFloat.finite.injEq, true_and]
    omega

/-- What arithmetic makes of a double that is read as `d`. -/
theorem unpack_of_ofFloat {x : Float} (hx : Reading.ofFloat x = .finite d) :
    x.toModel.unpack = d.unpacked := by
  have hd := Reading.canonical_of_ofBits hx
  have heq : (⟨Float.Model.pack d.unpacked⟩ : Float) = x :=
    Reading.ofFloat_inj ((ofFloat_pack hd).trans hx.symm) (by simp [ofFloat_pack hd])
  rw [← heq]
  exact unpack_pack hd

/-- A minus sign in front of a double turns its sign and does nothing else. -/
theorem ofFloat_neg {x : Float} (hx : Reading.ofFloat x = .finite d) :
    Reading.ofFloat (-x) = .finite { d with negative := !d.negative } := by
  have hd := Reading.canonical_of_ofBits hx
  have hneg : x.toModel.unpack.neg = unpacked { d with negative := !d.negative } := by
    rw [unpack_of_ofFloat hx]
    obtain ⟨negative, mantissa, exponent⟩ := d
    unfold unpacked
    split <;> cases negative <;> rfl
  show Reading.ofFloat ⟨Float.Model.pack x.toModel.unpack.neg⟩ = _
  rw [hneg]
  exact ofFloat_pack hd

end Dyadic

end Treewalk
