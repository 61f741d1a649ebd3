import Mathlib
import Treewalk.Proofs.Numbers.Doubles
import Treewalk.Proofs.Source.Tiling
import Treewalk.Proofs.Source.Word

/-! The numbers that are scanned. The double nearest to a number without a sign is not below zero, and if
it is not finite it is infinite: it is never no number. -/

namespace Treewalk

/-- The double is a number and has no sign; it may be infinite. -/
def Unsigned (x : Float) : Prop :=
  (∃ d, Reading.ofFloat x = .finite d ∧ d.negative = false) ∨ Reading.ofFloat x = .infinite false

open Float.Model UnpackedFloat

/-- The unpacked double is a number and has no sign. -/
inductive Plus : UnpackedFloat → Prop
  | infinity : Plus (.infinity .positive)
  | zero : Plus (.zero .positive)
  | finite {m e h} : Plus (.finite .positive m e h)

namespace Plus

variable {f g : UnpackedFloat} {m n : Nat} {d e : Int} {hm : 0 < m} {hn : 0 < n}

theorem rounded (spec : Format) (m : Nat) (e : Int) (accuracy : Accuracy) :
    Plus (roundWithAccuracy spec .positive m e accuracy) := by
  unfold roundWithAccuracy
  dsimp only
  split
  · exact .zero
  · exact .finite

theorem mul (spec : Format) (hf : Plus f) :
    Plus (UnpackedFloat.mul spec f (.finite .positive n e hn)) := by
  cases hf with
  | infinity => exact .infinity
  | zero => exact .zero
  | finite => exact rounded ..

theorem div (spec : Format) (hf : Plus f) :
    Plus (UnpackedFloat.div spec f (.finite .positive n e hn)) := by
  cases hf with
  | infinity => exact .infinity
  | zero => exact .zero
  | finite => exact rounded ..

theorem ofScientific (spec : Format) (m : Nat) (e : Int) :
    Plus (UnpackedFloat.ofScientific spec m e) := by
  unfold UnpackedFloat.ofScientific
  split
  · exact .zero
  · split
    · exact .infinity
    · split
      · exact .zero
      · split
        · exact mul spec .finite
        · exact div spec .finite

theorem ofNat (spec : Format) (n : Nat) : Plus (UnpackedFloat.ofNat spec n) := by
  unfold UnpackedFloat.ofNat UnpackedFloat.ofInt UnpackedFloat.normalize
  split
  · next hlt => exact absurd (Int.compare_eq_lt.mp hlt) (by omega)
  · exact .zero
  · exact rounded ..

/-- The fields of a packed double without a sign. -/
theorem pack_eq (hf : Plus f) : ∃ exponent mantissa,
    UnpackedFloat.pack .binary64 f = packComponents .binary64 .positive exponent mantissa ∧
      (exponent = -1#11 → mantissa = 0#52) := by
  cases hf with
  | infinity => exact ⟨_, _, rfl, fun _ => rfl⟩
  | zero => exact ⟨_, _, rfl, fun _ => rfl⟩
  | @finite m e hm =>
    rw [pack.eq_4]
    split
    · exact ⟨_, _, rfl, fun _ => rfl⟩
    · next hsmall =>
      split
      · refine ⟨_, _, rfl, fun hones => ?_⟩
        have hvalue := congrArg BitVec.toNat hones
        rw [BitVec.toNat_ofNat] at hvalue
        norm_num [Format.exponentBits] at hvalue hsmall
        omega
      · exact ⟨_, _, rfl, fun hzero => absurd hzero (by decide)⟩

/-- What was packed is unpacked with its sign. -/
theorem unpack_pack (hf : Plus f) :
    Plus (UnpackedFloat.unpack .binary64 (UnpackedFloat.pack .binary64 f)) := by
  obtain ⟨exponent, mantissa, heq, hzero⟩ := hf.pack_eq
  rw [heq, UnpackedFloat.unpack]
  simp only [unpackExponent_packComponents, unpackSign_packComponents,
    unpackMantissa_packComponents]
  split
  · next hones =>
    rw [if_pos (hzero hones)]
    exact .infinity
  · split
    · split
      · exact .zero
      · exact .finite
    · exact .finite

theorem toNat_packComponents (exponent : BitVec 11) (mantissa : BitVec 52) :
    (packComponents .binary64 .positive exponent mantissa).toNat =
      exponent.toNat * 2 ^ 52 + mantissa.toNat := by
  have hsign : Sign.positive.toBitVec.toNat = 0 := rfl
  unfold packComponents
  rw [BitVec.toNat_append, BitVec.toNat_append, hsign, Nat.zero_shiftLeft, Nat.zero_or,
    ← Nat.shiftLeft_add_eq_or_of_lt mantissa.isLt, Nat.shiftLeft_eq]

/-- What was packed is a double without a sign. -/
theorem unsigned (hf : Plus f) : Unsigned ⟨Float.Model.pack f⟩ := by
  obtain ⟨exponent, mantissa, heq, hzero⟩ := hf.pack_eq
  have hbits : (Float.toBits ⟨Float.Model.pack f⟩).toNat =
      exponent.toNat * 2 ^ 52 + mantissa.toNat := by
    rw [← toNat_packComponents, ← heq]
    rfl
  have hexponent : exponent.toNat < 2048 := exponent.isLt
  have hmantissa : mantissa.toNat < 2 ^ 52 := mantissa.isLt
  have hones : exponent.toNat = 2047 → mantissa.toNat = 0 := fun h => by
    rw [hzero (BitVec.eq_of_toNat_eq h)]
    rfl
  rw [Unsigned, Reading.ofFloat, hbits]
  generalize exponent.toNat = scale at *
  generalize mantissa.toNat = fraction at *
  unfold Reading.ofBits
  simp only [Nat.pow_eq]
  split
  · right
    rw [if_pos (by omega)]
    simp only [Reading.infinite.injEq, decide_eq_false_iff_not]
    omega
  · left
    split <;> refine ⟨_, rfl, ?_⟩ <;> simp only [decide_eq_false_iff_not] <;> omega

end Plus

/-- The unpacked double is finite, without a sign, and not zero. -/
def isPositive : UnpackedFloat → Bool
  | .finite .positive _ _ _ => true
  | _ => false

/-- The powers of ten that a number is divided by. -/
theorem isPositive_powerOfTen :
    ∀ (i : Nat) (h : i < Float.exactlyRepresentablePowersOfTen.size),
      isPositive Float.exactlyRepresentablePowersOfTen[i].toModel.unpack = true := by
  decide +kernel

theorem unsigned_ofScientific (m places : Nat) : Unsigned (Float.ofScientific m true places) := by
  unfold Float.ofScientific
  split
  · next h =>
    have hsize : places < Float.exactlyRepresentablePowersOfTen.size := Nat.lt_succ_of_le h.2
    have hpower := isPositive_powerOfTen places hsize
    have hdigits : Plus (Float.Model.ofUInt64 m.toUInt64).unpack :=
      (Plus.ofNat .binary64 _).unpack_pack
    have hquotient : Plus (UnpackedFloat.div .binary64 (Float.Model.ofUInt64 m.toUInt64).unpack
        Float.exactlyRepresentablePowersOfTen[places].toModel.unpack) := by
      unfold isPositive at hpower
      split at hpower
      · next hunpack =>
        rw [hunpack]
        exact hdigits.div .binary64
      · cases hpower
    exact hquotient.unsigned
  · exact (Plus.ofScientific .binary64 m _).unsigned

/-- The numbers in a source text have no sign, and they are numbers. -/
theorem Source.unsigned_of_mem_tokens {source : String} {t : Token} {x : Float}
    (ht : t ∈ tokens source) (hx : t.kind = .number x) : Unsigned x := by
  obtain ⟨item, hitem, ht⟩ := List.mem_filterMap.mp ht
  cases item with
  | token t' =>
    cases ht
    obtain ⟨text, hmem, -⟩ := exists_piece_of_mem_itemsFrom hitem
    have hlexeme := lexeme_of_mem_pieces hmem
    rw [hx] at hlexeme
    cases hlexeme with
    | whole => exact unsigned_ofScientific _ _
    | fraction => exact unsigned_ofScientific _ _
  | fault => cases ht

end Treewalk
