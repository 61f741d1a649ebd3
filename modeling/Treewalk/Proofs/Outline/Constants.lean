import Treewalk.Proofs.Numbers.Printed
import Treewalk.Proofs.Numbers.Scanned
import Treewalk.Proofs.Outline.Trees

/-! Constants in outlines. A finite number without a sign is shown by digits that are read as this number
again, whether it is whole or not, so that an outline tells every constant but strings and numbers that
are too great. -/

namespace Treewalk

open Source (decimal nearest numberValue Digits)

/-- The token is no string, and no number that is greater than all doubles. -/
def Token.Outlined (t : Token) : Prop :=
  t.terminal ≠ .string ∧ ∀ x negative, t.kind = .number x → Reading.ofFloat x ≠ .infinite negative

theorem Source.lexeme_of_shaped {text : List Char} (h : NumberShaped text) :
    Lexeme (.number (numberValue text)) text := by
  obtain h | ⟨digits, behind, h, h', rfl⟩ := h
  · rw [numberValue_whole h]
    exact .whole h
  · rw [numberValue_fraction h h']
    exact .fraction h h'

theorem Source.digits_toDigits (n : Nat) : Digits (Nat.toDigits 10 n) :=
  ⟨List.length_pos_iff.mp Nat.length_toDigits_pos,
    fun _ hc => Nat.isDigit_of_mem_toDigits (by decide) (by decide) hc⟩

section
variable {x : Float} {d : Dyadic}

/-- All digits of a whole number, with a zero behind the point, are read as the number. -/
theorem Dyadic.ofFloat_nearest_whole (hd : d.Canonical) (hsign : d.negative = false)
    (hwhole : d.isWhole = true) :
    Reading.ofFloat (nearest (Nat.toDigits 10 d.whole) ['0']) = .finite d := by
  have hrounded := Source.roundedFrom_nearest (Nat.toDigits 10 d.whole) ['0']
  have hdecimal : decimal (Nat.toDigits 10 d.whole ++ ['0']) = 10 * d.whole := by
    rw [Source.decimal_eq, Nat.ofDigitChars_append, Nat.ofDigitChars_toDigits (by decide) (by decide)]
    rfl
  have hvalue : ((10 * d.whole : Nat) : ℚ) / 10 ^ ['0'].length = d.value := by
    rw [Dyadic.value_of_isWhole hwhole, List.length_singleton, pow_one, Nat.cast_mul, Nat.cast_ofNat,
      mul_div_cancel_left₀ _ (by norm_num)]
  rw [hdecimal, hvalue] at hrounded
  exact (hrounded.finite_iff hd hsign).mpr d.mem_value

/-- A finite number without a sign is scanned from what an outline shows of it. -/
theorem lexeme_outlineNumber (hx : Reading.ofFloat x = .finite d) (hsign : d.negative = false) :
    Lexeme (.number x) (outlineNumber x) := by
  have hd := Reading.canonical_of_ofBits hx
  have heq {y : Float} (hy : Reading.ofFloat y = .finite d) : y = x :=
    Reading.ofFloat_inj (hy.trans hx.symm) (by simp [hy])
  have hplain (text : List Char) : signed d.negative text = text := by rw [hsign, signed]; rfl
  rw [outlineNumber, hx]
  dsimp only
  split
  · next hwhole =>
    have hzero : Digits ['0'] := ⟨by simp, by simp [Source.isDigit]⟩
    have hnumber := Lexeme.fraction (Source.digits_toDigits d.whole) hzero
    rw [heq (d.ofFloat_nearest_whole hd hsign hwhole)] at hnumber
    rwa [hplain]
  · have hreads : Reading.ofFloat (numberValue (d.shortest .up).positional) =
        .finite { d with negative := false } := (Dyadic.shortestFor hd).readsAs
    have hnumber := Source.lexeme_of_shaped (d.shortest .up).numberShaped_positional
    rw [← hsign] at hreads
    rw [heq hreads] at hnumber
    rwa [Reading.plain, hplain]

end

/-- The constant of a scanned token has an outline that is scanned as the constant. -/
theorem Token.Outlined.proper_literal {source : String} {t : Token} (h : t.Outlined)
    (ht : t ∈ Source.tokens source) {v : Literal} (hv : t.literal? = some v) : v.Proper := by
  unfold literal? at hv
  split at hv
  · next hkind => exact absurd (congrArg Kind.terminal hkind) h.1
  · next x hkind =>
    cases hv
    obtain ⟨d, hx, hsign⟩ | hx := Source.unsigned_of_mem_tokens ht hkind
    · refine ⟨.number x, ?_, rfl⟩
      rw [Literal.outline, String.toList_ofList]
      exact lexeme_outlineNumber hx hsign
    · exact absurd hx (h.2 x false hkind)
  · cases hv; exact Literal.proper_bool true
  · cases hv; exact Literal.proper_bool false
  · cases hv; exact ⟨.keyword .nullWord, .reserved .nullWord, rfl⟩
  · cases hv

end Treewalk
