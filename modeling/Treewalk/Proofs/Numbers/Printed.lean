import Treewalk.Proofs.Numbers.Displayed
import Treewalk.Proofs.Session.Calls
import Treewalk.Proofs.Source.Spacing

/-! Printed numbers are numbers of the language. The text of a finite double is scanned as a number,
behind a minus sign if the double has a sign, and what it is read as has the double as its value. -/

namespace Treewalk

open Source

namespace Source

variable {text : List Char} {s : List Char}

/-- A number ends where neither a digit nor a point is next. -/
theorem numberSpan_of_shaped (h : NumberShaped text) (hdigit : isDigit (first s) = false)
    (hpoint : s.head? ≠ some '.') : numberSpan (text ++ s) = (text, s) := by
  obtain h | ⟨digits, behind, h, h', rfl⟩ := h
  · obtain ⟨htake, hdrop⟩ := span_append h.2 hdigit
    rw [numberSpan_of_whole, htake, hdrop]
    intro d rest hrest
    rw [hdrop] at hrest
    rw [hrest] at hpoint
    exact absurd rfl hpoint
  · obtain ⟨d, behind, rfl⟩ := List.exists_cons_of_ne_nil h'.1
    obtain ⟨hd, hbehind⟩ := List.forall_mem_cons.mp h'.2
    obtain ⟨htake, hdrop⟩ := span_append (t := '.' :: d :: (behind ++ s)) h.2 rfl
    obtain ⟨htake', hdrop'⟩ := span_append hbehind hdigit
    rw [List.append_assoc, List.cons_append, List.cons_append, numberSpan_of_point hdrop hd, htake,
      htake', hdrop']

theorem newlines_of_numberShaped (h : NumberShaped text) : newlines text = 0 := by
  refine List.count_eq_zero.mpr fun hmem => ?_
  have hblank := isBlank_of_numberShaped h '\n' hmem
  cases hblank

theorem head_of_numberShaped (h : NumberShaped text) : ∃ c t, text = c :: t ∧ isDigit c = true := by
  obtain h | ⟨digits, behind, h, -, rfl⟩ := h
  all_goals
    obtain ⟨c, t, rfl⟩ := List.exists_cons_of_ne_nil h.1
    exact ⟨c, _, rfl, h.2 c List.mem_cons_self⟩

/-- A number in front of a semicolon. -/
theorem pieces_number (h : NumberShaped text) : pieces (text ++ [';']) =
    [.token (.number (numberValue text)) text, .token (.punct .semicolon) [';']] := by
  have hspan : numberSpan (text ++ [';']) = (text, [';']) :=
    numberSpan_of_shaped h rfl (by decide)
  obtain ⟨c, t, rfl, hc⟩ := head_of_numberShaped h
  have hend : cut ';' [] = (.token (.punct .semicolon) [';'], []) := rfl
  rw [List.cons_append] at hspan ⊢
  rw [pieces_cons, cut_number hc, hspan]
  dsimp only
  rw [pieces_cons, hend, pieces_nil]

/-- A minus sign in front of a digit. -/
theorem pieces_minus {c : Char} (hc : isDigit c = true) (s : List Char) :
    pieces ('-' :: c :: s) = .token (.punct .minus) ['-'] :: pieces (c :: s) := by
  have hpair : Punct.ofPair? '-' c = none := by
    unfold Punct.ofPair?
    split <;> simp_all
  have hmark : cut '-' (c :: s) = (.token (.punct .minus) ['-'], c :: s) := by
    show cutMark '-' (c :: s) = _
    rw [cutMark, List.head?_cons, Option.bind_some, hpair]
    rfl
  rw [pieces_cons, hmark]

/-- The minus sign in front of a number. -/
def minusSign : Token := ⟨.punct .minus, "-", 1⟩

/-- A number with its sign and a semicolon: the sign is a token of its own. -/
def signedTokens (negative : Bool) (text : List Char) : List Token :=
  (if negative then [minusSign] else []) ++
    [⟨.number (numberValue text), String.ofList text, 1⟩, ⟨.punct .semicolon, ";", 1⟩]

theorem items_signed (h : NumberShaped text) (negative : Bool) :
    items (String.ofList (signed negative text) ++ ";") =
      (signedTokens negative text).map .token := by
  have hnone := newlines_of_numberShaped h
  have hnumber : itemsFrom 1 (pieces (text ++ [';'])) = (signedTokens false text).map .token := by
    rw [pieces_number h, itemsFrom_cons, itemsFrom_cons]
    simp only [Piece.text, hnone]
    rfl
  rw [items, String.toList_append, String.toList_ofList, show ";".toList = [';'] from rfl]
  cases negative with
  | false => exact hnumber
  | true =>
    obtain ⟨c, t, rfl, hc⟩ := head_of_numberShaped h
    rw [signed, if_pos rfl, List.cons_append, List.cons_append, pieces_minus hc, itemsFrom_cons,
      ← List.cons_append]
    simp only [Piece.text, show newlines ['-'] = 0 from rfl, Nat.add_zero, hnumber]
    rfl

/-- Where all items are tokens there is no fault. -/
theorem tokens_of_items {source : String} {ts : List Token} (h : items source = ts.map .token) :
    tokens source = ts ∧ faults source = [] := by
  rw [tokens, faults, h, List.filterMap_map, List.filterMap_map]
  exact ⟨List.filterMap_some, List.filterMap_none ts⟩

end Source

theorem Decimal.numberShaped_positional (c : Decimal) : NumberShaped c.positional := by
  unfold positional
  split
  · exact .inl c.digits_wholeChars
  · next hne => exact .inr ⟨_, _, c.digits_wholeChars, ⟨hne, c.isDigit_fractionChars⟩, rfl⟩

/-- The tree of a number with its sign. -/
def Expr.signed (negative : Bool) (x : Float) : Expr :=
  if negative then .unary minusSign (.literal (.number x)) else .literal (.number x)

/-- The tokens of a number with its sign are read as its tree. -/
theorem reads_signed (negative : Bool) (text : List Char) (i : NodeId) :
    Reads (.declarations [.expression (.signed negative (numberValue text))]) i
      (signedTokens negative text) i := by
  have hnumber : Reads (.unary (.literal (.number (numberValue text)))) i
      [⟨.number (numberValue text), String.ofList text, 1⟩] i :=
    .operand (.literal rfl) .callsNil
  have hsigned : Reads (.unary (.signed negative (numberValue text))) i
      ((if negative then [minusSign] else []) ++
        [⟨.number (numberValue text), String.ofList text, 1⟩]) i := by
    cases negative with
    | false => exact hnumber
    | true => exact .sign (by decide) hnumber
  have hsemicolon : (Token.mk (.punct .semicolon) ";" 1).terminal = .punct .semicolon := rfl
  have hstatement := Reads.expressionStatement (.value (hsigned.operation Level.all)) hsemicolon
  have hprogram := Reads.declarationsCons (.statement (.expression hstatement)) .declarationsNil
  rwa [List.append_nil, List.append_assoc] at hprogram

namespace Value

variable {x : Float} {d : Dyadic}

/-- The number of its magnitude, under a minus sign if it has a sign, evaluates to the number. -/
theorem evaluate_signed (hx : Reading.ofFloat x = .finite d) {y : Float}
    (hy : Reading.ofFloat y = .finite { d with negative := false }) (host : Host) (depth : Nat)
    (m : Machine) : evaluate host (depth + 2) (.signed d.negative y) m = .ok (.number x) m := by
  cases hsign : d.negative with
  | false =>
    have heq : y = x := by
      refine Reading.ofFloat_inj (hy.trans ?_) (by simp [hy])
      rw [hx, ← hsign]
    rw [heq]
    rfl
  | true =>
    have heq : -y = x := by
      have hneg := Dyadic.ofFloat_neg hy
      refine Reading.ofFloat_inj (hneg.trans ?_) (by simp [hneg])
      rw [hx, Bool.not_false, ← hsign]
    rw [← heq]
    rfl

/-- The text of a finite double, with a semicolon behind it, is scanned without a fault. It is read as
the number of the magnitude, under a minus sign if and only if the double has a sign, and evaluates
to the double itself. -/
theorem printed_number_reads_back (hx : Reading.ofFloat x = .finite d) (s : Session) :
    Source.faults ((number x).text ++ ";") = [] ∧
    ∃ y : Float,
      (s.parse ((number x).text ++ ";")).1 = .ok [.expression (.signed d.negative y)] ∧
      ∀ (host : Host) (depth : Nat) (m : Machine), 2 ≤ depth →
        evaluate host depth (.signed d.negative y) m = .ok (.number x) m := by
  have hd := Reading.canonical_of_ofBits hx
  have htext : (number x).text = String.ofList (signed d.negative (d.shortest .up).positional) := by
    rw [text, numberText_eq, hx, Reading.plain]
  obtain ⟨htokens, hfaults⟩ := tokens_of_items
    (items_signed (d.shortest .up).numberShaped_positional d.negative)
  rw [← htext] at htokens hfaults
  refine ⟨hfaults, numberValue (d.shortest .up).positional, ?_, fun host depth m hdepth => ?_⟩
  · refine (Session.parse_of_reads hfaults (j := s.nextId) ?_).1
    rw [htokens]
    exact reads_signed _ _ _
  · obtain ⟨n, rfl⟩ := Nat.exists_eq_add_of_le' hdepth
    exact evaluate_signed hx (Dyadic.shortestFor hd).readsAs host n m

theorem printed_number_reads_back_negative_zero :
    Reading.ofFloat (-0.0) = .finite ⟨true, 0, -1074⟩ ∧
    Source.faults ((number (-0.0)).text ++ ";") = [] ∧
    ∃ y : Float,
      ((Session.initial .unbounded).parse ((number (-0.0)).text ++ ";")).1 =
        .ok [.expression (.signed true y)] ∧
      ∀ (host : Host) (depth : Nat) (m : Machine), 2 ≤ depth →
        evaluate host depth (.signed true y) m = .ok (.number (-0.0)) m := by
  have hx : Reading.ofFloat (-0.0) = .finite ⟨true, 0, -1074⟩ := by decide
  exact ⟨hx, printed_number_reads_back hx _⟩

end Value

end Treewalk
