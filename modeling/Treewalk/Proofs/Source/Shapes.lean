import Mathlib.Data.Nat.Digits.Defs
import Treewalk.Proofs.Source.Ahead

/-! The shapes of pieces, said without a scan: which texts are tokens, of which class and with which
value, and which piece starts a text. A token takes as much of the text as any token could. -/

namespace Treewalk

namespace Source

/-- A run of decimal digits. -/
def Digits (s : List Char) : Prop := s ≠ [] ∧ ∀ c ∈ s, isDigit c = true

/-- The number that a run of digits stands for. -/
def decimal (digits : List Char) : Nat :=
  Nat.ofDigits 10 (digits.reverse.map fun c => c.toNat - '0'.toNat)

/-- The double nearest to the decimal fraction with these digits before and behind the point. -/
def nearest (whole fraction : List Char) : Float :=
  Float.ofScientific (decimal (whole ++ fraction)) true fraction.length

end Source

open Source in
/-- The texts of tokens, each with its class. -/
inductive Lexeme : Kind → List Char → Prop
  | operator (p : Punct) : Lexeme (.punct p) p.spelling
  | whole {digits} : Digits digits → Lexeme (.number (nearest digits [])) digits
  | fraction {digits behind} : Digits digits → Digits behind →
      Lexeme (.number (nearest digits behind)) (digits ++ '.' :: behind)
  | reserved (k : Keyword) : Lexeme (.keyword k) k.spelling.toList
  | name {c rest} : isWordStart c = true → (∀ d ∈ rest, isWordPart d = true) →
      (∀ k : Keyword, k.spelling.toList ≠ c :: rest) → Lexeme .identifier (c :: rest)
  | string (contents : String) : '"' ∉ contents.toList →
      Lexeme (.string contents) ('"' :: contents.toList ++ ['"'])

namespace Source

theorem decimal_eq_foldl (digits : List Char) :
    decimal digits = digits.foldl (fun n c => 10 * n + (c.toNat - '0'.toNat)) 0 := by
  rw [decimal, ← List.map_reverse.symm, Nat.ofDigits_eq_foldr, List.foldr_reverse, List.foldl_map]
  simp [Nat.add_comm]

theorem Digits.head {c : Char} {s u v : List Char} (hu : Digits u) (heq : c :: s = u ++ v) :
    isDigit c = true := by
  obtain ⟨d, u, rfl⟩ := List.exists_cons_of_ne_nil hu.1
  cases heq
  exact hu.2 _ List.mem_cons_self

theorem Digits.filter {s : List Char} (h : Digits s) : s.filter isDigit = s :=
  List.filter_eq_self.mpr h.2

theorem Digits.dropWhile {s : List Char} (h : Digits s) : s.dropWhile isDigit = [] :=
  List.dropWhile_eq_nil_iff.mpr h.2

theorem numberValue_whole {digits : List Char} (h : Digits digits) :
    numberValue digits = nearest digits [] := by
  simp [numberValue, nearest, decimal_eq_foldl, h.filter, h.dropWhile]

theorem numberValue_fraction {digits behind : List Char} (h : Digits digits) (h' : Digits behind) :
    numberValue (digits ++ '.' :: behind) = nearest digits behind := by
  have hpoint : isDigit '.' = false := by decide
  have hdrop : (digits ++ '.' :: behind).dropWhile isDigit = '.' :: behind :=
    (span_append (t := '.' :: behind) h.2 hpoint).2
  simp [numberValue, nearest, decimal_eq_foldl, h.filter, h'.filter, hdrop, hpoint]


theorem isWordPart_of_isWordStart {c : Char} (h : isWordStart c = true) : isWordPart c = true := by
  rw [isWordPart, h, Bool.true_or]

end Source

open Source

theorem Punct.head_spelling {p : Punct} {c : Char} {t : List Char} (h : p.spelling = c :: t) :
    isDigit c = false ∧ isWordStart c = false ∧ c ≠ '"' := by
  cases p <;> (injection h with hc; subst hc; decide)

theorem Keyword.forall_mem_spelling (k : Keyword) : ∀ c ∈ k.spelling.toList, isWordPart c = true :=
  List.all_eq_true.mp (by cases k <;> rfl)

theorem Keyword.head_spelling (k : Keyword) :
    ∃ c t, k.spelling.toList = c :: t ∧ isWordStart c = true := by
  cases k <;> exact ⟨_, _, rfl, by decide⟩

/-- A text that is a number, digits in front of a point or not. -/
def NumberShaped (text : List Char) : Prop :=
  Digits text ∨
    ∃ digits behind, Digits digits ∧ Digits behind ∧ text = digits ++ '.' :: behind

/-- The first character of a token's text tells what the text looks like. -/
theorem Lexeme.by_head {kind : Kind} {c : Char} {t : List Char} (h : Lexeme kind (c :: t)) :
    isDigit c = true ∧ NumberShaped (c :: t) ∨
    isWordStart c = true ∧ (∀ d ∈ c :: t, isWordPart d = true) ∨
    c = '"' ∧ (∃ contents, '"' ∉ contents ∧ c :: t = '"' :: contents ++ ['"']) ∨
    (isDigit c = false ∧ isWordStart c = false ∧ c ≠ '"') ∧ ∃ p : Punct, p.spelling = c :: t := by
  generalize htext : c :: t = text at h
  cases h with
  | operator p => exact .inr (.inr (.inr ⟨Punct.head_spelling htext.symm, p, rfl⟩))
  | whole h => exact .inl ⟨h.head (by rw [htext, List.append_nil]), .inl h⟩
  | fraction h h' => exact .inl ⟨h.head htext, .inr ⟨_, _, h, h', rfl⟩⟩
  | reserved k =>
    obtain ⟨d, u, hword, hd⟩ := k.head_spelling
    cases htext.trans hword
    exact .inr (.inl ⟨hd, k.forall_mem_spelling⟩)
  | name hd hrest =>
    cases htext
    exact .inr (.inl ⟨hd, List.forall_mem_cons.mpr ⟨isWordPart_of_isWordStart hd, hrest⟩⟩)
  | string contents hquote =>
    cases htext
    exact .inr (.inr (.inl ⟨rfl, _, hquote, rfl⟩))

theorem Lexeme.ne_nil {kind : Kind} {text : List Char} (h : Lexeme kind text) : text ≠ [] := by
  cases h with
  | operator p => cases p <;> exact List.cons_ne_nil _ _
  | whole h => exact h.1
  | reserved k =>
    obtain ⟨d, u, hword, -⟩ := k.head_spelling
    rw [hword]
    exact List.cons_ne_nil _ _
  | _ => simp

theorem Lexeme.exists_cons {kind : Kind} {text s : List Char} {c : Char} (h : Lexeme kind text)
    (hpre : text <+: c :: s) : ∃ t, text = c :: t ∧ t <+: s := by
  obtain ⟨d, t, rfl⟩ := List.exists_cons_of_ne_nil h.ne_nil
  obtain ⟨rfl, ht⟩ := List.cons_prefix_cons.mp hpre
  exact ⟨t, rfl, ht⟩

namespace Source

/-- No token's text that starts `s` is longer than `text`. -/
def Longest (text s : List Char) : Prop :=
  ∀ kind text', Lexeme kind text' → text' <+: s → text'.length ≤ text.length

/-- A comment starts here. -/
def CommentAhead (s : List Char) : Prop := ['/', '/'] <+: s ∨ ['/', '*'] <+: s

/-- Behind an opening mark, the text ends where all comments are closed for the first time. -/
def Closes (body : List Char) : Prop :=
  commentDepth 1 body = 0 ∧ ∀ body', body' <+: body → commentDepth 1 body' = 0 → body' = body

end Source

/-- The piece starts a text that goes on with `rest`. -/
inductive Piece.Heads : Piece → (rest : List Char) → Prop
  | blank {c rest} : c ∈ [' ', '\t', '\r', '\n'] → Heads (blank c) rest
  | lineComment {body rest} : '\n' ∉ body → rest.head? ∈ [none, some '\n'] →
      Heads (lineComment ('/' :: '/' :: body)) rest
  | blockComment {body rest} : Closes body → Heads (blockComment ('/' :: '*' :: body)) rest
  | openComment {body} : commentDepth 1 body ≠ 0 → Heads (blockComment ('/' :: '*' :: body)) []
  | token {kind text rest} : Lexeme kind text → Longest text (text ++ rest) →
      ¬CommentAhead (text ++ rest) → Heads (token kind text) rest
  | unexpected {c rest} : c ∉ [' ', '\t', '\r', '\n', '"'] →
      (∀ kind text, Lexeme kind text → ¬text <+: c :: rest) → Heads (unexpected c) rest
  | unterminated {body} : '"' ∉ body → Heads (unterminated ('"' :: body)) []

theorem Piece.Heads.text_ne_nil {p : Piece} {rest : List Char} (h : p.Heads rest) : p.text ≠ [] := by
  cases h with
  | token hlexeme => exact hlexeme.ne_nil
  | _ => exact List.cons_ne_nil _ _

namespace Source

theorem length_le_takeWhile {p : Char → Bool} {s t : List Char} (h : t <+: s)
    (ht : ∀ c ∈ t, p c = true) : t.length ≤ (s.takeWhile p).length := by
  obtain ⟨u, rfl⟩ := h
  rw [List.takeWhile_append_of_pos ht]
  simp

/-! ### Numbers -/

theorem digits_takeWhile {c : Char} (s : List Char) (hc : isDigit c = true) :
    Digits ((c :: s).takeWhile isDigit) :=
  ⟨by simp [hc], fun _ hd => List.mem_takeWhile_imp hd⟩

theorem lexeme_numberSpan {c : Char} (s : List Char) (hc : isDigit c = true) :
    Lexeme (.number (numberValue (numberSpan (c :: s)).1)) (numberSpan (c :: s)).1 := by
  have hwhole := digits_takeWhile s hc
  by_cases hpoint : ∃ d rest, (c :: s).dropWhile isDigit = '.' :: d :: rest ∧ isDigit d = true
  · obtain ⟨d, rest, hrest, hd⟩ := hpoint
    have hbehind : Digits (d :: rest.takeWhile isDigit) := by
      have h := digits_takeWhile rest hd
      rwa [List.takeWhile_cons_of_pos hd] at h
    rw [numberSpan_of_point hrest hd, numberValue_fraction hwhole hbehind]
    exact .fraction hwhole hbehind
  · rw [numberSpan_of_whole fun d rest hrest =>
      Bool.eq_false_iff.mpr fun hd => hpoint ⟨d, rest, hrest, hd⟩, numberValue_whole hwhole]
    exact .whole hwhole

theorem length_takeWhile_le_numberSpan (s : List Char) :
    (s.takeWhile isDigit).length ≤ (numberSpan s).1.length := by
  by_cases hpoint : ∃ d rest, s.dropWhile isDigit = '.' :: d :: rest ∧ isDigit d = true
  · obtain ⟨d, rest, hrest, hd⟩ := hpoint
    simp [numberSpan_of_point hrest hd]
  · rw [numberSpan_of_whole fun d rest hrest =>
      Bool.eq_false_iff.mpr fun hd => hpoint ⟨d, rest, hrest, hd⟩]

theorem longest_numberSpan {c : Char} (s : List Char) (hc : isDigit c = true) :
    Longest (numberSpan (c :: s)).1 (c :: s) := by
  intro kind text h hpre
  obtain ⟨t, rfl, -⟩ := h.exists_cons hpre
  obtain ⟨-, hdigits | ⟨digits, behind, hdigits, hbehind, htext⟩⟩ | ⟨hword, -⟩ | ⟨rfl, -⟩ |
    ⟨⟨hnone, -⟩, -⟩ := h.by_head
  · exact (length_le_takeWhile hpre hdigits.2).trans (length_takeWhile_le_numberSpan _)
  · obtain ⟨u, hu⟩ := hpre
    obtain ⟨hne, hall⟩ := hbehind
    obtain ⟨d, b, rfl⟩ := List.exists_cons_of_ne_nil hne
    rw [htext, List.append_assoc, List.cons_append, List.cons_append] at hu
    obtain ⟨htake, hdrop⟩ := span_append (t := '.' :: d :: (b ++ u)) hdigits.2 rfl
    have hle := length_le_takeWhile (s := b ++ u) ⟨u, rfl⟩ (List.forall_mem_cons.mp hall).2
    rw [htext, ← hu, numberSpan_of_point hdrop (List.forall_mem_cons.mp hall).1, htake]
    simpa using hle
  · rw [isDigit_of_isWordStart hword] at hc
    cases hc
  · cases hc
  · rw [hnone] at hc
    cases hc

/-! ### Words, strings and marks -/

theorem lexeme_word {c : Char} (s : List Char) (hc : isWordStart c = true) :
    Lexeme (wordKind (c :: s.takeWhile isWordPart)) (c :: s.takeWhile isWordPart) := by
  unfold wordKind
  cases h : Keyword.ofSpelling? (String.ofList (c :: s.takeWhile isWordPart)) with
  | some k =>
    have hspelling := congrArg String.toList (Keyword.spelling_of_ofSpelling? h)
    rw [String.toList_ofList] at hspelling
    rw [← hspelling]
    exact .reserved k
  | none =>
    refine .name hc (fun _ hd => List.mem_takeWhile_imp hd) fun k hk => ?_
    rw [← hk, String.ofList_toList, Keyword.ofSpelling?_spelling] at h
    cases h

theorem longest_word {c : Char} (s : List Char) (hc : isWordStart c = true) :
    Longest (c :: s.takeWhile isWordPart) (c :: s) := by
  intro kind text h hpre
  obtain ⟨t, rfl, htail⟩ := h.exists_cons hpre
  obtain ⟨hdigit, -⟩ | ⟨-, hword⟩ | ⟨rfl, -⟩ | ⟨⟨-, hnone, -⟩, -⟩ := h.by_head
  · rw [isDigit_of_isWordStart hc] at hdigit
    cases hdigit
  · exact Nat.succ_le_succ (length_le_takeWhile htail (List.forall_mem_cons.mp hword).2)
  · cases hc
  · rw [hnone] at hc
    cases hc

theorem forall_ne_of_not_mem {c : Char} {s : List Char} (h : c ∉ s) : ∀ d ∈ s, (d != c) = true := by
  intro d hd
  rw [bne_iff_ne]
  rintro rfl
  exact h hd

/-- The contents of a string are what stands in front of the next quote. -/
theorem contents_eq {contents s : List Char} (hquote : '"' ∉ contents)
    (hpre : contents ++ ['"'] <+: s) : contents = s.takeWhile (· != '"') := by
  obtain ⟨u, rfl⟩ := hpre
  rw [List.append_assoc]
  exact (span_append (t := '"' :: u) (forall_ne_of_not_mem hquote) rfl).1.symm

theorem longest_string {contents s : List Char} (hquote : '"' ∉ contents)
    (hs : contents ++ ['"'] <+: s) : Longest ('"' :: contents ++ ['"']) ('"' :: s) := by
  intro kind text h hpre
  obtain ⟨t, rfl, htail⟩ := h.exists_cons hpre
  obtain ⟨hdigit, -⟩ | ⟨hword, -⟩ | ⟨-, contents', hquote', htext⟩ | ⟨⟨-, -, hnone⟩, -⟩ := h.by_head
  · cases hdigit
  · cases hword
  · cases htext
    rw [contents_eq hquote hs, contents_eq hquote' htail]
    simp
  · exact absurd rfl hnone

/-! ### The class of a text -/

theorem wordKind_of_name {text : List Char} (h : ∀ k : Keyword, k.spelling.toList ≠ text) :
    wordKind text = .identifier := by
  unfold wordKind
  cases hk : Keyword.ofSpelling? (String.ofList text) with
  | some k =>
    have hspelling := congrArg String.toList (Keyword.spelling_of_ofSpelling? hk)
    rw [String.toList_ofList] at hspelling
    exact absurd hspelling (h k)
  | none => rfl

theorem cutString_of_closed {contents : List Char} (hquote : '"' ∉ contents) (rest : List Char) :
    cutString (contents ++ '"' :: rest) =
      (.token (.string (String.ofList contents)) ('"' :: contents ++ ['"']), rest) := by
  obtain ⟨htake, hdrop⟩ := span_append (t := '"' :: rest) (forall_ne_of_not_mem hquote) rfl
  rw [cutString, htake, hdrop]

/-- A token's text that stands alone is cut as a whole, so it has one class only. -/
theorem cut_of_lexeme {kind : Kind} {c : Char} {t : List Char} (h : Lexeme kind (c :: t)) :
    cut c t = (.token kind (c :: t), []) := by
  generalize htext : c :: t = text at h
  cases h with
  | operator p => cases p <;> cases htext <;> rfl
  | reserved k => cases k <;> cases htext <;> rfl
  | whole h =>
    rw [cut_number (h.head (by rw [htext, List.append_nil])) t, htext, numberSpan_of_whole,
      h.dropWhile, List.takeWhile_eq_self_iff.mpr h.2, numberValue_whole h]
    intro d rest hrest
    rw [h.dropWhile] at hrest
    cases hrest
  | @fraction digits behind h h' =>
    obtain ⟨d, b, rfl⟩ := List.exists_cons_of_ne_nil h'.1
    have hb := List.forall_mem_cons.mp h'.2
    obtain ⟨htake, hdrop⟩ := span_append (t := '.' :: d :: b) h.2 rfl
    rw [cut_number (h.head htext) t, htext, numberSpan_of_point hdrop hb.1, htake,
      List.takeWhile_eq_self_iff.mpr hb.2, List.dropWhile_eq_nil_iff.mpr hb.2,
      numberValue_fraction h h']
  | name hc hrest hname =>
    cases htext
    rw [cut_word hc, List.takeWhile_eq_self_iff.mpr hrest, List.dropWhile_eq_nil_iff.mpr hrest,
      wordKind_of_name hname]
  | string contents hquote =>
    cases htext
    have hcut := cutString_of_closed hquote []
    rwa [String.ofList_toList] at hcut

theorem kind_unique {kind kind' : Kind} {text : List Char} (h : Lexeme kind text)
    (h' : Lexeme kind' text) : kind = kind' := by
  obtain ⟨c, t, rfl⟩ := List.exists_cons_of_ne_nil h.ne_nil
  have hcut := (cut_of_lexeme h).symm.trans (cut_of_lexeme h')
  cases hcut
  rfl

end Source

end Treewalk
