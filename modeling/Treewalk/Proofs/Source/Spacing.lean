import Mathlib
import Treewalk.Proofs.Source.Tiling
import Treewalk.Proofs.Source.Word

/-! Tokens apart. In front of a blank, or of the end of a text, the text of a token is scanned as it
is scanned alone: a blank carries no token on, and inside a token it stands in a string only, which
ends at its quote. So the texts of tokens that are put one behind the other, with blanks between them,
are scanned as these tokens. -/

namespace Treewalk

namespace Source

/-- A text of blanks that is not empty. -/
def Gap (s : String) : Prop := s ≠ "" ∧ ∀ c ∈ s.toList, isBlank c = true

/-- The texts one behind the other, with `gap n` behind the one at place `n` if another one follows. -/
def spaced : (gap : Nat → String) → List String → String
  | _, [] => ""
  | _, [text] => text
  | gap, text :: next :: rest => text ++ (gap 0 ++ spaced (fun n => gap (n + 1)) (next :: rest))

/-- The item is the token, on some line. -/
def Item.Shows (item : Item) (t : Token) : Prop := ∃ line, item = .token { t with line }

/-- A blank or the end of the text is next. -/
def BlankAhead (s : List Char) : Prop := ∀ c ∈ s.head?, isBlank c = true

theorem isBlank_of_isWordPart {c : Char} (h : isWordPart c = true) : isBlank c = false := by
  rw [isWordPart, Bool.or_eq_true] at h
  exact h.elim isBlank_of_isWordStart isBlank_of_isDigit

theorem isBlank_of_numberShaped {text : List Char} (h : NumberShaped text) :
    ∀ c ∈ text, isBlank c = false := by
  obtain h | ⟨digits, behind, h, h', rfl⟩ := h
  · exact fun c hc => isBlank_of_isDigit (h.2 c hc)
  · intro c hc
    obtain hc | hc := List.mem_append.mp hc
    · exact isBlank_of_isDigit (h.2 c hc)
    · obtain rfl | hc := List.mem_cons.mp hc
      · decide
      · exact isBlank_of_isDigit (h'.2 c hc)

end Source

open Source

theorem Punct.isBlank_of_mem_spelling (p : Punct) : ∀ c ∈ p.spelling, isBlank c = false := by
  have hnone : p.spelling.any isBlank = false := by cases p <;> rfl
  simpa using hnone

/-- Blanks stand in strings only. -/
theorem Lexeme.isBlank_of_mem {kind : Kind} {c : Char} {t : List Char} (h : Lexeme kind (c :: t))
    (hc : c ≠ '"') : ∀ d ∈ c :: t, isBlank d = false := by
  obtain ⟨-, hnumber⟩ | ⟨-, hword⟩ | ⟨hquote, -⟩ | ⟨-, p, hp⟩ := h.by_head
  · exact isBlank_of_numberShaped hnumber
  · exact fun d hd => isBlank_of_isWordPart (hword d hd)
  · exact absurd hquote hc
  · exact hp ▸ p.isBlank_of_mem_spelling

namespace Source

section
variable {kind : Kind} {text rest : List Char}

/-- A blank behind the text of a token carries it on to no longer one. -/
theorem longest_of_blankAhead (h : Lexeme kind text) (hrest : BlankAhead rest) :
    Longest text (text ++ rest) := by
  obtain ⟨c, t, rfl⟩ := List.exists_cons_of_ne_nil h.ne_nil
  by_cases hquote : c = '"'
  · subst hquote
    obtain ⟨hdigit, -⟩ | ⟨hword, -⟩ | ⟨-, contents, hcontents, htext⟩ | ⟨⟨-, -, hnone⟩, -⟩ := h.by_head
    · cases hdigit
    · cases hword
    · rw [htext]
      exact longest_string hcontents (List.prefix_append _ _)
    · exact absurd rfl hnone
  · intro kind' text' h' hpre
    by_contra hlonger
    -- the longer text holds the blank that is next
    obtain ⟨d, rest, rfl⟩ := List.exists_cons_of_ne_nil (l := rest) (by
      rintro rfl
      exact hlonger (by simpa using hpre.length_le))
    have hblank : c :: t ++ [d] <+: text' :=
      List.prefix_of_prefix_length_le (by simp) hpre (by simp at hlonger ⊢; omega)
    obtain ⟨t', rfl, -⟩ := h'.exists_cons hpre
    have hd := h'.isBlank_of_mem hquote d (hblank.subset (by simp))
    rw [hrest d rfl] at hd
    cases hd

/-- No comment starts where a token does: a blank completes no mark. -/
theorem not_commentAhead_of_blankAhead (h : Lexeme kind text) (hrest : BlankAhead rest) :
    ¬CommentAhead (text ++ rest) := by
  have hmark (d : Char) (hd : d = '/' ∨ d = '*') : ¬['/', d] <+: text ++ rest := by
    obtain ⟨c, t, rfl⟩ := List.exists_cons_of_ne_nil h.ne_nil
    intro hpre
    obtain ⟨hc, hnext⟩ := List.cons_prefix_cons.mp hpre
    subst hc
    cases t with
    | nil =>
      obtain ⟨rest, rfl⟩ := hnext
      have hblank := hrest d rfl
      obtain rfl | rfl := hd <;> cases hblank
    | cons e t =>
      obtain rfl := (List.cons_prefix_cons.mp hnext).1
      have hcut := cut_of_lexeme h
      obtain rfl | rfl := hd <;> cases hcut
  exact fun hahead => hahead.elim (hmark '/' (.inl rfl)) (hmark '*' (.inr rfl))

/-- Before a blank or the end, the text of a token is cut off as this token. -/
theorem pieces_lexeme (h : Lexeme kind text) (hrest : BlankAhead rest) :
    pieces (text ++ rest) = .token kind text :: pieces rest := by
  have hheads : (Piece.token kind text).Heads rest :=
    .token h (longest_of_blankAhead h hrest) (not_commentAhead_of_blankAhead h hrest)
  obtain ⟨c, t, rfl⟩ := List.exists_cons_of_ne_nil h.ne_nil
  have hcut : cut c (t ++ rest) = _ := cut_of_heads hheads rfl
  rw [List.cons_append, pieces_cons, hcut]

end

/-- Blanks yield nothing. -/
theorem itemsFrom_blanks {blanks : List Char} (h : ∀ c ∈ blanks, isBlank c = true) (s : List Char)
    (line : Nat) :
    itemsFrom line (pieces (blanks ++ s)) = itemsFrom (line + newlines blanks) (pieces s) := by
  induction blanks generalizing line with
  | nil => rfl
  | cons c blanks ih =>
    obtain ⟨hc, hblanks⟩ := List.forall_mem_cons.mp h
    rw [List.cons_append, pieces_cons, cut_blank hc, itemsFrom_cons, ih hblanks, Nat.add_assoc,
      ← newlines_append]
    rfl

/-- The text of a token with blanks behind it yields this token. Only at the end are there none. -/
theorem itemsFrom_lexeme {kind : Kind} {text blanks s : List Char} (h : Lexeme kind text)
    (hblanks : ∀ c ∈ blanks, isBlank c = true) (hs : blanks = [] → s = []) (line : Nat) :
    itemsFrom line (pieces (text ++ (blanks ++ s))) =
      .token ⟨kind, .ofList text, line + newlines text⟩ ::
        itemsFrom (line + newlines text + newlines blanks) (pieces s) := by
  have hahead : BlankAhead (blanks ++ s) := by
    cases blanks with
    | nil => simp [BlankAhead, hs rfl]
    | cons d blanks =>
      rintro c ⟨⟩
      exact hblanks d List.mem_cons_self
  rw [pieces_lexeme h hahead, itemsFrom_cons, itemsFrom_blanks hblanks]
  rfl

/-- A token alone. -/
theorem itemsFrom_lexeme_alone {kind : Kind} {text : List Char} (h : Lexeme kind text) (line : Nat) :
    itemsFrom line (pieces text) = [.token ⟨kind, .ofList text, line + newlines text⟩] := by
  have hitems : itemsFrom line (pieces (text ++ ([] ++ []))) = _ :=
    itemsFrom_lexeme h (by simp) (fun _ => rfl) line
  simpa [itemsFrom] using hitems

theorem lexeme_of_mem_tokens {source : String} {t : Token} (h : t ∈ tokens source) :
    Lexeme t.kind t.lexeme.toList := by
  refine forall_mem_tokens (P := fun kind lexeme => Lexeme kind lexeme.toList)
    (fun c s kind text hcut => ?_) h
  have hheads := heads_cut c s
  rw [hcut] at hheads
  cases hheads with
  | token hlexeme => rwa [String.toList_ofList]

/-- The texts of tokens, blanks between them, yield the tokens. -/
theorem itemsFrom_spaced {ts : List Token} {gap : Nat → String} (hgap : ∀ n, Gap (gap n))
    (h : ∀ t ∈ ts, Lexeme t.kind t.lexeme.toList) (line : Nat) :
    List.Forall₂ Item.Shows (itemsFrom line (pieces (spaced gap (ts.map Token.lexeme)).toList)) ts := by
  induction ts generalizing gap line with
  | nil => simp [spaced, itemsFrom]
  | cons t ts ih =>
    obtain ⟨ht, hts⟩ := List.forall_mem_cons.mp h
    cases ts with
    | nil =>
      rw [List.map_singleton, spaced, itemsFrom_lexeme_alone ht]
      exact .cons ⟨_, by rw [String.ofList_toList]⟩ .nil
    | cons u ts =>
      rw [List.map_cons, List.map_cons, spaced, String.toList_append, String.toList_append,
        itemsFrom_lexeme ht (hgap 0).2 (fun h => absurd (String.toList_eq_nil_iff.mp h) (hgap 0).1)]
      exact .cons ⟨_, by rw [String.ofList_toList]⟩ (ih (fun n => hgap (n + 1)) hts _)

/-- The text of a token that is scanned alone is this token. -/
theorem stream_lexeme {t : Token} (h : Lexeme t.kind t.lexeme.toList) :
    stream t.lexeme =
      [.token { t with line := 1 + newlines t.lexeme.toList }, .token (endMark t.lexeme)] := by
  rw [stream, items, itemsFrom_lexeme_alone h, String.ofList_toList]
  rfl

/-- The texts of tokens are scanned as these tokens again. Let the texts of the tokens of a source text
be put one behind the other, with some blanks between any two. What is scanned then, but for lines, are
the tokens of the source text and the end mark, and there is no fault. Scanned alone, the text of each
of the tokens is this token, on the line where the text ends. -/
theorem token_texts_scan_again (source : String) (gap : Nat → String) (hgap : ∀ n, Gap (gap n)) :
    List.Forall₂ Item.Shows (stream (spaced gap ((tokens source).map Token.lexeme)))
        (tokens source ++ [endMark source]) ∧
      ∀ t ∈ tokens source, stream t.lexeme =
        [.token { t with line := 1 + newlines t.lexeme.toList }, .token (endMark t.lexeme)] := by
  have hlexeme : ∀ t ∈ tokens source, Lexeme t.kind t.lexeme.toList :=
    fun t ht => lexeme_of_mem_tokens ht
  refine ⟨?_, fun t ht => stream_lexeme (hlexeme t ht)⟩
  exact List.rel_append (itemsFrom_spaced hgap hlexeme 1) (.cons ⟨_, rfl⟩ .nil)

theorem token_texts_scan_again_operator :
    List.Forall₂ Item.Shows (stream ("a" ++ ("\r\n" ++ (">=" ++ ("\r\n" ++ "\"b  c\"")))))
      [⟨.identifier, "a", 1⟩, ⟨.punct .greaterEqual, ">=", 1⟩, ⟨.string "b  c", "\"b  c\"", 1⟩,
        ⟨.eof, "", 1⟩] := by
  have htokens : tokens "a>=\"b  c\"" = [⟨.identifier, "a", 1⟩, ⟨.punct .greaterEqual, ">=", 1⟩,
      ⟨.string "b  c", "\"b  c\"", 1⟩] := by
    cbv
  have h := (token_texts_scan_again "a>=\"b  c\"" (fun _ => "\r\n")
    fun _ => ⟨by decide, List.all_eq_true.mp (by decide)⟩).1
  rw [htokens] at h
  exact h

end Source

end Treewalk
