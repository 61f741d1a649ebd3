import Treewalk.Source.Item

/-! The texts of tokens in a source text: a mark and a reserved word are spelled as they are reserved,
a string stands in its quotes, and no name is spelled like a reserved word. -/

namespace Treewalk

/-- The text of a word fits its class. -/
def Kind.Spells (kind : Kind) (lexeme : String) : Prop :=
  match kind with
  | .keyword k => lexeme = k.spelling
  | .identifier => Keyword.ofSpelling? lexeme = none
  | _ => True

/-- The text of a token fits its class. -/
def Token.Proper (t : Token) : Prop := t.kind.Spells t.lexeme

/-- The text of a token is the only one for its class and its value; names and numbers have many. -/
def Kind.SpelledOut (kind : Kind) (lexeme : String) : Prop :=
  match kind with
  | .punct p => lexeme = String.ofList p.spelling
  | .keyword k => lexeme = k.spelling
  | .string contents => lexeme = "\"" ++ contents ++ "\""
  | .identifier | .number _ | .eof => True

/-- A name: it is spelled like no reserved word. -/
def Token.IsName (t : Token) : Prop :=
  t.terminal = .identifier ∧ Keyword.ofSpelling? t.lexeme = none

namespace Token

theorem lexeme_of_proper {t : Token} {k : Keyword} (h : t.Proper) (ht : t.terminal = .keyword k) :
    t.lexeme = k.spelling := by
  unfold Proper Kind.Spells at h
  unfold terminal at ht
  cases hkind : t.kind with
  | keyword k' =>
    rw [hkind] at h ht
    cases ht
    exact h
  | _ => rw [hkind] at ht; cases ht

theorem isName_of_proper {t : Token} (h : t.Proper) (ht : t.terminal = .identifier) : t.IsName := by
  refine ⟨ht, ?_⟩
  unfold Proper Kind.Spells at h
  unfold terminal at ht
  cases hkind : t.kind with
  | identifier => rwa [hkind] at h
  | _ => rw [hkind] at ht; cases ht

/-- No name is spelled like a reserved word. -/
theorem IsName.lexeme_ne {t : Token} (h : t.IsName) (k : Keyword) : t.lexeme ≠ k.spelling := by
  intro heq
  have hnone := h.2
  rw [heq, Keyword.ofSpelling?_spelling] at hnone
  cases hnone

theorem IsName.ne_this {t : Token} (h : t.IsName) : t.lexeme ≠ "this" := h.lexeme_ne .thisWord

theorem IsName.ne_parent {t : Token} (h : t.IsName) : t.lexeme ≠ "parent" :=
  h.lexeme_ne .parentWord

end Token

/-- The text of a token among the pieces fits its class. -/
def Piece.Proper : Piece → Prop
  | .token kind text => kind.Spells (String.ofList text)
  | _ => True

def Piece.SpelledOut : Piece → Prop
  | .token kind text => kind.SpelledOut (String.ofList text)
  | _ => True

namespace Source

theorem spells_wordKind (word : List Char) : (wordKind word).Spells (String.ofList word) := by
  unfold wordKind
  cases h : Keyword.ofSpelling? (String.ofList word) with
  | some k => exact (Keyword.spelling_of_ofSpelling? h).symm
  | none => exact h

theorem proper_cutString (s : List Char) : (cutString s).1.Proper := by
  unfold cutString
  dsimp only
  split <;> trivial

theorem proper_cutMark (c : Char) (s : List Char) : (cutMark c s).1.Proper := by
  unfold cutMark
  split
  · trivial
  · split <;> trivial

theorem proper_cut (c : Char) (s : List Char) : (cut c s).1.Proper := by
  unfold cut
  split
  · trivial
  split
  · trivial
  split
  · exact spells_wordKind _
  split
  · exact proper_cutString s
  split
  · trivial
  · trivial
  · exact proper_cutMark _ _

theorem exists_cut_of_mem_pieces {s : List Char} {p : Piece} (h : p ∈ pieces s) :
    ∃ c rest, p = (cut c rest).1 := by
  fun_induction pieces s with
  | case1 => cases h
  | case2 c s ih =>
    obtain rfl | h := List.mem_cons.mp h
    · exact ⟨c, s, rfl⟩
    · exact ih h

theorem exists_piece_of_mem_itemsFrom {line : Nat} {ps : List Piece} {t : Token}
    (h : .token t ∈ itemsFrom line ps) : ∃ text, .token t.kind text ∈ ps ∧ t.lexeme = .ofList text := by
  induction ps generalizing line with
  | nil => cases h
  | cons p rest ih =>
    rw [itemsFrom_cons, List.mem_append] at h
    obtain h | h := h
    · cases p with
      | token kind text =>
        simp only [item?, Option.toList_some, List.mem_singleton, Item.token.injEq] at h
        subst h
        exact ⟨text, List.mem_cons_self, rfl⟩
      | _ => simp [item?] at h
    · obtain ⟨text, hmem, hlexeme⟩ := ih h
      exact ⟨text, List.mem_cons_of_mem p hmem, hlexeme⟩

/-- What holds of all tokens that are cut off some text holds of the tokens of a source text. -/
theorem forall_mem_tokens {P : Kind → String → Prop}
    (h : ∀ c s kind text, (cut c s).1 = .token kind text → P kind (.ofList text)) {source : String}
    {t : Token} (ht : t ∈ tokens source) : P t.kind t.lexeme := by
  unfold tokens at ht
  obtain ⟨item, hitem, ht⟩ := List.mem_filterMap.mp ht
  cases item with
  | token t' =>
    cases ht
    obtain ⟨text, hmem, hlexeme⟩ := exists_piece_of_mem_itemsFrom hitem
    obtain ⟨c, rest, hcut⟩ := exists_cut_of_mem_pieces hmem
    rw [hlexeme]
    exact h c rest t.kind text hcut.symm
  | fault => cases ht

/-- Every token of a source text fits its class. -/
theorem proper_of_mem_tokens {source : String} {t : Token} (h : t ∈ tokens source) : t.Proper := by
  refine forall_mem_tokens (fun c s kind text hcut => ?_) h
  have hproper := proper_cut c s
  rwa [hcut] at hproper

theorem spelledOut_wordKind (word : List Char) : (wordKind word).SpelledOut (String.ofList word) := by
  unfold wordKind
  cases h : Keyword.ofSpelling? (String.ofList word) with
  | some k => exact (Keyword.spelling_of_ofSpelling? h).symm
  | none => trivial

theorem spelledOut_cutString (s : List Char) : (cutString s).1.SpelledOut := by
  unfold cutString
  dsimp only
  split
  · next quote rest heq =>
    have hquote : quote = '"' := by
      have hhead := List.head?_dropWhile_not (· != '"') s
      rw [heq] at hhead
      simpa using hhead
    subst hquote
    show String.ofList _ = _
    rw [← String.toList_inj]
    simp
  · trivial

theorem spelledOut_cutMark (c : Char) (s : List Char) : (cutMark c s).1.SpelledOut := by
  unfold cutMark
  split
  · rfl
  · split
    · rfl
    · trivial

theorem spelledOut_cut (c : Char) (s : List Char) : (cut c s).1.SpelledOut := by
  unfold cut
  split
  · trivial
  split
  · trivial
  split
  · exact spelledOut_wordKind _
  split
  · exact spelledOut_cutString s
  split
  · trivial
  · trivial
  · exact spelledOut_cutMark _ _

theorem spelledOut_of_mem_tokens {source : String} {t : Token} (h : t ∈ tokens source) :
    t.kind.SpelledOut t.lexeme := by
  refine forall_mem_tokens (fun c s kind text hcut => ?_) h
  have hspelled := spelledOut_cut c s
  rwa [hcut] at hspelled

end Source

end Treewalk
