import Mathlib.Data.List.Forall2
import Treewalk.Proofs.Source.Ahead
import Treewalk.Source.Item

/-! Names in a source text may be spelled otherwise. If another name is put in the place of a name,
the text is scanned as before but for this name. -/

namespace Treewalk

namespace Source

/-- The text is a name: it is scanned as one. -/
def Name (name : String) : Prop := pieces name.toList = [.token .identifier name.toList]

/-- What is cut off as a name starts like a word. -/
theorem isWordStart_of_cut {c : Char} {s text : List Char}
    (h : (cut c s).1 = .token .identifier text) : isWordStart c = true := by
  unfold cut at h
  split at h
  · cases h
  split at h
  · cases h
  split at h
  · assumption
  split at h
  · unfold cutString at h
    dsimp only at h
    split at h <;> cases h
  split at h
  · cases h
  · cases h
  · unfold cutMark at h
    split at h
    · cases h
    · split at h <;> cases h

theorem Name.word {name : String} (h : Name name) : ∃ c rest, name.toList = c :: rest ∧
    isWordStart c = true ∧ (∀ d ∈ rest, isWordPart d = true) ∧
      wordKind (c :: rest) = .identifier := by
  unfold Name at h
  cases hname : name.toList with
  | nil =>
    rw [hname, pieces_nil] at h
    cases h
  | cons c rest =>
    rw [hname, pieces_cons] at h
    have hcut := (List.cons.inj h).1
    have hc := isWordStart_of_cut hcut
    rw [cut_word hc] at hcut
    injection hcut with hkind htext
    have hrest : rest.takeWhile isWordPart = rest := (List.cons.inj htext).2
    rw [hrest] at hkind
    exact ⟨c, rest, rfl, hc, fun d hd => List.mem_takeWhile_imp (hrest ▸ hd), hkind⟩

theorem newlines_word {c : Char} {rest : List Char} (hc : isWordStart c = true)
    (hrest : ∀ d ∈ rest, isWordPart d = true) : newlines (c :: rest) = 0 := by
  rw [newlines, List.count_eq_zero, List.mem_cons]
  rintro (rfl | hmem)
  · cases hc
  · cases hrest _ hmem

end Source

/-! ### Scanning a text with names that are spelled otherwise -/

/-- The second piece is the first one, or both are names. -/
inductive Piece.Respelled : Piece → Piece → Prop
  | same {p} : Piece.Respelled p p
  | name {text : List Char} {name : String} : Source.Name name →
    Piece.Respelled (.token .identifier text) (.token .identifier name.toList)

/-- The second token is the first one, or both are names. -/
inductive Token.Respelled : Token → Token → Prop
  | same {t} : Token.Respelled t t
  | name {lexeme name line} : Source.Name name →
    Token.Respelled ⟨.identifier, lexeme, line⟩ ⟨.identifier, name, line⟩

namespace Source

/-- A text with names that are spelled otherwise has the same pieces but for these names. -/
theorem pieces_respelled {s : List Char} {ps : List Piece}
    (h : List.Forall₂ Piece.Respelled (pieces s) ps) :
    pieces (ps.flatMap Piece.text) = ps ∧ Follows s (ps.flatMap Piece.text) := by
  fun_induction pieces s generalizing ps with
  | case1 =>
    cases h
    exact ⟨pieces_nil, .inl rfl, by simp⟩
  | case2 c s ih =>
    cases h with
    | @cons _ p _ ps hp hrest =>
      obtain ⟨hpieces, hfollows⟩ := ih hrest
      generalize hcut : (cut c s).1 = piece at hp
      cases hp with
      | same =>
        have hend (hend : GoesOn (cut c s).1) : ps.flatMap Piece.text = [] := by
          rw [rest_eq_nil hend, pieces_nil] at hrest
          cases hrest
          rfl
        obtain ⟨u, htext, hu⟩ := cut_follows hfollows hend
        have htail := hfollows.ahead.append u
        rw [tail_append htext] at htail
        rw [List.flatMap_cons, ← hcut, htext, List.cons_append, pieces_cons, hu, hpieces]
        exact ⟨rfl, .refl _ _ _, fun _ => htail⟩
      | @name text name hname =>
        obtain ⟨d, rest, hd, hstart, hpart, hkind⟩ := hname.word
        have hc := isWordStart_of_cut hcut
        rw [cut_word hc] at hfollows
        obtain ⟨htake, hdrop⟩ :=
          span_append hpart (hfollows.ahead.stops Lookalike.isWordPart_eq rfl)
        rw [List.flatMap_cons, Piece.text, hd, List.cons_append, pieces_cons, cut_word hstart,
          htake, hdrop, hkind, hpieces]
        refine ⟨rfl, .inr ⟨hc, hstart⟩, fun hpoint => ?_⟩
        cases hpoint
        cases hc

def Item.token? : Item → Option Token
  | .token t => some t
  | .fault .. => none

def Item.diagnostic? : Item → Option Diagnostic
  | .token _ => none
  | .fault line found => some (.lex line found)

theorem tokens_eq (source : String) : tokens source = (items source).filterMap Item.token? := rfl

theorem faults_eq (source : String) :
    faults source = (items source).filterMap Item.diagnostic? := rfl

theorem filterMap_itemsFrom_cons {α : Type} (f : Item → Option α) (line : Nat) (p : Piece)
    (ps : List Piece) : (itemsFrom line (p :: ps)).filterMap f =
      ((item? (line + newlines p.text) p).bind f).toList ++
        (itemsFrom (line + newlines p.text) ps).filterMap f := by
  rw [itemsFrom_cons, List.filterMap_append]
  congr 1
  cases item? (line + newlines p.text) p with
  | none => rfl
  | some item => cases hitem : f item <;> simp [hitem]

theorem Name.newlines {name : String} (h : Name name) : newlines name.toList = 0 := by
  obtain ⟨c, rest, hname, hc, hrest, -⟩ := h.word
  rw [hname, newlines_word hc hrest]

/-- Whatever name the token of a piece is given, there is a piece with this name. -/
theorem exists_piece {p : Piece} {line : Nat} {us : List Token}
    (hname : ∀ text, p = .token .identifier text → newlines text = 0)
    (h : List.Forall₂ Token.Respelled ((item? line p).bind Item.token?).toList us) :
    ∃ p', p.Respelled p' ∧ newlines p'.text = newlines p.text ∧
      ((item? line p').bind Item.token?).toList = us ∧
      (item? line p').bind Item.diagnostic? = (item? line p).bind Item.diagnostic? := by
  cases p with
  | token kind text =>
    cases h with
    | cons ht hnil =>
      cases hnil
      cases ht with
      | same => exact ⟨_, .same, rfl, rfl, rfl⟩
      | @name lexeme name line h =>
        refine ⟨_, .name h, h.newlines.trans (hname text rfl).symm, ?_, rfl⟩
        simp [item?, Item.token?]
  | blank | lineComment | blockComment | unexpected | unterminated =>
    cases h
    exact ⟨_, .same, rfl, rfl, rfl⟩

theorem exists_pieces {s : List Char} {line : Nat} {ts : List Token}
    (h : List.Forall₂ Token.Respelled ((itemsFrom line (pieces s)).filterMap Item.token?) ts) :
    ∃ ps, List.Forall₂ Piece.Respelled (pieces s) ps ∧
      (itemsFrom line ps).filterMap Item.token? = ts ∧
      (itemsFrom line ps).filterMap Item.diagnostic? =
        (itemsFrom line (pieces s)).filterMap Item.diagnostic? := by
  fun_induction pieces s generalizing line ts with
  | case1 =>
    cases h
    exact ⟨[], .nil, rfl, rfl⟩
  | case2 c s ih =>
    rw [filterMap_itemsFrom_cons] at h
    have hname (text : List Char) (hcut : (cut c s).1 = .token .identifier text) :
        newlines text = 0 := by
      have hc := isWordStart_of_cut hcut
      rw [cut_word hc] at hcut
      injection hcut with _ htext
      rw [← htext, newlines_word hc fun d hd => List.mem_takeWhile_imp hd]
    generalize (cut c s).1 = p at h hname ⊢
    generalize hline : line + newlines p.text = line' at h
    let n := ((item? line' p).bind Item.token?).toList.length
    have hfirst := List.forall₂_take n h
    have hrest := List.forall₂_drop n h
    rw [List.take_left] at hfirst
    rw [List.drop_left] at hrest
    obtain ⟨p', hp', hlines, htoken, hfault⟩ := exists_piece hname hfirst
    obtain ⟨ps, hps, htokens, hfaults⟩ := ih hrest
    refine ⟨p' :: ps, .cons hp' hps, ?_, ?_⟩
    · rw [filterMap_itemsFrom_cons, hlines, hline, htoken, htokens, List.take_append_drop]
    · rw [filterMap_itemsFrom_cons, hlines, hline, hfault, hfaults, filterMap_itemsFrom_cons, hline]

/-- Names in a text may be spelled otherwise. -/
theorem exists_respelled {source : String} {ts : List Token}
    (h : List.Forall₂ Token.Respelled (tokens source) ts) :
    ∃ source', tokens source' = ts ∧ faults source' = faults source := by
  rw [tokens_eq, items] at h
  obtain ⟨ps, hps, htokens, hfaults⟩ := exists_pieces h
  have hpieces : pieces (String.ofList (ps.flatMap Piece.text)).toList = ps := by
    rw [String.toList_ofList]
    exact (pieces_respelled hps).1
  refine ⟨String.ofList (ps.flatMap Piece.text), ?_, ?_⟩
  · rw [tokens_eq, items, hpieces, htokens]
  · rw [faults_eq, items, hpieces, hfaults, faults_eq, items]

end Source

end Treewalk
