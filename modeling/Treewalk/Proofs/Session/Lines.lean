import Treewalk.Proofs.Session.Twins
import Treewalk.Proofs.Source.Lines
import Treewalk.Proofs.Source.Word

/-! Lines that are told. What is said about a text names lines of it: along its items the lines never
go back, and no fault is on a line that the text does not have. -/

namespace Treewalk

namespace Source

/-! ### Lines along a text -/

/-- Items come line after line, none in front of the first line and none behind the last. -/
theorem lines_itemsFrom (line : Nat) (ps : List Piece) :
    (itemsFrom line ps).Pairwise (·.line ≤ ·.line) ∧ ∀ item ∈ itemsFrom line ps,
      line ≤ item.line ∧ item.line ≤ line + newlines (ps.flatMap Piece.text) := by
  induction ps generalizing line with
  | nil => exact ⟨.nil, nofun⟩
  | cons p rest ih =>
    obtain ⟨hsorted, hbounds⟩ := ih (line + newlines p.text)
    have hlater : ∀ item ∈ itemsFrom (line + newlines p.text) rest, line ≤ item.line ∧
        item.line ≤ line + newlines ((p :: rest).flatMap Piece.text) := by
      intro item hitem
      obtain ⟨hle, hle'⟩ := hbounds item hitem
      rw [List.flatMap_cons, newlines_append]
      omega
    rw [itemsFrom_cons]
    cases hitem : item? (line + newlines p.text) p with
    | none => exact ⟨hsorted, hlater⟩
    | some item =>
      have hline := (Caret.line_of_item? hitem).1
      refine ⟨.cons (fun later hmem => ?_) hsorted, List.forall_mem_cons.mpr ⟨?_, hlater⟩⟩
      · rw [hline]
        exact (hbounds later hmem).1
      · rw [List.flatMap_cons, newlines_append]
        omega

theorem lines_items (source : String) : (items source).Pairwise (·.line ≤ ·.line) ∧
    ∀ item ∈ items source, 1 ≤ item.line ∧ item.line ≤ (endMark source).line := by
  have h := lines_itemsFrom 1 (pieces source.toList)
  rwa [flatMap_text_pieces] at h

theorem lines_stream (source : String) : (stream source).Pairwise (·.line ≤ ·.line) ∧
    ∀ item ∈ stream source, 1 ≤ item.line ∧ item.line ≤ (endMark source).line := by
  obtain ⟨hsorted, hbounds⟩ := lines_items source
  refine ⟨List.pairwise_append.mpr ⟨hsorted, List.pairwise_singleton _ _, ?_⟩, ?_⟩
  · intro item hitem mark hmark
    rw [List.mem_singleton.mp hmark]
    exact (hbounds item hitem).2
  · intro item hitem
    obtain hitem | hmark := List.mem_append.mp hitem
    · exact hbounds item hitem
    · rw [List.mem_singleton.mp hmark]
      exact ⟨Nat.le_add_right _ _, Nat.le_refl _⟩

/-- Tokens on lines of a text stand for themselves. -/
def onLines (last : Nat) : Token.Matching where
  Matches t t' := t' = t ∧ 1 ≤ t.line ∧ t.line ≤ last
  sameText t t' h := Token.sameText_of_eq t t' h.1

theorem alike_onLines (source : String) : Alike (onLines (endMark source).line) source source :=
  .refl fun t ht => ⟨rfl, (lines_stream source).2 (.token t) ht⟩

/-- No token of a text is the end mark. -/
theorem kind_ne_eof {source : String} {t : Token} (h : .token t ∈ items source) : t.kind ≠ .eof := by
  obtain ⟨text, hpiece, -⟩ := exists_piece_of_mem_itemsFrom h
  intro heof
  rw [heof] at hpiece
  cases lexeme_of_mem_pieces hpiece

end Source

namespace Session

open Source

variable {s : Session} {source : String}

/-- Lexical faults are told as the text has them. -/
theorem mem_faults_of_mem_complaints {line : Nat} {fault : LexFault}
    (h : .lex line fault ∈ s.complaints source) : .lex line fault ∈ faults source := by
  obtain ⟨-, found, hfound⟩ := parse_advances (tokens source) (endMark source) s.nextId
  unfold complaints parse at h
  dsimp only at h
  rw [hfound] at h
  split at h
  · next hparse =>
    split at hparse
    · cases hparse
    · cases hparse
      obtain h | h := List.mem_append.mp h
      · exact h
      · obtain ⟨_, -, heq⟩ := List.mem_map.mp h
        cases heq
  · obtain ⟨finding, -, heq⟩ := List.mem_filterMap.mp h
    cases finding <;> cases heq

/-- What is complained about is on a line of the text. -/
theorem line_of_mem_complaints {d : Diagnostic} (h : d ∈ s.complaints source) :
    ∃ line, d.notice.line? = some line ∧ 1 ≤ line ∧ line ≤ (endMark source).line := by
  have halike := List.forall₂_same.mp (complaints_alike s s (alike_onLines source)) d h
  cases halike with
  | lex =>
    obtain ⟨item, hitem, heq⟩ := List.mem_filterMap.mp (mem_faults_of_mem_complaints h)
    cases item with
    | token => cases heq
    | fault =>
      cases heq
      exact ⟨_, rfl, (lines_items source).2 _ hitem⟩
  | parse ht => exact ⟨_, rfl, ht.2⟩
  | resolve ht => exact ⟨_, rfl, ht.2⟩

end Session

open Source

/-- Lines are exact. Call by call the scanner yields the items of a text, and the caret with it. When it
has yielded an item, it has passed the text up to the end of the item, the line of which is one more than
the number of newlines in what was passed; what a token spells is what was passed since the token began.
Behind the items comes the end mark, whose line is one more than the number of all newlines. Lines never
go back, and whatever is said against a text that is run is about one of its lines. -/
theorem Source.lines_exact (source : String) :
    (∀ n, (Scanner.start source).answer n = (stream source)[n]? ∧
      ∃ c, Caret.answer n (.begin source) = .ok ((stream source)[n]?) c ∧
        ∀ item, (items source)[n]? = some item → ∃ before text rest,
          source.toList = before ++ text ++ rest ∧
          c.start = (bytes before).length ∧ c.curr = (bytes (before ++ text)).length ∧
          item.line = 1 + newlines (before ++ text) ∧
          ∀ t, item = .token t → t.lexeme = .ofList text) ∧
    stream source = items source ++ [.token ⟨.eof, "", 1 + newlines source.toList⟩] ∧
    (stream source).Pairwise (·.line ≤ ·.line) ∧
    ∀ (s : Session) (host : Host) (depth : Nat), ∀ d ∈ (s.runWithin depth host source).1.errors,
      ∃ line, d.notice.line? = some line ∧ 1 ≤ line ∧ line ≤ 1 + newlines source.toList := by
  refine ⟨fun n => ?_, rfl, (lines_stream source).1, fun s host depth d hd => ?_⟩
  · have hanswer : (Scanner.start source).answer n = (stream source)[n]? :=
      Scanner.answer_eq 1 source.toList n
    obtain ⟨c, hrun, htext, hbears⟩ := Caret.answer_apply (Caret.meets_begin source) n
    rw [hanswer] at hrun hbears
    refine ⟨hanswer, c, hrun, fun item hitem => ?_⟩
    have hmem := List.mem_of_getElem? hitem
    have hstream : (stream source)[n]? = some item := by
      rw [stream, List.getElem?_append_left (List.getElem?_eq_some_iff.mp hitem).1, hitem]
    cases hbears item hstream with
    | finish => exact absurd rfl (kind_ne_eof hmem)
    | @text before text rest _ hat hstart hline hlexeme =>
      exact ⟨before, text, rest, htext.symm.trans hat.text, hstart, hat.curr, hline.trans hat.line,
        hlexeme⟩
  · rw [Session.errors_runWithin] at hd
    exact Session.line_of_mem_complaints hd

end Treewalk
