import Mathlib
import Treewalk.Proofs.Source.Seam
import Treewalk.Proofs.Source.Tiling

/-! Comments in comments. A block comment is said by a grammar, one comment inside the other, and
counting the open ones finds the same ends: a comment in front of a text is one unit, which moves
the lines of the text and nothing else, and a text that starts with an opening mark and with no
comment is empty. -/

namespace Treewalk

namespace Source

/-- A mark of a comment, opening or closing, starts here. -/
def MarkAhead (s : List Char) : Prop := ['/', '*'] <+: s ∨ ['*', '/'] <+: s

mutual

/-- A block comment: an opening mark and what belongs to it. -/
inductive Comment : List Char → Prop
  | opening {rest} : Remainder rest → Comment ('/' :: '*' :: rest)

/-- What belongs to an opening mark: comments, and characters at which no mark starts, up to a closing
mark. -/
inductive Remainder : List Char → Prop
  | closing : Remainder ['*', '/']
  | character {c rest} : ¬MarkAhead (c :: rest) → Remainder rest → Remainder (c :: rest)
  | comment {inner rest} : Comment inner → Remainder rest → Remainder (inner ++ rest)

end

theorem marksNone_iff {c : Char} {rest : List Char} :
    MarksNone c rest ↔ ¬MarkAhead (c :: rest) := by
  have hpair (d e : Char) : [d, e] <+: c :: rest ↔ ∃ r, c = d ∧ rest = e :: r := by
    rw [List.cons_prefix_cons]
    constructor
    · rintro ⟨rfl, r, rfl⟩
      exact ⟨r, rfl, rfl⟩
    · rintro ⟨r, rfl, rfl⟩
      exact ⟨rfl, r, rfl⟩
  rw [MarkAhead, hpair, hpair, not_or, not_exists, not_exists, MarksNone, and_comm]
  simp only [not_and, imp_false]

/-- The closing mark belongs to it. -/
theorem Remainder.star_mem : ∀ {text}, Remainder text → '*' ∈ text
  | _, .closing => List.mem_cons_self
  | _, .character _ hrest => List.mem_cons_of_mem _ hrest.star_mem
  | _, .comment _ hrest => List.mem_append_right _ hrest.star_mem

/-- Whether a mark starts at a character is decided within the comment. -/
theorem Remainder.marksNone_append {c : Char} {rest : List Char} (hrest : Remainder rest)
    (h : ¬MarkAhead (c :: rest)) (s : List Char) : MarksNone c (rest ++ s) := by
  refine (marksNone_iff.mpr h).of_head fun d r happend => ?_
  obtain ⟨e, t, rfl⟩ := List.exists_cons_of_ne_nil (List.ne_nil_of_mem hrest.star_mem)
  cases happend
  exact ⟨t, rfl⟩

/-! ### Counting finds the end of a comment -/

mutual

/-- Behind a comment as many comments are open as in front of it. -/
theorem Comment.length_eq {depth length : Nat} {s : List Char} :
    ∀ {text}, Comment text → commentLength (depth + 1) length (text ++ s) =
      commentLength (depth + 1) (length + text.length) s
  | _, .opening hrest => by
    rw [List.cons_append, List.cons_append, commentLength, hrest.length_eq]
    simp only [List.length_cons]
    congr 1
    omega

/-- Behind the closing mark one comment less is open. -/
theorem Remainder.length_eq {depth length : Nat} {s : List Char} :
    ∀ {text}, Remainder text → commentLength (depth + 1) length (text ++ s) =
      commentLength depth (length + text.length) s
  | _, .closing => by rw [List.cons_append, List.singleton_append, commentLength]; rfl
  | _, .character hnone hrest => by
    rw [List.cons_append, commentLength_cons (hrest.marksNone_append hnone s), hrest.length_eq]
    simp only [List.length_cons]
    congr 1
    omega
  | _, .comment hinner hrest => by
    rw [List.append_assoc, hinner.length_eq, hrest.length_eq, List.length_append, Nat.add_assoc]

end

/-- Where the count goes down, what belongs to the innermost opening mark is read. -/
theorem exists_remainder {depth : Nat} {s : List Char} (h : commentDepth (depth + 1) s = 0) :
    ∃ text rest, Remainder text ∧ s = text ++ rest ∧ commentDepth depth rest = 0 := by
  -- A nested comment is followed by the rest of the outer one, so the induction is on the length.
  induction hlen : s.length using Nat.strong_induction_on generalizing depth s with
  | _ len ih =>
    subst hlen
    have hshort {s' : List Char} {d : Nat} (hs : s'.length < s.length)
        (h : commentDepth (d + 1) s' = 0) := ih _ hs h rfl
    by_cases hmark : MarkAhead s
    · obtain ⟨s, rfl⟩ | ⟨s, rfl⟩ := hmark
      · have h : commentDepth (depth + 2) s = 0 := h
        simp only [List.length_append, List.length_cons] at hshort
        obtain ⟨inner, rest, hinner, rfl, hrest⟩ := hshort (by omega) h
        rw [List.length_append] at hshort
        obtain ⟨text, rest, htext, rfl, hend⟩ := hshort (by omega) hrest
        exact ⟨_, rest, .comment (.opening hinner) htext, by simp, hend⟩
      · exact ⟨_, s, .closing, rfl, h⟩
    · cases s with
      | nil => cases h
      | cons c s =>
        rw [commentDepth_cons (marksNone_iff.mpr hmark)] at h
        obtain ⟨text, rest, htext, rfl, hend⟩ := hshort (by simp) h
        refine ⟨c :: text, rest, .character (fun hahead => hmark ?_) htext, rfl, hend⟩
        exact hahead.imp (·.trans (List.prefix_append _ _)) (·.trans (List.prefix_append _ _))

/-- A comment is cut off as a whole, whatever follows it. -/
theorem pieces_comment {text : List Char} (h : Comment text) (s : List Char) :
    pieces (text ++ s) = .blockComment text :: pieces s := by
  cases h with
  | @opening rest hrest =>
    have hlength : commentLength 1 0 (rest ++ s) = rest.length := by
      rw [hrest.length_eq, commentLength, Nat.zero_add]
    have hcut : cut '/' ('*' :: (rest ++ s)) = (.blockComment ('/' :: '*' :: rest), s) := by
      show (Piece.blockComment ('/' :: '*' :: (rest ++ s).take (commentLength 1 0 (rest ++ s))),
        (rest ++ s).drop (commentLength 1 0 (rest ++ s))) = _
      rw [hlength, List.take_left, List.drop_left]
    rw [List.cons_append, List.cons_append, pieces_cons, hcut]

/-- A text that starts like a comment, and with no comment, is an open comment. -/
theorem pieces_openComment {s : List Char} (hopening : ['/', '*'] <+: s)
    (hnone : ∀ text, Comment text → ¬text <+: s) : pieces s = [.blockComment s] := by
  obtain ⟨s, rfl⟩ := hopening
  have hopen : commentDepth 1 s ≠ 0 := by
    intro h
    obtain ⟨text, rest, htext, rfl, -⟩ := exists_remainder h
    exact hnone _ (.opening htext) ⟨rest, rfl⟩
  rw [List.cons_append, List.singleton_append, pieces_cons, cut_openComment hopen, pieces_nil]

/-- A comment in front of a text moves the items of the text down. -/
theorem stream_comment {comment : String} (h : Comment comment.toList) (text : String) :
    stream (comment ++ text) = (stream text).map (Item.down (newlines comment.toList)) := by
  have hmark : endMark (comment ++ text) = (endMark text).down (newlines comment.toList) := by
    rw [endMark, String.toList_append, newlines_append, endMark, Token.down, Nat.add_assoc,
      Nat.add_comm (newlines text.toList)]
  rw [stream, items, String.toList_append, pieces_comment h, itemsFrom, item?, hmark,
    itemsFrom_down, stream, List.map_append, items]
  rfl

theorem stream_openComment {text : String} (hopening : ['/', '*'] <+: text.toList)
    (hnone : ∀ comment, Comment comment → ¬comment <+: text.toList) :
    stream text = [.token ⟨.eof, "", 1 + newlines text.toList⟩] := by
  rw [stream, items, pieces_openComment hopening hnone]
  rfl

/-- Asked again and again, the scanner yields the stream. -/
theorem Scanner.answer_start (source : String) (n : Nat) :
    (start source).answer n = (stream source)[n]? :=
  answer_eq 1 source.toList n

/-- A block comment, however nested, is one unit. In front of a text it moves what the scanner yields
of the text, the end mark included, down by the newlines in it, and adds nothing. Of a text that
starts with an opening mark and with no comment the scanner yields no token and no fault, only the end
mark behind all its newlines. -/
theorem block_comments_are_units :
    (∀ comment text : String, Comment comment.toList → ∀ n,
      (Scanner.start (comment ++ text)).answer n =
        ((Scanner.start text).answer n).map (Item.down (newlines comment.toList))) ∧
    ∀ text : String, ['/', '*'] <+: text.toList →
      (∀ comment, Comment comment → ¬comment <+: text.toList) → ∀ n,
      (Scanner.start text).answer n = [.token ⟨.eof, "", 1 + newlines text.toList⟩][n]? := by
  constructor
  · intro comment text h n
    rw [Scanner.answer_start, stream_comment h, List.getElem?_map, Scanner.answer_start]
  · intro text hopening hnone n
    rw [Scanner.answer_start, stream_openComment hopening hnone]

theorem block_comments_are_units_nested :
    (Scanner.start ("/* a\n/**/ b */" ++ "x")).answer 0 = some (.token ⟨.identifier, "x", 2⟩) ∧
      (Scanner.start "/*/\n").answer 0 = some (.token ⟨.eof, "", 2⟩) := by
  constructor
  · have hnone (c d : Char) (s : List Char) (h : c ≠ '/' ∧ c ≠ '*') : ¬MarkAhead (c :: d :: s) := by
      rintro (hpre | hpre)
      · exact h.1 (List.cons_prefix_cons.mp hpre).1.symm
      · exact h.2 (List.cons_prefix_cons.mp hpre).1.symm
    have hcomment : Comment "/* a\n/**/ b */".toList :=
      .opening (.character (hnone _ _ _ (by decide)) (.character (hnone _ _ _ (by decide))
        (.character (hnone _ _ _ (by decide)) (.comment (.opening .closing)
          (.character (hnone _ _ _ (by decide)) (.character (hnone _ _ _ (by decide))
            (.character (hnone _ _ _ (by decide)) .closing)))))))
    exact (block_comments_are_units.1 _ "x" hcomment 0).trans (by cbv)
  · refine (block_comments_are_units.2 _ ⟨['/', '\n'], rfl⟩ (fun comment h hpre => ?_) 0).trans (by cbv)
    cases h with
    | @opening rest hrest =>
      have htail : rest <+: ['/', '\n'] := by simpa using hpre
      exact absurd (htail.subset hrest.star_mem) (by decide)

end Source

end Treewalk
