import Treewalk.Proofs.Source.Shapes
import Treewalk.Source.Scanner

/-! A scan tiles its text. The pieces join to the text, each of them starts what is left of the text
where it begins, and no other pieces do. The scanner yields what they yield, then the end mark. -/

namespace Treewalk

namespace Source

theorem mem_blanks {c : Char} : c ∈ [' ', '\t', '\r', '\n'] ↔ isBlank c = true := by
  simp [isBlank, or_assoc]

/-! ### The piece that is cut off -/

theorem heads_cutString (s : List Char) : (cutString s).1.Heads (cutString s).2 := by
  have hsplit := List.takeWhile_append_dropWhile (p := (· != '"')) (l := s)
  have hnot : '"' ∉ s.takeWhile (· != '"') := fun h => by
    simpa using List.mem_takeWhile_imp h
  unfold cutString
  dsimp only
  cases hrest : s.dropWhile (· != '"') with
  | nil => exact .unterminated hnot
  | cons quote rest =>
    have hquote : quote = '"' := by
      have hhead := List.head?_dropWhile_not (· != '"') s
      rw [hrest] at hhead
      simpa using hhead
    subst hquote
    rw [hrest] at hsplit
    have hlexeme := Lexeme.string (String.ofList (s.takeWhile (· != '"'))) (by simpa using hnot)
    rw [String.toList_ofList] at hlexeme
    have hpre : s.takeWhile (· != '"') ++ ['"'] <+: s := ⟨rest, by simpa using hsplit⟩
    have htext : '"' :: s.takeWhile (· != '"') ++ ['"'] ++ rest = '"' :: s := by
      simpa using hsplit
    refine .token hlexeme ?_ ?_ <;> rw [htext]
    · exact longest_string hnot hpre
    · rintro (h | h) <;> cases (List.cons_prefix_cons.mp h).1

/-- A mark that starts here is the pair, or else the single character, that is looked up. -/
theorem spelling_cases {p : Punct} {c : Char} {s : List Char} (h : p.spelling <+: c :: s) :
    s.head?.bind (Punct.ofPair? c) = some p ∨ Punct.ofChar? c = some p ∧ p.spelling = [c] := by
  obtain ⟨u, hu⟩ := h
  cases p <;> cases hu <;> first | exact .inr ⟨rfl, rfl⟩ | exact .inl rfl

/-- Where no number, word or string starts, a token that starts is such a mark. -/
theorem mark_cases {c : Char} {s text : List Char} {kind : Kind} (hdigit : isDigit c = false)
    (hword : isWordStart c = false) (hquote : c ≠ '"') (h : Lexeme kind text) (hpre : text <+: c :: s) :
    ∃ p : Punct, p.spelling = text ∧
      (s.head?.bind (Punct.ofPair? c) = some p ∨ Punct.ofChar? c = some p ∧ text = [c]) := by
  obtain ⟨t, rfl, -⟩ := h.exists_cons hpre
  obtain ⟨h, -⟩ | ⟨h, -⟩ | ⟨h, -⟩ | ⟨-, p, hp⟩ := h.by_head
  · rw [hdigit] at h
    cases h
  · rw [hword] at h
    cases h
  · exact absurd h hquote
  · exact ⟨p, hp, hp ▸ spelling_cases (hp ▸ hpre)⟩

theorem heads_cutMark {c : Char} {s : List Char} (hblank : isBlank c = false)
    (hdigit : isDigit c = false) (hword : isWordStart c = false) (hquote : c ≠ '"')
    (hcomment : ¬CommentAhead (c :: s)) : (cutMark c s).1.Heads (cutMark c s).2 := by
  have happend := cutMark_append c s
  unfold cutMark at happend ⊢
  cases hpair : s.head?.bind (Punct.ofPair? c) with
  | some p =>
    rw [hpair] at happend
    refine .token (.operator p) ?_ ?_ <;> rw [show p.spelling ++ s.tail = c :: s from happend]
    · intro kind text h hpre
      obtain ⟨q, rfl, hq | ⟨-, hq⟩⟩ := mark_cases hdigit hword hquote h hpre
      · rw [hpair] at hq
        cases hq
        exact Nat.le_refl _
      · rw [hq]
        exact List.length_pos_iff.mpr (Lexeme.operator p).ne_nil
    · exact hcomment
  | none =>
    dsimp only
    cases hchar : Punct.ofChar? c with
    | some p =>
      rw [hpair] at happend
      simp only [hchar] at happend
      refine .token (.operator p) ?_ ?_ <;> rw [show p.spelling ++ s = c :: s from happend]
      · intro kind text h hpre
        obtain ⟨q, rfl, hq | ⟨hq, -⟩⟩ := mark_cases hdigit hword hquote h hpre
        · rw [hpair] at hq
          cases hq
        · rw [hchar] at hq
          cases hq
          exact Nat.le_refl _
      · exact hcomment
    | none =>
      refine .unexpected ?_ fun kind text h hpre => ?_
      · simp only [isBlank, Bool.or_eq_false_iff, beq_eq_false_iff_ne] at hblank
        simp [hblank, hquote]
      · obtain ⟨q, rfl, hq | ⟨hq, -⟩⟩ := mark_cases hdigit hword hquote h hpre
        · rw [hpair] at hq
          cases hq
        · rw [hchar] at hq
          cases hq

theorem head?_of_isPrefix {c d : Char} {s : List Char} (h : [c, d] <+: c :: s) :
    s.head? = some d := by
  obtain ⟨u, hu⟩ := h
  cases hu
  rfl

theorem not_commentAhead {c : Char} {s : List Char} (h : c ≠ '/') : ¬CommentAhead (c :: s) := by
  rintro (hpre | hpre) <;> exact h (List.cons_prefix_cons.mp hpre).1.symm

/-! ### Comments -/

theorem closes_take {s : List Char} (h : commentDepth 1 s = 0) :
    Closes (s.take (commentLength 1 0 s)) := by
  refine ⟨(commentDepth_take 1 0 s).trans h, fun body hpre hbody => ?_⟩
  obtain ⟨u, hu⟩ := hpre.trans (List.take_prefix _ s)
  have hlength : commentLength 1 0 s = commentLength 1 0 body := by
    rw [← hu, commentLength_append 1 0 body u hbody]
  have hle : commentLength 1 0 body ≤ body.length := by simpa using commentLength_le 1 0 body
  refine hpre.eq_of_length_le ((List.length_take_le _ s).trans ?_)
  rwa [hlength]

theorem heads_lineComment (s : List Char) : (cut '/' ('/' :: s)).1.Heads (cut '/' ('/' :: s)).2 := by
  show (Piece.lineComment ('/' :: '/' :: s.takeWhile (· != '\n'))).Heads (s.dropWhile (· != '\n'))
  refine .lineComment (fun h => by simpa using List.mem_takeWhile_imp h) ?_
  have hnot := List.head?_dropWhile_not (· != '\n') s
  cases hrest : s.dropWhile (· != '\n') with
  | nil => simp
  | cons d rest =>
    rw [hrest] at hnot
    simpa using hnot

theorem heads_blockComment (s : List Char) :
    (cut '/' ('*' :: s)).1.Heads (cut '/' ('*' :: s)).2 := by
  show (Piece.blockComment ('/' :: '*' :: s.take (commentLength 1 0 s))).Heads
    (s.drop (commentLength 1 0 s))
  by_cases hclosed : commentDepth 1 s = 0
  · exact .blockComment (closes_take hclosed)
  · have hlength : commentLength 1 0 s = s.length := by
      rw [commentLength_of_open hclosed, Nat.zero_add]
    rw [hlength, List.take_length, List.drop_length]
    exact .openComment hclosed

/-- What is cut off is what starts the text. -/
theorem heads_cut (c : Char) (s : List Char) : (cut c s).1.Heads (cut c s).2 := by
  by_cases hblank : isBlank c
  · rw [cut_blank hblank]
    exact .blank (mem_blanks.mpr hblank)
  by_cases hdigit : isDigit c
  · rw [cut_number hdigit]
    refine .token (lexeme_numberSpan s hdigit) ?_ ?_ <;> rw [numberSpan_append]
    · exact longest_numberSpan s hdigit
    · refine not_commentAhead ?_
      rintro rfl
      cases hdigit
  by_cases hword : isWordStart c
  · rw [cut_word hword]
    refine .token (lexeme_word s hword) ?_ ?_ <;>
      rw [List.cons_append, List.takeWhile_append_dropWhile]
    · exact longest_word s hword
    · refine not_commentAhead ?_
      rintro rfl
      cases hword
  by_cases hquote : c = '"'
  · subst hquote
    exact heads_cutString s
  rw [Bool.not_eq_true] at hblank hdigit hword
  by_cases hslash : c = '/'
  · subst hslash
    by_cases hline : s.head? = some '/'
    · obtain ⟨s, rfl⟩ := List.head?_eq_some_iff.mp hline
      exact heads_lineComment s
    by_cases hblock : s.head? = some '*'
    · obtain ⟨s, rfl⟩ := List.head?_eq_some_iff.mp hblock
      exact heads_blockComment s
    · rw [cut_slash hline hblock]
      refine heads_cutMark hblank hdigit hword hquote ?_
      rintro (hpre | hpre)
      · exact hline (head?_of_isPrefix hpre)
      · exact hblock (head?_of_isPrefix hpre)
  · have hcut : cut c s = cutMark c s := by
      simp [cut, hblank, hdigit, hword, hquote, hslash]
    rw [hcut]
    exact heads_cutMark hblank hdigit hword hquote (not_commentAhead hslash)

/-- The pieces join to the text, and each starts what is left of the text where it begins. -/
structure Tiles (ps : List Piece) (s : List Char) : Prop where
  joined : ps.flatMap Piece.text = s
  heads : ∀ before p after, ps = before ++ p :: after → p.Heads (after.flatMap Piece.text)

theorem tiles_pieces (s : List Char) : Tiles (pieces s) s := by
  refine ⟨flatMap_text_pieces s, fun before p after h => ?_⟩
  fun_induction pieces s generalizing before with
  | case1 => cases before <;> cases h
  | case2 c s ih =>
    cases before with
    | nil =>
      cases h
      rw [flatMap_text_pieces]
      exact heads_cut c s
    | cons q before => exact ih before (List.cons.inj h).2

/-! ### No other pieces -/

/-- A string that does not close starts no token. -/
theorem not_isPrefix_unterminated {body text : List Char} {kind : Kind} (hquote : '"' ∉ body)
    (h : Lexeme kind text) : ¬text <+: '"' :: body := by
  intro hpre
  obtain ⟨t, rfl, htail⟩ := h.exists_cons hpre
  obtain ⟨hdigit, -⟩ | ⟨hword, -⟩ | ⟨-, contents, -, htext⟩ | ⟨⟨-, -, hnone⟩, -⟩ := h.by_head
  · cases hdigit
  · cases hword
  · cases htext
    exact hquote (htail.subset (by simp))
  · exact absurd rfl hnone

theorem not_isPrefix_blank {c : Char} {text s : List Char} {kind : Kind} (hc : isBlank c = true)
    (h : Lexeme kind text) : ¬text <+: c :: s := by
  intro hpre
  obtain ⟨t, rfl, -⟩ := h.exists_cons hpre
  have hcut := cut_of_lexeme h
  rw [cut_blank hc] at hcut
  cases hcut

/-- Two pieces that start a text and are tokens are one. -/
theorem Longest.token_eq {kind kind' : Kind} {text text' rest rest' : List Char}
    (h : Lexeme kind text) (h' : Lexeme kind' text') (hlongest : Longest text (text ++ rest))
    (hlongest' : Longest text' (text' ++ rest')) (heq : text ++ rest = text' ++ rest') :
    kind = kind' ∧ text = text' ∧ rest = rest' := by
  have hle := hlongest kind' text' h' (by rw [heq]; exact List.prefix_append _ _)
  have hle' := hlongest' kind text h (by rw [← heq]; exact List.prefix_append _ _)
  obtain ⟨rfl, rfl⟩ := List.append_inj heq (Nat.le_antisymm hle' hle)
  exact ⟨kind_unique h h', rfl, rfl⟩

theorem cut_lineComment {body rest : List Char} (hbody : '\n' ∉ body)
    (hrest : rest.head? ∈ [none, some '\n']) :
    cut '/' ('/' :: (body ++ rest)) = (.lineComment ('/' :: '/' :: body), rest) := by
  have hstop : (first rest != '\n') = false := by
    cases rest with
    | nil => rfl
    | cons d rest => simpa [first] using hrest
  obtain ⟨htake, hdrop⟩ := span_append (forall_ne_of_not_mem hbody) hstop
  show (Piece.lineComment ('/' :: '/' :: (body ++ rest).takeWhile (· != '\n')),
    (body ++ rest).dropWhile (· != '\n')) = _
  rw [htake, hdrop]

theorem cut_blockComment {body : List Char} (hbody : Closes body) (rest : List Char) :
    cut '/' ('*' :: (body ++ rest)) = (.blockComment ('/' :: '*' :: body), rest) := by
  have htake := hbody.2 _ (List.take_prefix _ _) (closes_take hbody.1).1
  have hlength : commentLength 1 0 (body ++ rest) = body.length := by
    rw [commentLength_append 1 0 body rest hbody.1]
    have hle := congrArg List.length htake
    rw [List.length_take] at hle
    exact Nat.le_antisymm (by simpa using commentLength_le 1 0 body) (by omega)
  show (Piece.blockComment ('/' :: '*' :: (body ++ rest).take (commentLength 1 0 (body ++ rest))),
    (body ++ rest).drop (commentLength 1 0 (body ++ rest))) = _
  rw [hlength, List.take_left, List.drop_left]

theorem cut_openComment {body : List Char} (hopen : commentDepth 1 body ≠ 0) :
    cut '/' ('*' :: body) = (.blockComment ('/' :: '*' :: body), []) := by
  have hlength : commentLength 1 0 body = body.length := by
    rw [commentLength_of_open hopen, Nat.zero_add]
  show (Piece.blockComment ('/' :: '*' :: body.take (commentLength 1 0 body)),
    body.drop (commentLength 1 0 body)) = _
  rw [hlength, List.take_length, List.drop_length]

/-- A piece that starts a text is the token that starts it. -/
theorem eq_token_of_heads {p : Piece} {kind : Kind} {text rest rest' : List Char}
    (h : p.Heads rest') (hlexeme : Lexeme kind text) (hlongest : Longest text (text ++ rest))
    (hcomment : ¬CommentAhead (text ++ rest)) (heq : p.text ++ rest' = text ++ rest) :
    (p, rest') = (.token kind text, rest) := by
  have hpre : text <+: p.text ++ rest' := ⟨rest, heq.symm⟩
  cases h with
  | blank hc => exact absurd hpre (not_isPrefix_blank (mem_blanks.mp hc) hlexeme)
  | token hlexeme' hlongest' =>
    obtain ⟨rfl, rfl, rfl⟩ := Longest.token_eq hlexeme' hlexeme hlongest' hlongest heq
    rfl
  | unexpected hc hnone => exact absurd hpre (hnone _ _ hlexeme)
  | unterminated hquote =>
    rw [List.append_nil] at hpre
    exact absurd hpre (not_isPrefix_unterminated hquote hlexeme)
  | lineComment => exact absurd (.inl ⟨_, heq⟩) hcomment
  | _ => exact absurd (.inr ⟨_, heq⟩) hcomment

/-- A piece that starts a text is the unexpected character that starts it. -/
theorem eq_unexpected_of_heads {p : Piece} {d : Char} {rest rest' : List Char}
    (h : p.Heads rest') (hd : d ∉ [' ', '\t', '\r', '\n', '"'])
    (hnone : ∀ kind text, Lexeme kind text → ¬text <+: d :: rest)
    (heq : p.text ++ rest' = d :: rest) : (p, rest') = (.unexpected d, rest) := by
  cases h with
  | blank hc =>
    cases heq
    exact absurd (List.mem_append_left ['"'] hc) hd
  | unexpected =>
    cases heq
    rfl
  | token h => exact absurd ⟨_, heq⟩ (hnone _ _ h)
  | unterminated =>
    cases heq
    simp at hd
  | _ =>
    cases heq
    exact absurd ⟨_, rfl⟩ (hnone _ _ (.operator .slash))

/-- What starts a text is what is cut off. -/
theorem cut_of_heads {p : Piece} {rest s : List Char} {c : Char} (h : p.Heads rest)
    (htext : p.text ++ rest = c :: s) : cut c s = (p, rest) := by
  have hcut := heads_cut c s
  have happend := (cut_append c s).trans htext.symm
  cases h with
  | blank hc =>
    cases htext
    exact cut_blank (mem_blanks.mp hc) _
  | lineComment hbody hrest =>
    cases htext
    exact cut_lineComment hbody hrest
  | blockComment hbody =>
    cases htext
    exact cut_blockComment hbody _
  | @openComment body hopen =>
    rw [List.append_nil] at htext
    cases htext
    exact cut_openComment hopen
  | token hlexeme hlongest hcomment => exact eq_token_of_heads hcut hlexeme hlongest hcomment happend
  | unexpected hd hnone => exact eq_unexpected_of_heads hcut hd hnone happend
  | @unterminated body hquote =>
    cases htext
    have hall := forall_ne_of_not_mem hquote
    show cutString (body ++ []) = _
    rw [cutString, List.append_nil, List.takeWhile_eq_self_iff.mpr hall,
      List.dropWhile_eq_nil_iff.mpr hall]

/-- Only the pieces of a text tile it. -/
theorem Tiles.eq_pieces {ps : List Piece} {s : List Char} (h : Tiles ps s) : ps = pieces s := by
  induction ps generalizing s with
  | nil =>
    obtain rfl := h.joined
    simp
  | cons p rest ih =>
    have hp := h.heads [] p rest rfl
    have hrest := ih ⟨rfl, fun before q after heq => h.heads (p :: before) q after (by rw [heq]; rfl)⟩
    obtain ⟨c, t, htext⟩ := List.exists_cons_of_ne_nil hp.text_ne_nil
    rw [← h.joined, List.flatMap_cons, htext, List.cons_append, pieces_cons,
      cut_of_heads hp (by rw [htext]; rfl), ← hrest]

/-! ### The scanner -/

namespace Scanner

theorem answer_of_done (line n : Nat) : (⟨line, none⟩ : Scanner).answer n = none := by
  induction n with
  | zero => rfl
  | succ n ih => exact ih

/-- Scanners that yield the same next yield the same from then on. -/
theorem answer_congr {r r' : Scanner} (h : r.next = r'.next) (n : Nat) :
    r.answer n = r'.answer n := by
  cases n with
  | zero => exact congrArg Prod.fst h
  | succ n => rw [answer, h]; rfl

theorem read_cons_of_some {line : Nat} {c : Char} {s : List Char} {item : Item}
    (h : item? (line + newlines (cut c s).1.text) (cut c s).1 = some item) :
    read line (c :: s) = (item, ⟨line + newlines (cut c s).1.text, some (cut c s).2⟩) := by
  rw [read, h]

theorem read_cons_of_none {line : Nat} {c : Char} {s : List Char}
    (h : item? (line + newlines (cut c s).1.text) (cut c s).1 = none) :
    read line (c :: s) = read (line + newlines (cut c s).1.text) (cut c s).2 := by
  rw [read, h]

theorem next_of_ahead (line : Nat) (s : List Char) :
    next ⟨line, some s⟩ = (some (read line s).1, (read line s).2) := rfl

/-- The scanner yields the items of the text ahead in order, then the end mark, then nothing. -/
theorem answer_eq (line : Nat) (s : List Char) (n : Nat) :
    (⟨line, some s⟩ : Scanner).answer n =
      (itemsFrom line (pieces s) ++ [.token ⟨.eof, "", line + newlines s⟩])[n]? := by
  fun_induction pieces s generalizing line n with
  | case1 =>
    cases n with
    | zero => simp [answer, next, read, itemsFrom, newlines]
    | succ n => simp [answer, next, read, itemsFrom, answer_of_done]
  | case2 c s ih =>
    have hlines : newlines (c :: s) = newlines (cut c s).1.text + newlines (cut c s).2 := by
      rw [← newlines_append, cut_append]
    rw [itemsFrom_cons, hlines, ← Nat.add_assoc]
    cases hitem : item? (line + newlines (cut c s).1.text) (cut c s).1 with
    | some item =>
      cases n with
      | zero => simp [answer, next_of_ahead, read_cons_of_some hitem]
      | succ n =>
        rw [answer, next_of_ahead, read_cons_of_some hitem]
        exact ih _ n
    | none =>
      have hnext : next ⟨line, some (c :: s)⟩ =
          next ⟨line + newlines (cut c s).1.text, some (cut c s).2⟩ := by
        rw [next_of_ahead, next_of_ahead, read_cons_of_none hitem]
      rw [answer_congr hnext]
      exact ih _ n

end Scanner

theorem lexeme_of_mem_pieces {s text : List Char} {kind : Kind} (h : .token kind text ∈ pieces s) :
    Lexeme kind text := by
  obtain ⟨before, after, hsplit⟩ := List.append_of_mem h
  cases (tiles_pieces s).heads before _ after hsplit with
  | token hlexeme => exact hlexeme

theorem keyword_iff_of_lexeme {kind : Kind} {text : List Char} (h : Lexeme kind text) :
    (∃ k, kind = .keyword k) ↔ text ∈ Keyword.all.map (·.spelling.toList) := by
  constructor
  · rintro ⟨k, rfl⟩
    cases h
    exact List.mem_map_of_mem k.mem_all
  · intro hmem
    obtain ⟨k, -, rfl⟩ := List.mem_map.mp hmem
    exact ⟨k, kind_unique h (.reserved k)⟩

/-- The pieces of a source text are the only ones that join to it and each start what is left of it
where they begin. Asked again and again, the scanner yields the items of these pieces in order, then
the end mark, then nothing. Of the tokens among them, those spelled like a reserved word and no
others are reserved, and a string stands for what is between its quotes. -/
theorem scanner_tiles_source (source : String) :
    (∀ ps, Tiles ps source.toList ↔ ps = pieces source.toList) ∧
      (∀ n, (Scanner.start source).answer n =
        (itemsFrom 1 (pieces source.toList) ++
          [.token ⟨.eof, "", 1 + newlines source.toList⟩])[n]?) ∧
      ∀ kind text, .token kind text ∈ pieces source.toList →
        kind ≠ .eof ∧
        ((∃ k, kind = .keyword k) ↔ text ∈ Keyword.all.map (·.spelling.toList)) ∧
        ∀ contents, kind = .string contents → text = '"' :: contents.toList ++ ['"'] := by
  refine ⟨fun ps => ⟨Tiles.eq_pieces, ?_⟩, Scanner.answer_eq 1 source.toList, ?_⟩
  · rintro rfl
    exact tiles_pieces source.toList
  · intro kind text hmem
    have hlexeme := lexeme_of_mem_pieces hmem
    refine ⟨?_, keyword_iff_of_lexeme hlexeme, ?_⟩
    · rintro rfl
      cases hlexeme
    · rintro contents rfl
      cases hlexeme
      rfl

end Source

end Treewalk
