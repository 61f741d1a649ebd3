import Treewalk.Proofs.Source.Lines
import Treewalk.Proofs.Source.Watch

/-! What a caret shows on its way. It does under watch what it does alone, never leaves the text, begins
every piece between two characters, gets on with every piece, and reads as numbers only what is one. -/

namespace Treewalk.Source

namespace Caret

/-- The caret is in this text: not in front of the piece under way, and not past the end. -/
structure Within (c : Caret) (whole : List Char) : Prop where
  text : c.text = whole
  start : c.start ≤ c.curr
  curr : c.curr ≤ (bytes whole).length

variable {c : Caret} {whole before rest s u t : List Char} {x b : Char}

theorem Within.src (h : c.Within whole) : c.src = bytes whole := by rw [Caret.src, h.text]

/-- The caret goes past what is ahead of it. -/
theorem Within.passed (h : c.Within whole) (hu : c.ahead = u ++ t) : (c.passed u).Within whole where
  text := h.text
  start := Nat.le_trans h.start (Nat.le_add_right _ _)
  curr := by
    have hlength := congrArg List.length hu
    have hcurr := h.curr
    rw [Caret.ahead, h.src, List.length_drop, List.length_append] at hlength
    show c.curr + u.length ≤ _
    omega

theorem Within.step (h : c.Within whole) (hb : c.ahead = b :: t) :
    Within { c with curr := c.curr + 1 } whole :=
  ⟨h.text, (h.passed (u := [b]) hb).start, (h.passed (u := [b]) hb).curr⟩

theorem Within.takeWhile (h : c.Within whole) (p : Char → Bool) :
    (c.passed (c.ahead.takeWhile p)).Within whole :=
  h.passed List.takeWhile_append_dropWhile.symm

theorem Within.emit (h : c.Within whole) (kind : Kind) :
    Within { c with pending := some kind } whole := ⟨h.text, h.start, h.curr⟩

/-- To look at a text does not change the caret. -/
theorem eq_of_textBetween {c' : Caret} {n m : Nat} (h : textBetween n m c = .ok s c') : c' = c := by
  rw [textBetween, bind_of_ok get_apply] at h
  cases hslice : slice c.text n m with
  | none =>
    rw [hslice] at h
    cases h
  | some part =>
    rw [hslice] at h
    cases h
    rfl

theorem eq_of_bytesBetween {c' : Caret} {n m : Nat} (h : bytesBetween n m c = .ok s c') : c' = c := by
  rw [bytesBetween, bind_of_ok get_apply] at h
  split at h <;> cases h
  rfl

end Caret

/-- What may be seen of a caret in a text. -/
def Sight.Legal (whole : List Char) : Sight → Prop
  | .state c => c.Within whole
  | .piece before after =>
    Boundary whole before.start ∧ Boundary whole before.curr ∧ before.curr < after.curr
  | .number digits => NumberShaped digits ∧ (Caret.numberOf? digits).isSome

theorem numberShaped_of_lexeme {x : Float} {text : List Char} (h : Lexeme (.number x) text) :
    NumberShaped text := by
  cases h with
  | whole hdigits => exact .inl hdigits
  | fraction hdigits hbehind => exact .inr ⟨_, _, hdigits, hbehind, rfl⟩

namespace Watch

/-- What was done by a caret alone, seen with a log. -/
def seen {α : Type} (log : List Sight) : EStateM.Result Caret.Stop Caret α →
    EStateM.Result Caret.Stop Watch α
  | .ok a c => .ok a ⟨c, log⟩
  | .error stop c => .error stop ⟨c, log⟩

/-- From `c` on, `w` does under watch what `m` does alone, and shows nothing that may not be seen. -/
def Shows {α : Type} (whole : List Char) (w : Move α) (m : Caret.Move α) (c : Caret) : Prop :=
  ∀ log, ∃ shown, (∀ sight ∈ shown, sight.Legal whole) ∧ w ⟨c, log⟩ = seen (log ++ shown) (m c)

section
variable {α β : Type} {whole : List Char} {w : Move α} {m : Caret.Move α} {k : α → Move β}
  {l : α → Caret.Move β} {c c' : Caret} {a : α}

/-! ### Sequences -/

theorem shows_pure (a : α) : Shows whole (pure a) (pure a) c :=
  fun log => ⟨[], List.forall_mem_nil _, by rw [List.append_nil]; rfl⟩

theorem shows_throw (stop : Caret.Stop) :
    Shows whole (throw stop : Move α) (throw stop) c :=
  fun log => ⟨[], List.forall_mem_nil _, by rw [List.append_nil]; rfl⟩

theorem shows_unseen (m : Caret.Move α) : Shows whole (unseen m) m c := by
  refine fun log => ⟨[], List.forall_mem_nil _, ?_⟩
  rw [List.append_nil, unseen]
  cases m c <;> rfl

theorem Shows.bind (h : Shows whole w m c)
    (hk : ∀ a c', m c = .ok a c' → Shows whole (k a) (l a) c') :
    Shows whole (w >>= k) (m >>= l) c := by
  intro log
  obtain ⟨shown, hlegal, hw⟩ := h log
  cases hm : m c with
  | error stop c' =>
    rw [hm] at hw
    exact ⟨shown, hlegal, by rw [bind_of_error hw, bind_of_error hm]; rfl⟩
  | ok a c' =>
    rw [hm] at hw
    obtain ⟨later, hlater, hrun⟩ := hk a c' hm (log ++ shown)
    refine ⟨shown ++ later, fun sight hsight => ?_, ?_⟩
    · exact (List.mem_append.mp hsight).elim (hlegal sight) (hlater sight)
    · rw [bind_of_ok hw, bind_of_ok hm, hrun, List.append_assoc]

/-- Where it is known how the first part ends, the second part starts from there. -/
theorem Shows.bind_ok (h : Shows whole w m c) (hm : m c = .ok a c') (hk : Shows whole (k a) (l a) c') :
    Shows whole (w >>= k) (m >>= l) c :=
  h.bind fun a' c'' hm' => by
    cases hm.symm.trans hm'
    exact hk

theorem Shows.here {k : Caret → Move β} {l : Caret → Caret.Move β} (h : Shows whole (k c) (l c) c) :
    Shows whole (here >>= k) (get >>= l) c := h

theorem Shows.note {sight : Sight} (hsight : sight.Legal whole) (h : Shows whole w m c) :
    Shows whole (note sight >>= fun _ => w) m c := by
  intro log
  obtain ⟨shown, hlegal, hw⟩ := h (log ++ [sight])
  refine ⟨sight :: shown, List.forall_mem_cons.mpr ⟨hsight, hlegal⟩, ?_⟩
  rw [List.append_assoc, List.singleton_append] at hw
  exact hw

/-- A state in the text may be seen. -/
theorem shows_see (h : ∀ a c', m c = .ok a c' → c'.Within whole) : Shows whole (see m) m c := by
  intro log
  rw [see]
  cases hm : m c with
  | error stop c' =>
    refine ⟨[], List.forall_mem_nil _, ?_⟩
    have hunseen : unseen m ⟨c, log⟩ = .error stop ⟨c', log⟩ := by rw [unseen, hm]
    rw [bind_of_error hunseen, List.append_nil]
    rfl
  | ok a c' =>
    refine ⟨[.state c'], List.forall_mem_singleton.mpr (h a c' hm), ?_⟩
    have hunseen : unseen m ⟨c, log⟩ = .ok a ⟨c', log⟩ := by rw [unseen, hm]
    rw [bind_of_ok hunseen]
    rfl

theorem Shows.see_ok (hm : m c = .ok a c') (hc : c'.Within whole)
    (hk : Shows whole (k a) (l a) c') : Shows whole (see m >>= k) (m >>= l) c := by
  refine (shows_see fun a' c'' hm' => ?_).bind_ok hm hk
  cases hm.symm.trans hm'
  exact hc

end

section
variable {whole before s t u : List Char} {c : Caret} {x b : Char} {p : Char → Bool}

/-! ### Loops -/

theorem shows_passWhile (hnul : p '\x00' = false) (n : Nat) (hc : c.Within whole) :
    Shows whole (passWhile p n) (Caret.passWhile p n) c := by
  induction n generalizing c with
  | zero => exact shows_throw _
  | succ n ih =>
    refine .see_ok Caret.peek_apply hc ?_
    cases hahead : c.ahead with
    | nil =>
      rw [List.headD_nil, hnul]
      exact shows_pure _
    | cons b t =>
      rw [List.headD_cons]
      cases p b with
      | false => exact shows_pure _
      | true => exact .see_ok (Caret.advance_apply hahead) (hc.step hahead) (ih (hc.step hahead))

theorem shows_passQuoted (n : Nat) (hc : c.Within whole) :
    Shows whole (passQuoted n) (Caret.passQuoted n) c := by
  induction n generalizing c with
  | zero => exact shows_throw _
  | succ n ih =>
    refine .see_ok Caret.atEnd_apply hc ?_
    cases hahead : c.ahead with
    | nil => exact shows_pure _
    | cons b t =>
      refine .see_ok Caret.peek_apply hc ?_
      rw [hahead, List.headD_cons]
      by_cases hb : b = '"'
      · rw [if_pos hb, if_pos hb]
        exact shows_pure _
      · rw [if_neg hb, if_neg hb]
        have hstep := hc.step hahead
        refine .see_ok (Caret.advance_apply hahead) hstep ?_
        by_cases hnewline : b = '\n'
        · rw [if_pos hnewline, if_pos hnewline]
          exact .see_ok rfl ⟨hstep.text, hstep.start, hstep.curr⟩
            (ih ⟨hstep.text, hstep.start, hstep.curr⟩)
        · rw [if_neg hnewline, if_neg hnewline]
          exact ih hstep

theorem shows_passComment (n depth : Nat) (hc : c.Within whole) :
    Shows whole (passComment n depth) (Caret.passComment n depth) c := by
  induction n generalizing c depth with
  | zero => exact shows_throw _
  | succ n ih =>
    obtain _ | depth := depth
    · exact shows_pure _
    refine .see_ok Caret.atEnd_apply hc ?_
    cases hahead : c.ahead with
    | nil => exact shows_pure _
    | cons b t =>
      refine .see_ok Caret.peek_apply hc (.see_ok Caret.peekNext_apply hc ?_)
      rw [hahead, List.headD_cons, List.tail_cons]
      have hstep := hc.step hahead
      -- A mark is two bytes: behind the end there is none.
      have htwo {d : Char} (hd : d ≠ '\x00') (hnext : t.headD '\x00' = d) :
          Caret.Within { c with curr := c.curr + 2 } whole := by
        cases t with
        | nil => exact absurd hnext.symm hd
        | cons d t =>
          have hpassed := hc.passed (u := [b, d]) hahead
          exact ⟨hc.text, hpassed.start, hpassed.curr⟩
      by_cases hclose : b = '*' ∧ t.headD '\x00' = '/'
      · rw [if_pos hclose, if_pos hclose]
        have hmark := htwo (by decide) hclose.2
        exact .see_ok rfl hmark (ih depth hmark)
      by_cases hopen : b = '/' ∧ t.headD '\x00' = '*'
      · rw [if_neg hclose, if_neg hclose, if_pos hopen, if_pos hopen]
        have hmark := htwo (by decide) hopen.2
        exact .see_ok rfl hmark (ih (depth + 2) hmark)
      rw [if_neg hclose, if_neg hclose, if_neg hopen, if_neg hopen]
      by_cases hnewline : b = '\n'
      · rw [if_pos hnewline, if_pos hnewline]
        exact .see_ok rfl ⟨hc.text, hc.start, hc.curr⟩
          (.see_ok rfl ⟨hstep.text, hstep.start, hstep.curr⟩
            (ih (depth + 1) ⟨hstep.text, hstep.start, hstep.curr⟩))
      · rw [if_neg hnewline, if_neg hnewline]
        exact .see_ok rfl hstep (ih (depth + 1) hstep)

/-! ### Pieces -/

theorem shows_textBetween (hc : c.Within whole) (n m : Nat) :
    Shows whole (see (Caret.textBetween n m)) (Caret.textBetween n m) c :=
  shows_see fun _ _ h => Caret.eq_of_textBetween h ▸ hc

theorem shows_emit (hc : c.Within whole) (kind : Kind) :
    Shows whole (see (Caret.emit kind)) (Caret.emit kind) c := by
  refine shows_see fun a c' h => ?_
  cases h
  exact hc.emit kind

theorem shows_string (hc : c.Within whole) : Shows whole string Caret.string c := by
  refine .bind_ok (shows_unseen _) Caret.steps_apply
    (.bind_ok (shows_passQuoted _ hc) (Caret.passQuoted_apply (Caret.length_ahead_lt _)) ?_)
  have hbehind := hc.takeWhile (· != '"')
  generalize c.passed (c.ahead.takeWhile (· != '"')) = c at hbehind
  refine .see_ok Caret.atEnd_apply hbehind ?_
  cases hahead : c.ahead with
  | nil => exact .here (shows_pure _)
  | cons b t =>
    have hstep := hbehind.step hahead
    refine .see_ok (Caret.advance_apply hahead) hstep (.here ?_)
    refine (shows_textBetween hstep _ _).bind fun contents c' h => ?_
    cases Caret.eq_of_textBetween h
    exact .see_ok rfl (hstep.emit _) (shows_pure _)

theorem shows_word (hc : c.Within whole) : Shows whole word Caret.word c := by
  refine .bind_ok (shows_unseen _) Caret.steps_apply
    (.bind_ok (shows_passWhile rfl _ hc) (Caret.passWhile_apply rfl rfl (Caret.length_ahead_lt _)) ?_)
  have hbehind := hc.takeWhile isWordPart
  refine .here ?_
  refine (shows_see fun _ _ h => Caret.eq_of_bytesBetween h ▸ hbehind).bind fun letters c' h => ?_
  cases Caret.eq_of_bytesBetween h
  exact shows_emit hbehind _

theorem shows_fraction (hc : c.Within whole) : Shows whole fraction Caret.fraction c := by
  refine .see_ok Caret.peek_apply hc (.see_ok Caret.peekNext_apply hc ?_)
  cases hahead : c.ahead with
  | nil => exact shows_pure _
  | cons b t =>
    split
    · have hstep := hc.step hahead
      exact .see_ok (Caret.advance_apply hahead) hstep
        (.bind_ok (shows_unseen _) Caret.steps_apply (shows_passWhile rfl _ hstep))
    · exact shows_pure _

/-- What is read as a number is a number, and it is read as one. -/
theorem legal_number (hx : isDigit x = true) (s : List Char) :
    (Sight.number (numberSpan (x :: s)).1).Legal whole := by
  refine ⟨numberShaped_of_lexeme (lexeme_numberSpan s hx), ?_⟩
  rw [Caret.numberOf?_numberSpan hx]
  rfl

theorem shows_number (h : c.At before (x :: s)) (hstart : c.start = c.curr) (hx : isDigit x = true)
    (hc : c.Within whole) : Shows whole number Caret.number (c.passed [x]) := by
  have hahead := h.ahead
  rw [bytes_cons_of_ascii (ascii_of_isDigit hx)] at hahead
  have hfirst : (c.passed [x]).Within whole := hc.passed (u := [x]) hahead
  obtain ⟨c', hdigits, hfraction⟩ := Caret.digits_apply h hx
  have htext := Caret.numberText_apply h hstart
  have hmiddle : c'.Within whole := by
    have hloop := Caret.passWhile_apply (c := c.passed [x]) (p := isDigit) rfl rfl
      (Caret.length_ahead_lt _)
    cases hdigits.symm.trans hloop
    exact hfirst.takeWhile isDigit
  have hbehind : (c.passed (bytes (numberSpan (x :: s)).1)).Within whole := by
    refine hc.passed (t := bytes (numberSpan (x :: s)).2) ?_
    rw [← bytes_append, numberSpan_append, h.ahead]
  refine .bind_ok (shows_unseen _) Caret.steps_apply
    (.bind_ok (shows_passWhile rfl _ hfirst) hdigits
      (.bind_ok (shows_fraction hmiddle) hfraction (.here ?_)))
  exact .see_ok htext hbehind (.note (legal_number hx s) (shows_emit hbehind _))

/-- A whole character of the text is passed. -/
theorem shows_unexpected (hc : c.Within whole) (hstart : c.start < c.curr) :
    Shows whole (see Caret.unexpected) Caret.unexpected c := by
  refine shows_see fun a c' h => ?_
  rw [Caret.unexpected, bind_of_ok get_apply, Caret.textFrom] at h
  cases hdrop : dropBytes c.text c.start with
  | none =>
    rw [bind_of_error (e := Caret.Stop.inside) (t := c)] at h
    · cases h
    · rw [bind_of_ok get_apply, hdrop]
      rfl
  | some rest =>
    rw [bind_of_ok (a := rest) (t := c)] at h
    · cases h
      obtain ⟨before, htext, hplace⟩ := dropBytes_eq_some hdrop
      have hlength := hc.curr
      rw [← hc.text, htext, bytes_append, List.length_append] at hlength
      obtain ⟨y, rest, rfl⟩ : ∃ y t, rest = y :: t := by
        refine List.exists_cons_of_ne_nil ?_
        rintro rfl
        rw [bytes_nil, List.length_nil] at hlength
        omega
      refine ⟨hc.text, Nat.le_add_right _ _, ?_⟩
      show c.start + y.utf8Size ≤ _
      rw [← hc.text, htext, bytes_append, List.length_append, bytes_cons, List.length_append,
        length_encoded]
      omega
    · rw [bind_of_ok get_apply, hdrop]
      rfl

theorem shows_lineComment (hc : c.Within whole) :
    Shows whole (see Caret.lineComment) Caret.lineComment c := by
  have hcurr : c.curr ≤ c.src.length := by
    rw [hc.src]
    exact hc.curr
  refine shows_see fun a c' h => ?_
  rw [Caret.lineComment, bind_of_ok get_apply,
    bind_of_ok (Caret.bytesBetween_apply hcurr (Nat.le_refl _)), ← List.length_drop,
    List.take_length] at h
  cases hfind : (c.src.drop c.curr).findIdx? (· == '\n') with
  | none =>
    rw [hfind] at h
    cases h
    exact ⟨hc.text, Nat.le_trans hc.start hcurr, Nat.le_of_eq (congrArg List.length hc.src)⟩
  | some n =>
    rw [hfind] at h
    cases h
    have hn := (List.findIdx?_eq_some_iff_getElem.mp hfind).1
    rw [List.length_drop, hc.src] at hn
    exact ⟨hc.text, Nat.le_trans hc.start (Nat.le_add_right _ _), by show c.curr + n ≤ _; omega⟩

theorem within_of_matchByte {c' : Caret} {found : Bool} (hc : c.Within whole) (hb : b ≠ '\n')
    (h : Caret.matchByte b c = .ok found c') : c'.Within whole := by
  by_cases hhead : c.ahead.head? = some b
  · obtain ⟨t, ht⟩ := List.head?_eq_some_iff.mp hhead
    rw [Caret.matchByte_of_eq ht hb] at h
    cases h
    exact hc.passed (u := [b]) ht
  · rw [Caret.matchByte_of_ne hhead] at h
    cases h
    exact hc

theorem Shows.matchByte {β : Type} {k : Bool → Move β} {l : Bool → Caret.Move β}
    (hc : c.Within whole) (hb : b ≠ '\n')
    (hk : ∀ found c', c'.Within whole → Shows whole (k found) (l found) c') :
    Shows whole (see (Caret.matchByte b) >>= k) (Caret.matchByte b >>= l) c :=
  (shows_see fun _ _ h => within_of_matchByte hc hb h).bind fun found c' h =>
    hk found c' (within_of_matchByte hc hb h)

theorem shows_scanToken (h : c.At before (x :: s)) (hstart : c.start = c.curr)
    (hc : c.Within whole) : Shows whole scanToken Caret.scanToken c := by
  obtain ⟨b, t, hencoded⟩ := exists_encoded x
  have hmem : b ∈ encoded x := by
    rw [hencoded]
    exact List.mem_cons_self
  have hahead := h.ahead
  rw [bytes_cons, hencoded, List.cons_append] at hahead
  by_cases hnewline : b = '\n'
  · subst hnewline
    have hstep := hc.step hahead
    exact .see_ok (Caret.advance_apply hahead) hstep
      (.see_ok rfl ⟨hstep.text, hstep.start, hstep.curr⟩ (shows_pure _))
  have hfirst : (c.passed [b]).Within whole := hc.passed (u := [b]) hahead
  refine .see_ok (Caret.advance_passed hahead hnewline) hfirst ?_
  by_cases hblank : b = ' ' ∨ b = '\r' ∨ b = '\t'
  · rw [if_pos hblank, if_pos hblank]
    exact shows_pure _
  rw [if_neg hblank, if_neg hblank, if_neg hnewline, if_neg hnewline]
  by_cases hslash : b = '/'
  · rw [if_pos hslash, if_pos hslash]
    refine .matchByte hfirst (by decide) fun line c' hline => ?_
    cases line with
    | true => exact (shows_lineComment hline).bind fun _ _ _ => shows_pure _
    | false =>
      refine .matchByte hline (by decide) fun block c'' hblock => ?_
      cases block with
      | true =>
        exact .bind_ok (shows_unseen _) Caret.steps_apply
          ((shows_passComment _ _ hblock).bind fun _ _ _ => shows_pure _)
      | false => exact .see_ok rfl (hblock.emit _) (shows_pure _)
  rw [if_neg hslash, if_neg hslash]
  by_cases hquote : b = '"'
  · rw [if_pos hquote, if_pos hquote]
    exact shows_string hfirst
  rw [if_neg hquote, if_neg hquote]
  by_cases hdigit : isDigit b
  · rw [if_pos hdigit, if_pos hdigit]
    have hx : isDigit x = true := (uniform_isDigit.of_mem hmem).symm.trans hdigit
    rw [encoded_of_ascii (ascii_of_isDigit hx)] at hencoded
    cases hencoded
    exact (shows_number h hstart hx hc).bind fun _ _ _ => shows_pure _
  rw [if_neg hdigit, if_neg hdigit]
  by_cases hword : isWordStart b
  · rw [if_pos hword, if_pos hword]
    exact (shows_word hfirst).bind fun _ _ _ => shows_pure _
  rw [if_neg hword, if_neg hword]
  have hbehind : (c.passed [b]).start < (c.passed [b]).curr := Nat.lt_succ_of_le (Nat.le_of_eq hstart)
  cases Punct.ofPair? b '=' with
  | none =>
    cases Punct.ofChar? b with
    | none => exact shows_unexpected hfirst hbehind
    | some short => exact .see_ok rfl (hfirst.emit _) (shows_pure _)
  | some long =>
    cases Punct.ofChar? b with
    | none => exact shows_unexpected hfirst hbehind
    | some short =>
      exact .matchByte hfirst (by decide) fun _ _ hlonger =>
        .see_ok rfl (hlonger.emit _) (shows_pure _)

/-! ### Calls -/

/-- A piece begins between two characters, and the caret gets on with it. -/
theorem shows_scan (h : c.At before (x :: s)) (hstart : c.start = c.curr) (hpending : c.pending = none)
    (hc : c.Within whole) : Shows whole scan Caret.scanToken c := by
  intro log
  obtain ⟨shown, hlegal, hrun⟩ := shows_scanToken h hstart hc log
  have hscan : Caret.scanToken c = _ := Caret.scans_cut h hstart hpending
  rw [hscan] at hrun ⊢
  have hplace : Boundary whole c.curr := ⟨before, x :: s, hc.text.symm.trans h.text, h.curr⟩
  have hgrows : c.curr < (c.passed (bytes (cut x s).1.text)).curr := by
    refine Nat.lt_add_of_pos_right (Nat.lt_of_lt_of_le ?_ (length_le_bytes _))
    exact List.length_pos_iff.mpr (cut_text_ne_nil x s)
  let after : Caret := { c.passed (bytes (cut x s).1.text) with pending := Caret.kindOf (cut x s).1 }
  refine ⟨shown ++ [.piece c after], fun sight hsight => ?_, ?_⟩
  · obtain hsight | hsight := List.mem_append.mp hsight
    · exact hlegal sight hsight
    · rw [List.mem_singleton.mp hsight]
      exact ⟨by rwa [hstart], hplace, hgrows⟩
  · have hhere : here ⟨c, log⟩ = .ok c ⟨c, log⟩ := rfl
    rw [← List.append_assoc]
    exact (bind_of_ok hhere).trans (bind_of_ok hrun)

theorem shows_nextWithin (n : Nat) (h : c.At before s) (hc : c.Within whole) :
    Shows whole (nextWithin n) (Caret.nextWithin n) c := by
  induction n generalizing c before s with
  | zero => exact shows_throw _
  | succ n ih =>
    have hlength := h.length_src
    refine .here ?_
    cases s with
    | nil =>
      have hend : c.curr = c.src.length := hlength.symm
      have hnot : ¬c.src.length < c.curr := Nat.not_lt_of_le (Nat.le_of_eq hend)
      rw [if_neg hnot, if_neg hnot, if_pos hend, if_pos hend]
      exact (shows_unseen _).bind fun _ _ _ => shows_pure _
    | cons x s =>
      have hpos : 0 < (bytes (x :: s)).length := by
        rw [bytes_cons, List.length_append, length_encoded]
        exact Nat.add_pos_left x.utf8Size_pos _
      have hnot : ¬c.src.length < c.curr := by omega
      have hne : c.curr ≠ c.src.length := by omega
      rw [if_neg hnot, if_neg hnot, if_neg hne, if_neg hne]
      have hready : c.ready.Within whole := ⟨hc.text, Nat.le_refl _, hc.curr⟩
      have hbehind := h.behind
      have hwithin : (c.ready.passed (bytes (cut x s).1.text)).Within whole := by
        refine hready.passed (t := bytes (cut x s).2) ?_
        rw [← bytes_append, cut_append, h.ready.ahead]
      refine .see_ok rfl hready (.bind_ok (shows_scan h.ready rfl rfl hready)
        (Caret.scans_cut h.ready rfl rfl) ?_)
      generalize (cut x s).1 = p at hbehind hwithin ⊢
      cases p with
      | blank | lineComment | blockComment => exact .here (ih hbehind hwithin)
      | unexpected | unterminated => exact shows_pure _
      | token kind text =>
        refine .here (.see_ok rfl hwithin ?_)
        exact (shows_textBetween hwithin _ _).bind fun _ _ _ => shows_pure _

theorem shows_next {r : Scanner} (h : c.Meets r) (hc : r.ahead.isSome → c.Within whole) :
    Shows whole next Caret.next c := by
  obtain ⟨line, ahead⟩ := r
  refine .bind_ok (shows_unseen _) Caret.steps_apply ?_
  cases ahead with
  | none =>
    have hpast : c.src.length < c.curr := h
    refine .here ?_
    rw [if_pos hpast, if_pos hpast]
    exact shows_pure _
  | some s =>
    obtain ⟨⟨before, hat⟩, -⟩ := h
    exact shows_nextWithin _ hat (hc rfl)

end

end Watch

namespace Caret

variable {c : Caret} {whole : List Char}

/-- Behind an item, and not past the end, the caret is in the text. -/
theorem Bears.within {item : Item} (h : c.Bears item) (htext : c.text = whole)
    (hcurr : c.curr ≤ c.src.length) : c.Within whole := by
  cases h with
  | text hat hstart =>
    refine ⟨htext, ?_, by rwa [src, htext] at hcurr⟩
    rw [hstart, hat.curr, bytes_append, List.length_append]
    exact Nat.le_add_right _ _
  | finish hpast => exact absurd hpast (Nat.not_lt_of_le hcurr)

theorem Meets.curr_le {r : Scanner} (h : c.Meets r) (hr : r.ahead.isSome) : c.curr ≤ c.src.length := by
  obtain ⟨line, ahead⟩ := r
  cases ahead with
  | none => cases hr
  | some s =>
    obtain ⟨⟨before, hat⟩, -⟩ := h
    rw [hat.length_src]
    exact Nat.le_add_right _ _

end Caret

namespace Watch

theorem shows_answer {whole : List Char} {c : Caret} {r : Scanner} (h : c.Meets r)
    (htext : c.text = whole) (hc : r.ahead.isSome → c.Within whole) (n : Nat) :
    Shows whole (answer n) (Caret.answer n) c := by
  induction n generalizing c r with
  | zero => exact shows_next h hc
  | succ n ih =>
    obtain ⟨c', hrun, htext', hmeets, hbears⟩ := Caret.next_apply h
    have htext := htext'.trans htext
    refine .bind_ok (shows_next h hc) hrun (ih hmeets htext fun hr => ?_)
    obtain ⟨line, ahead⟩ := r
    cases ahead with
    | none => cases hr
    | some s => exact (hbears _ rfl).within htext (hmeets.curr_le hr)

end Watch

namespace Caret

variable {α : Type} {c : Caret} {n m : Nat}

/-- The caret can be asked for this, and stays as it is. -/
def Yields (m : Move α) (c : Caret) : Prop := ∃ a, m c = .ok a c

theorem not_yields_of_error {m : Move α} {stop : Stop} (h : m c = .error stop c) : ¬Yields m c := by
  rintro ⟨a, ha⟩
  cases h.symm.trans ha

theorem yields_byteAt_iff : Yields (byteAt n) c ↔ n < c.src.length := by
  rw [Yields, byteAt, bind_of_ok get_apply]
  by_cases hn : n < c.src.length
  · rw [List.getElem?_eq_getElem hn]
    exact iff_of_true ⟨_, rfl⟩ hn
  · rw [List.getElem?_eq_none (Nat.le_of_not_lt hn)]
    exact iff_of_false (not_yields_of_error rfl) hn

theorem yields_bytesBetween_iff : Yields (bytesBetween n m) c ↔ n ≤ m ∧ m ≤ c.src.length := by
  rw [Yields, bytesBetween, bind_of_ok get_apply]
  split
  · next h => exact iff_of_true ⟨_, rfl⟩ h
  · next h => exact iff_of_false (not_yields_of_error rfl) h

theorem yields_textBetween_iff :
    Yields (textBetween n m) c ↔ n ≤ m ∧ Boundary c.text n ∧ Boundary c.text m := by
  rw [Yields, textBetween, bind_of_ok get_apply, ← isSome_slice_iff]
  cases slice c.text n m with
  | none => exact iff_of_false (not_yields_of_error rfl) Bool.false_ne_true
  | some part => exact iff_of_true ⟨part, rfl⟩ rfl

theorem yields_textFrom_iff : Yields (textFrom n) c ↔ Boundary c.text n := by
  rw [Yields, textFrom, bind_of_ok get_apply, ← isSome_dropBytes_iff]
  cases dropBytes c.text n with
  | none => exact iff_of_false (not_yields_of_error rfl) Bool.false_ne_true
  | some rest => exact iff_of_true ⟨rest, rfl⟩ rfl

end Caret

/-- The scanner never asks for what is not there. A byte is read only in front of the end, bytes are taken
only in order and up to the end, and texts only between characters: where a caret is asked for anything
else, it stops, and over no text does it stop in any call. All that it shows on its way, up to the end
mark, is in the text: each state of it, each piece, and each text that it reads as a number. -/
theorem scanner_stays_in_text (source : String) :
    (∀ (c : Caret) (i j : Nat),
      (c.Yields (Caret.byteAt i) ↔ i < c.src.length) ∧
      (c.Yields (Caret.bytesBetween i j) ↔ i ≤ j ∧ j ≤ c.src.length) ∧
      (c.Yields (Caret.textBetween i j) ↔ i ≤ j ∧ Boundary c.text i ∧ Boundary c.text j) ∧
      (c.Yields (Caret.textFrom i) ↔ Boundary c.text i)) ∧
    ∀ n, ∃ w : Watch,
      Watch.answer n (.begin source) = .ok ((Scanner.start source).answer n) w ∧
      Caret.answer n (.begin source) = .ok ((Scanner.start source).answer n) w.caret ∧
      ∀ sight ∈ w.log, sight.Legal source.toList := by
  refine ⟨fun c i j => ⟨Caret.yields_byteAt_iff, Caret.yields_bytesBetween_iff,
    Caret.yields_textBetween_iff, Caret.yields_textFrom_iff⟩, fun n => ?_⟩
  have hbegin : (Caret.begin source).Within source.toList := ⟨rfl, Nat.le_refl _, Nat.zero_le _⟩
  have hmeets := Caret.meets_begin source
  obtain ⟨c', hrun, -⟩ := Caret.answer_apply hmeets n
  obtain ⟨shown, hlegal, hwatch⟩ :=
    Watch.shows_answer hmeets rfl (fun _ => hbegin) n [.state (.begin source)]
  rw [hrun] at hwatch
  exact ⟨_, hwatch, hrun, List.forall_mem_cons.mpr ⟨hbegin, hlegal⟩⟩

end Treewalk.Source
