import Treewalk.Proofs.Grammar.Depth
import Treewalk.Proofs.Grammar.Tape

/-! A rule on the tape follows a rule of the parser if it does the same at the same place. The rules that
are put together from followers follow what is put together, and the tape knows how far the head is. -/

namespace Treewalk

/-- The end mark closes the tokens, and none of the tokens ahead is one. -/
structure Cursor.Ended (c : Cursor) : Prop where
  finish : c.finish.terminal = .eof
  ahead : ∀ t ∈ c.ahead, t.terminal ≠ .eof

/-- The tape on which the cursor stands behind the tokens `before`. -/
def Cursor.tape (c : Cursor) (before : List Token) : Tape :=
  ⟨before ++ (c.ahead ++ [c.finish]), before.length, c.nextId, c.faults⟩

theorem Cursor.Ended.of_append {c c₁ : Cursor} {taken : List Token} (hc : c.Ended)
    (hahead : c.ahead = taken ++ c₁.ahead) (hfinish : c₁.finish = c.finish) : c₁.Ended :=
  ⟨hfinish ▸ hc.finish, fun t ht => hc.ahead t (hahead ▸ List.mem_append_right _ ht)⟩

theorem Cursor.Ended.tail {c : Cursor} {t : Token} {rest : List Token} (hc : c.Ended)
    (hahead : c.ahead = t :: rest) : Cursor.Ended { c with ahead := rest } :=
  ⟨hc.finish, fun u hu => hc.ahead u (hahead ▸ List.mem_cons_of_mem t hu)⟩

/-- The tokens on the tape stay what they are. -/
theorem Cursor.tokens_tape {c c₁ : Cursor} {before taken : List Token}
    (hahead : c.ahead = taken ++ c₁.ahead) (hfinish : c₁.finish = c.finish) :
    (c.tape before).tokens = (c₁.tape (before ++ taken)).tokens := by
  simp [Cursor.tape, hahead, hfinish]

theorem Cursor.Faces.uncons {c : Cursor} {a : Terminal} (h : c.Faces a) :
    ∃ t rest, c.ahead = t :: rest ∧ t.terminal = a := by
  cases hahead : c.ahead with
  | nil => simp [Cursor.Faces, hahead] at h
  | cons t rest => exact ⟨t, rest, rfl, by simpa [Cursor.Faces, hahead] using h⟩

/-- The next token is of one class only. -/
theorem Cursor.not_faces_of_not_mem {c : Cursor} {t : Token} {rest : List Token} {as : List Terminal}
    (hahead : c.ahead = t :: rest) (ht : t.terminal ∉ as) : ∀ a ∈ as, ¬c.Faces a := by
  rintro a ha hface
  obtain ⟨u, _, hu, rfl⟩ := hface.uncons
  obtain ⟨rfl, -⟩ := List.cons.inj (hahead.symm.trans hu)
  exact ht ha

namespace Tape

variable {c c₁ : Cursor} {before rest : List Token} {t : Token}

/-! ### The moves on the tape of a cursor -/

theorem tokenAt_apply {tape : Tape} {place : Nat} (h : tape.tokens[place]? = some t) :
    tokenAt place tape = .ok t tape := by
  rw [tokenAt, bind_of_ok get_apply, h]
  rfl

theorem peek_tape : peek (c.tape before) = .ok (c.ahead.headD c.finish) (c.tape before) := by
  rw [peek, bind_of_ok get_apply]
  refine tokenAt_apply ?_
  cases hahead : c.ahead <;> simp [Cursor.tape, hahead]

theorem previous_tape : previous (c.tape (before ++ [t])) = .ok t (c.tape (before ++ [t])) := by
  have hhead : (c.tape (before ++ [t])).head = before.length + 1 := by simp [Cursor.tape]
  rw [previous, bind_of_ok get_apply, hhead]
  exact tokenAt_apply (by simp [Cursor.tape])

theorem atEnd_tape (hc : c.Ended) :
    atEnd (c.tape before) = .ok c.ahead.isEmpty (c.tape before) := by
  rw [atEnd, bind_of_ok peek_tape]
  cases hahead : c.ahead with
  | nil => simp [hc.finish]
  | cons t rest => simp [hc.ahead t (by simp [hahead])]

theorem move_tape (hahead : c.ahead = t :: rest) :
    move (c.tape before) = .ok ⟨⟩ (Cursor.tape { c with ahead := rest } (before ++ [t])) := by
  rw [move, bind_of_ok get_apply, if_pos (by simp [Cursor.tape, hahead])]
  simp [Cursor.tape, hahead, set, EStateM.set]

theorem advance_tape (hc : c.Ended) (hahead : c.ahead = t :: rest) :
    advance (c.tape before) = .ok t (Cursor.tape { c with ahead := rest } (before ++ [t])) := by
  rw [advance, bind_of_ok (atEnd_tape hc), hahead, if_neg (by simp), bind_of_ok (move_tape hahead),
    previous_tape]

/-- At the end mark the head stays, and the token in front of it is still there. -/
theorem advance_tape_end (hc : c.Ended) (hahead : c.ahead = []) :
    advance (c.tape (before ++ [t])) = .ok t (c.tape (before ++ [t])) := by
  rw [advance, bind_of_ok (atEnd_tape hc), hahead, if_pos (by simp), previous_tape]

theorem check_tape (hc : c.Ended) (a : Terminal) :
    check a (c.tape before) = .ok (decide (c.Faces a)) (c.tape before) := by
  rw [check, bind_of_ok (atEnd_tape hc)]
  cases hahead : c.ahead with
  | nil => simp [Cursor.Faces, hahead]
  | cons t rest =>
    rw [if_neg (by simp), bind_of_ok peek_tape]
    simp [Cursor.Faces, hahead, beq_eq_decide]

theorem checkAny_tape (hc : c.Ended) (as : List Terminal) :
    checkAny as (c.tape before) = .ok (decide (∃ a ∈ as, c.Faces a)) (c.tape before) := by
  induction as with
  | nil => simp [checkAny]
  | cons a as ih =>
    rw [checkAny, bind_of_ok (check_tape hc a)]
    by_cases hface : c.Faces a
    · simp [hface]
    · simpa [hface] using ih

theorem acceptAny_tape_some {as : List Terminal} (hc : c.Ended) (hahead : c.ahead = t :: rest)
    (ht : t.terminal ∈ as) : acceptAny as (c.tape before) =
      .ok (some t) (Cursor.tape { c with ahead := rest } (before ++ [t])) := by
  have hface : ∃ a ∈ as, c.Faces a := ⟨t.terminal, ht, by simp [Cursor.Faces, hahead]⟩
  rw [acceptAny, bind_of_ok (checkAny_tape hc as), if_pos (by simpa using hface),
    bind_of_ok (advance_tape hc hahead), bind_of_ok previous_tape]
  rfl

theorem acceptAny_tape_none {as : List Terminal} (hc : c.Ended) (h : ∀ a ∈ as, ¬c.Faces a) :
    acceptAny as (c.tape before) = .ok none (c.tape before) := by
  rw [acceptAny, bind_of_ok (checkAny_tape hc as), if_neg (by simpa using h)]
  rfl

theorem position_tape : position (c.tape before) = .ok before.length (c.tape before) := rfl

theorem goOn_tape {start : Nat} (h : start < before.length) :
    goOn start (c.tape before) = .ok ⟨⟩ (c.tape before) := by
  rw [goOn, bind_of_ok get_apply]
  exact congrFun (if_pos h) _

/-- The head stops where recovery stops. -/
theorem seek_tape (before : List Token) (t : Token) {n : Nat} (hc : c.Ended)
    (hn : c.ahead.length < n) :
    ∃ passed, c.ahead = passed ++ nextStatement t c.ahead ∧
      seek n (c.tape (before ++ [t])) = .ok ⟨⟩
        (Cursor.tape { c with ahead := nextStatement t c.ahead } (before ++ t :: passed)) := by
  induction n generalizing c before t with
  | zero => cases hn
  | succ n ih =>
    rw [seek, bind_of_ok (atEnd_tape hc)]
    cases hahead : c.ahead with
    | nil =>
      refine ⟨[], rfl, ?_⟩
      rw [if_pos (by simp), nextStatement, ← hahead]
      rfl
    | cons u rest =>
      rw [if_neg (by simp), bind_of_ok previous_tape, nextStatement]
      by_cases hsemi : t.terminal = .punct .semicolon
      · rw [if_pos hsemi, if_pos (.inl hsemi), ← hahead]
        exact ⟨[], rfl, rfl⟩
      rw [if_neg hsemi, bind_of_ok peek_tape, hahead, List.headD_cons]
      by_cases hstart : startsStatement u
      · rw [if_pos hstart, if_pos (.inr hstart), ← hahead]
        exact ⟨[], rfl, rfl⟩
      rw [if_neg hstart, if_neg (by simp [hsemi, hstart]), bind_of_ok position_tape,
        bind_of_ok (advance_tape hc hahead), bind_of_ok (goOn_tape (by simp))]
      obtain ⟨passed, hpassed, hrun⟩ := ih (before ++ [t]) u (hc.tail hahead)
        (by simpa [hahead] using hn)
      refine ⟨u :: passed, by rw [List.cons_append, ← hpassed], ?_⟩
      rw [hrun]
      simp

/-- Recovery needs a token in front of the head where none is ahead. -/
theorem synchronize_tape (hc : c.Ended) (hmoved : c.ahead = [] → before ≠ []) :
    ∃ passed, c.ahead = passed ++ recoverAt c.ahead ∧
      synchronize (c.tape before) =
        .ok ⟨⟩ (Cursor.tape { c with ahead := recoverAt c.ahead } (before ++ passed)) := by
  rw [synchronize, bind_of_ok peek_tape]
  cases hahead : c.ahead with
  | nil =>
    obtain ⟨before, t, rfl⟩ := (List.eq_nil_or_concat' before).resolve_left (hmoved hahead)
    rw [bind_of_ok (advance_tape_end hc hahead), bind_of_ok get_apply]
    obtain ⟨passed, hpassed, hrun⟩ := seek_tape before t hc (n := (c.tape (before ++ [t])).tokens.length) (by simp [Cursor.tape, hahead])
    rw [hahead] at hpassed
    obtain ⟨rfl, -⟩ := List.append_eq_nil_iff.mp hpassed.symm
    refine ⟨[], rfl, hrun.trans ?_⟩
    rw [hahead, List.append_nil]
    rfl
  | cons t rest =>
    rw [bind_of_ok (advance_tape hc hahead), bind_of_ok get_apply]
    obtain ⟨passed, hpassed, hrun⟩ := seek_tape before t (hc.tail hahead)
      (n := (Cursor.tape { c with ahead := rest } (before ++ [t])).tokens.length)
      (by simp only [Cursor.tape, List.length_append, List.length_singleton]; omega)
    exact ⟨t :: passed, by rw [recoverAt, List.cons_append, ← hpassed], hrun⟩

/-! ### Following -/

variable {α β : Type} {x : Treewalk.Rule α} {y : Rule α} {f : α → Treewalk.Rule β} {g : α → Rule β}
  {m mid out n : Nat} {a : α}

/-- The tape ends as the cursor does, its head behind the tokens that were taken. Where the rule
yields, the head is at the place `out` at least. -/
inductive Mirrors (before : List Token) (c : Cursor) (out : Nat) :
    EStateM.Result Unparsed Cursor α → EStateM.Result Stop Tape α → Prop
  | ok {a : α} {taken : List Token} {c₁ : Cursor} (hahead : c.ahead = taken ++ c₁.ahead)
      (hfinish : c₁.finish = c.finish) (hout : out ≤ (before ++ taken).length) :
      Mirrors before c out (.ok a c₁) (.ok a (c₁.tape (before ++ taken)))
  | fault {found : Diagnostic} {taken : List Token} {c₁ : Cursor}
      (hahead : c.ahead = taken ++ c₁.ahead) (hfinish : c₁.finish = c.finish) :
      Mirrors before c out (.error (.fault found) c₁)
        (.error (.fault found) (c₁.tape (before ++ taken)))
  | exhausted {c₁ : Cursor} {tape : Tape} :
      Mirrors before c out (.error .exhausted c₁) (.error .exhausted tape)

/-- The rule on the tape does what the rule of the parser does. -/
def FollowsAt (before : List Token) (out : Nat) (x : Treewalk.Rule α) (y : Rule α) (c : Cursor) :
    Prop :=
  Mirrors before c out (x c) (y (c.tape before))

/-- From the place `m` on, the rule on the tape does what the rule of the parser does, and it is at the
place `out` at least where it yields. -/
def Follows (m out : Nat) (x : Treewalk.Rule α) (y : Rule α) : Prop :=
  ∀ before c, Cursor.Ended c → m ≤ before.length → FollowsAt before out x y c

theorem Mirrors.trans {r : EStateM.Result Unparsed Cursor α} {r' : EStateM.Result Stop Tape α}
    {taken : List Token} (h : Mirrors (before ++ taken) c₁ out r r')
    (hahead : c.ahead = taken ++ c₁.ahead) (hfinish : c₁.finish = c.finish) :
    Mirrors before c out r r' := by
  cases h with
  | ok hahead' hfinish' hout =>
    rw [List.append_assoc] at hout ⊢
    exact .ok (by rw [hahead, hahead', List.append_assoc]) (hfinish'.trans hfinish) hout
  | fault hahead' hfinish' =>
    rw [List.append_assoc]
    exact .fault (by rw [hahead, hahead', List.append_assoc]) (hfinish'.trans hfinish)
  | exhausted => exact .exhausted

theorem Mirrors.le {r : EStateM.Result Unparsed Cursor α} {r' : EStateM.Result Stop Tape α}
    (h : Mirrors before c mid r r') (hout : out ≤ mid) : Mirrors before c out r r' := by
  cases h with
  | ok hahead hfinish hmid => exact .ok hahead hfinish (hout.trans hmid)
  | fault hahead hfinish => exact .fault hahead hfinish
  | exhausted => exact .exhausted

theorem FollowsAt.bind (hc : c.Ended) (h : FollowsAt before mid x y c)
    (hrest : ∀ a, Follows mid out (f a) (g a)) : FollowsAt before out (x >>= f) (y >>= g) c := by
  unfold FollowsAt at *
  generalize hx : x c = r, hy : y (c.tape before) = r' at h
  cases h with
  | ok hahead hfinish hout =>
    rw [bind_of_ok hx, bind_of_ok hy]
    exact (hrest _ _ _ (hc.of_append hahead hfinish) hout).trans hahead hfinish
  | fault hahead hfinish =>
    rw [bind_of_error hx, bind_of_error hy]
    exact .fault hahead hfinish
  | exhausted =>
    rw [bind_of_error hx, bind_of_error hy]
    exact .exhausted

theorem Follows.bind (h : Follows m mid x y) (hrest : ∀ a, Follows mid out (f a) (g a)) :
    Follows m out (x >>= f) (y >>= g) :=
  fun before c hc hm => (h before c hc hm).bind hc hrest

/-- Both rules yield, and the head is where it was. -/
theorem FollowsAt.of_ok (hx : x c = .ok a c₁) (hy : y (c.tape before) = .ok a (c₁.tape before))
    (hahead : c₁.ahead = c.ahead) (hfinish : c₁.finish = c.finish) (hout : out ≤ before.length) :
    FollowsAt before out x y c := by
  rw [FollowsAt, hx, hy]
  have h : Mirrors before c out (.ok a c₁) (.ok a (c₁.tape (before ++ []))) :=
    .ok hahead.symm hfinish (by simpa using hout)
  rwa [List.append_nil] at h

/-- Where both rules have begun without a token, it depends on how they go on. -/
theorem FollowsAt.stay {b : β} {x : Treewalk.Rule β} {y : Rule β} {f : β → Treewalk.Rule α}
    {g : β → Rule α} (hx : x c = .ok b c) (hy : y (c.tape before) = .ok b (c.tape before))
    (h : FollowsAt before out (f b) (g b) c) : FollowsAt before out (x >>= f) (y >>= g) c := by
  rwa [FollowsAt, bind_of_ok hx, bind_of_ok hy]

/-- Where both rules have taken a token, it depends on how they go on. -/
theorem FollowsAt.take {γ : Type} {b : β} {b' : γ} {x : Treewalk.Rule β} {y : Rule γ}
    {f : β → Treewalk.Rule α} {g : γ → Rule α} (hc : c.Ended) (hahead : c.ahead = t :: rest)
    (hx : x c = .ok b { c with ahead := rest })
    (hy : y (c.tape before) = .ok b' (Cursor.tape { c with ahead := rest } (before ++ [t])))
    (h : Follows (before.length + 1) out (f b) (g b')) :
    FollowsAt before out (x >>= f) (y >>= g) c := by
  rw [FollowsAt, bind_of_ok hx, bind_of_ok hy]
  have htaken : c.ahead = [t] ++ rest := hahead
  exact (h _ _ (hc.tail hahead) (by simp)).trans htaken rfl

theorem Follows.pure (a : α) (h : out ≤ m) : Follows m out (pure a) (pure a) :=
  fun _ _ _ hm => .of_ok rfl rfl rfl rfl (h.trans hm)

/-- The bound on the place of the head may be smaller. -/
theorem Follows.le (h : Follows m mid x y) (hout : out ≤ mid) : Follows m out x y :=
  fun before c hc hm => (h before c hc hm).le hout

/-- The head may be farther on. -/
theorem Follows.from (h : Follows m out x y) (hmid : m ≤ mid) : Follows mid out x y :=
  fun before c hc hm => h before c hc (hmid.trans hm)

theorem follows_exhausted : Follows m out (Rule.exhausted : Treewalk.Rule α) exhausted :=
  fun _ _ _ _ => .exhausted

/-- A loop notes where a pass begins. -/
theorem Follows.pass {g : Nat → Rule α} (h : ∀ start, m ≤ start → Follows start out x (g start)) :
    Follows m out x (position >>= g) :=
  fun before c hc hm => h before.length hm before c hc le_rfl

/-- A pass that has taken a token goes on. -/
theorem Follows.goOn {start : Nat} (hless : start < m) (h : Follows m out x y) :
    Follows m out x (goOn start >>= fun _ => y) := by
  intro before c hc hm
  rw [FollowsAt, bind_of_ok (goOn_tape (hless.trans_le hm))]
  exact h before c hc hm

theorem FollowsAt.pass {g : Nat → Rule α} (h : FollowsAt before out x (g before.length) c) :
    FollowsAt before out x (position >>= g) c :=
  h

theorem follows_fail (fault : ParseFault) :
    Follows m out (Rule.fail fault : Treewalk.Rule α) (fail fault) := by
  intro before c hc hm
  have hy : (fail fault : Rule α) (c.tape before) =
      .error (.fault (.parse (c.ahead.headD c.finish) fault)) (c.tape (before ++ [])) := by
    rw [fail, bind_of_ok peek_tape, List.append_nil]
    rfl
  rw [FollowsAt, hy]
  exact .fault rfl rfl

theorem Follows.acceptAny {as : List Terminal} {f : Option Token → Treewalk.Rule β}
    {g : Option Token → Rule β} (hsome : ∀ t, Follows (m + 1) out (f (some t)) (g (some t)))
    (hnone : Follows m out (f none) (g none)) :
    Follows m out (Rule.acceptAny as >>= f) (acceptAny as >>= g) := by
  intro before c hc hm
  by_cases hface : ∃ a ∈ as, c.Faces a
  · obtain ⟨_, ha, hface⟩ := hface
    obtain ⟨t, rest, hahead, rfl⟩ := hface.uncons
    exact .take hc hahead (Rule.acceptAny_of_mem hahead ha) (acceptAny_tape_some hc hahead ha)
      ((hsome t).from (Nat.succ_le_succ hm))
  · have hnot : ∀ a ∈ as, ¬c.Faces a := fun a ha h => hface ⟨a, ha, h⟩
    exact .stay (Rule.acceptAny_none hnot) (acceptAny_tape_none hc hnot) (hnone before c hc hm)

theorem Follows.accept {a : Terminal} {f : Option Token → Treewalk.Rule β}
    {g : Option Token → Rule β} (hsome : ∀ t, Follows (m + 1) out (f (some t)) (g (some t)))
    (hnone : Follows m out (f none) (g none)) :
    Follows m out (Rule.accept a >>= f) (accept a >>= g) :=
  .acceptAny hsome hnone

theorem Follows.ifPunct {p : Punct} {x' : Treewalk.Rule α} {y' : Rule α}
    (h : Follows (m + 1) out x y) (h' : Follows m out x' y') :
    Follows m out (do if ← Rule.acceptPunct p then x else x')
      (do if ← acceptPunct p then y else y') := by
  simp only [Rule.acceptPunct, acceptPunct, bind_assoc, pure_bind]
  exact .accept (fun _ => h) h'

theorem follows_expect (a : Terminal) (fault : ParseFault) :
    Follows m (m + 1) (Rule.expect a fault) (expect a fault) := by
  intro before c hc hm
  have hcheck : check a (c.tape before) = .ok (decide (c.Faces a)) (c.tape before) :=
    check_tape hc a
  by_cases hface : c.Faces a
  · obtain ⟨t, rest, hahead, ht⟩ := hface.uncons
    have haccept : Rule.accept a c = .ok (some t) { c with ahead := rest } :=
      Rule.acceptAny_of_mem hahead (List.mem_singleton.mpr ht)
    rw [FollowsAt, Rule.expect, bind_of_ok haccept, expect, bind_of_ok hcheck,
      if_pos (by simpa using hface), advance_tape hc hahead]
    have htaken : c.ahead = [t] ++ rest := hahead
    exact .ok htaken rfl (by simpa using hm)
  · rw [FollowsAt, Rule.expect, bind_of_ok (Rule.accept_none hface), expect, bind_of_ok hcheck,
      if_neg (by simpa using hface)]
    exact follows_fail fault before c hc hm

theorem follows_expectPunct (p : Punct) (fault : ParseFault) :
    Follows m (m + 1) (Rule.expectPunct p fault) (expectPunct p fault) :=
  follows_expect _ fault

theorem follows_record (token : Token) (fault : ParseFault) :
    Follows m m (Rule.record token fault) (record token fault) :=
  fun _ _ _ hm => .of_ok rfl rfl rfl rfl hm

theorem follows_number (name : Token) : Follows m m (Rule.number name) (number name) :=
  fun _ _ _ hm => .of_ok rfl rfl rfl rfl hm

theorem follows_peek : Follows m m Rule.peek peek :=
  fun _ _ _ hm => .of_ok rfl peek_tape rfl rfl hm

theorem follows_check (a : Terminal) : Follows m m (Rule.check a) (check a) :=
  fun _ c hc hm => .of_ok (Rule.check_apply a c) (check_tape hc a) rfl rfl hm

/-- One entry too many is noted in both. -/
theorem Follows.limited {count : Nat} {fault : ParseFault} (h : Follows m out x y) :
    Follows m out
      (do
        if maxArguments ≤ count then Rule.record (← Rule.peek) fault
        x)
      (do
        if maxArguments ≤ count then record (← peek) fault
        y) := by
  split
  · exact follows_peek.bind fun t => (follows_record t fault).bind fun _ => h
  · exact h

theorem Follows.whenNot {a : Terminal} (h : Follows m m x y) :
    Follows m m (Rule.whenNot a x) (whenNot a y) := by
  refine (follows_check a).bind fun here => ?_
  cases here with
  | true => exact .pure none le_rfl
  | false => exact h.bind fun v => .pure (some v) le_rfl

theorem follows_assignment (target : Expr) (equals : Token) (value : Expr) :
    Follows m m (Rule.assignment target equals value) (assignment target equals value) := by
  match target with
  | .variable ref => exact (follows_number ref.name).bind fun _ => .pure _ le_rfl
  | .get object name => exact .pure _ le_rfl
  | .literal _ | .unary _ _ | .binary _ _ _ | .logical _ _ _ | .grouping _ | .assign _ _
  | .call _ _ _ | .set _ _ _ | .this _ | .parent _ _ =>
    exact (follows_record _ _).bind fun _ => .pure _ le_rfl

/-- Both rules end where no token is left or a list in braces is closed. -/
theorem Follows.unlessClosed {a : Terminal} {x' : Treewalk.Rule α} {y' : Rule α}
    (h : ∀ before c, Cursor.Ended c → c.ahead ≠ [] → m ≤ before.length →
      FollowsAt before out x y c) (h' : Follows m out x' y') :
    Follows m out (do if (← Rule.atEnd) || (← Rule.check a) then x' else x)
      (do if (← check a) || (← atEnd) then y' else y) := by
  intro before c hc hm
  rw [FollowsAt, bind_of_ok (Rule.atEnd_apply c), bind_of_ok (Rule.check_apply a c),
    bind_of_ok (check_tape hc a), bind_of_ok (atEnd_tape hc), Bool.or_comm]
  split
  · exact h' before c hc hm
  · next hopen =>
    refine h before c hc ?_ hm
    rintro hend
    simp [hend] at hopen

/-- What the parser looks at is known. -/
theorem FollowsAt.get {f : Cursor → Treewalk.Rule α} (h : FollowsAt before out (f c) y c) :
    FollowsAt before out (MonadState.get >>= f) y c :=
  h

/-- The head stays where the next token is not of the class asked for. -/
theorem FollowsAt.decline {as : List Terminal} {g : Option Token → Rule α} (hc : c.Ended)
    (has : ∀ a ∈ as, ¬c.Faces a) (h : FollowsAt before out x (g none) c) :
    FollowsAt before out x (acceptAny as >>= g) c := by
  rwa [FollowsAt, bind_of_ok (acceptAny_tape_none hc has)]

/-- The token that the parser has looked at is taken. -/
theorem FollowsAt.skip {as : List Terminal} {g : Option Token → Rule α} (hc : c.Ended)
    (hahead : c.ahead = t :: rest) (ht : t.terminal ∈ as)
    (h : Follows (before.length + 1) out x (g (some t))) :
    FollowsAt before out (Rule.skip >>= fun _ => x) (acceptAny as >>= g) c := by
  have hskip : Rule.skip c = .ok ⟨⟩ { c with ahead := rest } := by
    rw [Rule.skip, modify_apply, hahead]
    rfl
  exact .take hc hahead hskip (acceptAny_tape_some hc hahead ht) h

/-- Where a token was left and a fault was found, recovery leaves the head farther on. -/
theorem mirrors_recovery {taken : List Token} (hc : c.Ended) (hne : c.ahead ≠ [])
    (hahead : c.ahead = taken ++ c₁.ahead) (hfinish : c₁.finish = c.finish) :
    Mirrors before c (before.length + 1) (.ok (none : Option α) { c₁ with ahead := recoverAt c₁.ahead })
      ((do
        synchronize
        return none) (c₁.tape (before ++ taken))) := by
  have hmoved : c₁.ahead = [] → before ++ taken ≠ [] := by
    rintro hend hnil
    rw [hend, (List.append_eq_nil_iff.mp hnil).2] at hahead
    exact hne hahead
  obtain ⟨passed, hpassed, hrun⟩ := synchronize_tape (hc.of_append hahead hfinish) hmoved
  have hall : c.ahead = taken ++ passed ++ recoverAt c₁.ahead := by
    rw [List.append_assoc, ← hpassed, hahead]
  have hgone : 0 < (taken ++ passed).length := by
    have hless := recoverAt_length_le c₁.ahead
    have hpos := List.length_pos_of_ne_nil hne
    have hbefore := congrArg List.length hahead
    have hbehind := congrArg List.length hall
    rw [List.length_append] at hbefore hbehind
    omega
  rw [bind_of_ok hrun, pure_apply, List.append_assoc]
  exact .ok hall hfinish (by rw [List.length_append]; omega)

/-- Where a token was left, the head has gone on even if the rule is given up. -/
theorem FollowsAt.recovering (hc : c.Ended) (hne : c.ahead ≠ [])
    (h : FollowsAt before (before.length + 1) x y c) :
    FollowsAt before (before.length + 1) (Rule.recovering x) (Tape.recovering y) c := by
  unfold FollowsAt Rule.recovering Tape.recovering at *
  generalize hx : x c = r, hy : y (c.tape before) = r' at h
  cases h with
  | ok hahead hfinish hout => exact .ok hahead hfinish hout
  | @fault found _ c₁ hahead hfinish =>
    let c₂ : Cursor := { c₁ with faults := c₁.faults ++ [found] }
    have hahead₂ : c.ahead = _ ++ c₂.ahead := hahead
    exact mirrors_recovery hc hne hahead₂ hfinish
  | exhausted => exact .exhausted

end Tape

end Treewalk
