import Treewalk.Proofs.Trees.Renumbering

/-! Segments. A segment of the tokens ends with its only semicolon and holds neither an opening brace
nor one of the words `for` and `else`. Whatever is wrong in it, the parser reads it as it would without
the tokens around it: no rule looks past the semicolon, and recovery stops behind it at the latest. -/

namespace Treewalk

/-- The classes of tokens that do not stand in front of the semicolon of a segment. -/
def Segment.barred : List Terminal :=
  [.punct .semicolon, .punct .leftBrace, .keyword .forWord, .keyword .elseWord, .eof]

/-- The tokens end with their only semicolon, and none of them is an opening brace, a `for`, an `else`
or an end mark. -/
inductive Segment : List Token → Prop
  | semicolon {t} : t.terminal = .punct .semicolon → Segment [t]
  | cons {t ts} : t.terminal ∉ Segment.barred → Segment ts → Segment (t :: ts)

/-- The tokens of a segment from some token on, at most so many. -/
structure Segment.Tail (len : Nat) (ts : List Token) : Prop where
  segment : Segment ts
  length_le : ts.length ≤ len

namespace Segment

variable {t : Token} {ts : List Token} {len : Nat}

theorem length_pos (h : Segment ts) : 0 < ts.length := by
  cases h <;> simp

theorem ne_nil (h : Segment ts) : ts ≠ [] := List.ne_nil_of_length_pos h.length_pos

/-- A segment does not begin with an `else`. -/
theorem head_ne_else (h : Segment ts) (ht : t ∈ ts.head?) : t.terminal ≠ .keyword .elseWord := by
  cases h with
  | semicolon hsemi =>
    cases ht
    simp [hsemi]
  | cons hplain _ =>
    cases ht
    rintro helse
    exact hplain (by simp [helse, barred])

/-- No token of a segment but the last one is passed over for a semicolon. -/
theorem ne_semicolon (ht : t.terminal ∉ barred) : t.terminal ≠ .punct .semicolon := by
  rintro hsemi
  exact ht (by simp [hsemi, barred])

/-- Behind a semicolon recovery stops. -/
theorem nextStatement_semicolon (ht : t.terminal = .punct .semicolon) (us : List Token) :
    nextStatement t us = us := by
  cases us with
  | nil => rfl
  | cons u us => rw [nextStatement, if_pos (.inl ht)]

/-- Recovery leaves the same of a segment, whatever stands behind it. -/
theorem nextStatement_append (h : Segment ts) (previous : Token) (us : List Token) :
    nextStatement previous (ts ++ us) = nextStatement previous ts ++ us := by
  induction h generalizing previous with
  | semicolon hsemi =>
    rw [List.singleton_append, nextStatement, nextStatement]
    split
    · rfl
    · rw [nextStatement_semicolon hsemi, nextStatement_semicolon hsemi]
      rfl
  | cons _ _ ih =>
    rw [List.cons_append, nextStatement, nextStatement]
    split
    · rfl
    · exact ih _

theorem recoverAt_append (h : Segment ts) (us : List Token) :
    recoverAt (ts ++ us) = recoverAt ts ++ us := by
  cases h with
  | semicolon hsemi => exact nextStatement_semicolon hsemi us
  | cons _ hrest => exact hrest.nextStatement_append _ us

/-- Recovery leaves nothing of a segment, or its end. -/
theorem nextStatement (h : Segment ts) (previous : Token) :
    Treewalk.nextStatement previous ts = [] ∨ Segment (Treewalk.nextStatement previous ts) := by
  induction h generalizing previous with
  | semicolon hsemi =>
    rw [Treewalk.nextStatement]
    split
    · exact .inr (.semicolon hsemi)
    · exact .inl rfl
  | cons ht hrest ih =>
    rw [Treewalk.nextStatement]
    split
    · exact .inr (.cons ht hrest)
    · exact ih _

theorem recoverAt (h : Segment ts) :
    Treewalk.recoverAt ts = [] ∨ Segment (Treewalk.recoverAt ts) := by
  cases h with
  | semicolon => exact .inl rfl
  | cons _ hrest => exact hrest.nextStatement _

theorem Tail.mono {len' : Nat} (h : Tail len ts) (hlen : len ≤ len') : Tail len' ts :=
  ⟨h.segment, h.length_le.trans hlen⟩

/-- The next token is the semicolon, or another one in front of the end of the segment. -/
theorem Tail.uncons (h : Tail len ts) : ∃ t rest, ts = t :: rest ∧
    (t.terminal = .punct .semicolon ∧ rest = [] ∨ t.terminal ∉ barred ∧ Tail (len - 1) rest) := by
  obtain ⟨hsegment, hlen⟩ := h
  cases hsegment with
  | semicolon hsemi => exact ⟨_, [], rfl, .inl ⟨hsemi, rfl⟩⟩
  | cons ht hrest => exact ⟨_, _, rfl, .inr ⟨ht, hrest, Nat.le_sub_one_of_lt hlen⟩⟩

end Segment

open Segment (Tail)

/-- What stands around a segment: the faults that were found before it, the tokens behind it, which do
not go on with an `else`, and the end mark. -/
structure Around where
  faults : List Diagnostic
  behind : List Token
  finish : Token
  behind_ne_else : ∀ t ∈ behind.head?, t.terminal ≠ .keyword .elseWord

/-- The cursor, with more around it. -/
def Cursor.amid (c : Cursor) (A : Around) : Cursor :=
  ⟨c.ahead ++ A.behind, A.finish, c.nextId, A.faults ++ c.faults⟩

namespace Rule

variable {A : Around} {α β : Type} {x x' : Rule α} {f f' : α → Rule β} {len n n' : Nat}
  {P Q R : List Token → Prop} {c c₁ : Cursor} {a : α} {as : List Terminal} {t : Token}

/-- The first rule does what the second one does with more around the cursor. It yields, and `Q` holds
of the tokens that are left, or it fails within a segment. -/
def AgreesAt (A : Around) (Q : List Token → Prop) (x x' : Rule α) (c : Cursor) : Prop :=
  (∃ a c₁, x c = .ok a c₁ ∧ x' (c.amid A) = .ok a (c₁.amid A) ∧ Q c₁.ahead ∧
    c₁.ahead.length ≤ c.ahead.length) ∨
  ∃ found c₁, x c = .error (.fault found) c₁ ∧ x' (c.amid A) = .error (.fault found) (c₁.amid A) ∧
    Tail c.ahead.length c₁.ahead

/-- The rules agree wherever `P` holds of the tokens. -/
def Agrees (A : Around) (P Q : List Token → Prop) (x x' : Rule α) : Prop :=
  ∀ c : Cursor, P c.ahead → AgreesAt A Q x x' c

/-- Where both rules have begun alike, they agree if they go on agreeing. -/
theorem AgreesAt.of_ok (hrun : x c = .ok a c₁) (hrun' : x' (c.amid A) = .ok a (c₁.amid A))
    (hlen : c₁.ahead.length ≤ c.ahead.length) (h : AgreesAt A Q (f a) (f' a) c₁) :
    AgreesAt A Q (x >>= f) (x' >>= f') c := by
  rw [AgreesAt, bind_of_ok hrun, bind_of_ok hrun']
  refine h.imp ?_ ?_
  · rintro ⟨b, c₂, hb, hb', hc₂, hlen'⟩
    exact ⟨b, c₂, hb, hb', hc₂, hlen'.trans hlen⟩
  · rintro ⟨found, c₂, hfound, hfound', htail⟩
    exact ⟨found, c₂, hfound, hfound', htail.mono hlen⟩

theorem Agrees.pure (a : α) : Agrees A P P (pure a) (pure a) :=
  fun c hc => .inl ⟨a, c, rfl, rfl, hc, le_rfl⟩

theorem AgreesAt.bind (hx : AgreesAt A Q x x' c) (hf : ∀ a, Agrees A Q R (f a) (f' a)) :
    AgreesAt A R (x >>= f) (x' >>= f') c := by
  obtain ⟨a, c₁, hrun, hrun', hc₁, hlen⟩ | ⟨found, c₁, hrun, hrun', htail⟩ := hx
  · exact .of_ok hrun hrun' hlen (hf a c₁ hc₁)
  · exact .inr ⟨found, c₁, bind_of_error hrun, bind_of_error hrun', htail⟩

theorem Agrees.bind (hx : Agrees A P Q x x') (hf : ∀ a, Agrees A Q R (f a) (f' a)) :
    Agrees A P R (x >>= f) (x' >>= f') :=
  fun c hc => (hx c hc).bind hf

theorem AgreesAt.get {f f' : Cursor → Rule α} (h : AgreesAt A Q (f c) (f' (c.amid A)) c) :
    AgreesAt A Q (get >>= f) (get >>= f') c :=
  h

theorem Agrees.imp (h : Agrees A P Q x x') (hQ : ∀ ts, Q ts → R ts) : Agrees A P R x x' := by
  intro c hc
  refine (h c hc).imp_left ?_
  rintro ⟨a, c₁, hrun, hrun', hc₁, hlen⟩
  exact ⟨a, c₁, hrun, hrun', hQ _ hc₁, hlen⟩

/-- The bound on what is left may be greater. -/
theorem Agrees.le {m : Nat} (h : Agrees A P (Tail m) x x') (hm : m ≤ len) :
    Agrees A P (Tail len) x x' :=
  h.imp fun _ htail => htail.mono hm

/-- As many tokens as before are left at most. -/
theorem Agrees.back (h : Agrees A P (Tail (len - 1)) x x') : Agrees A P (Tail len) x x' :=
  h.le (Nat.sub_le len 1)

/-- There is always a token left. -/
theorem Agrees.pos (h : 0 < len → Agrees A (Tail len) Q x x') : Agrees A (Tail len) Q x x' :=
  fun c hc => h (hc.segment.length_pos.trans_le hc.length_le) c hc

theorem Agrees.absurd : Agrees A (fun _ => False) Q x x' := fun _ => False.elim

/-! ### The moves -/

theorem acceptAny_of_mem {rest : List Token} (hahead : c.ahead = t :: rest) (ht : t.terminal ∈ as) :
    acceptAny as c = .ok (some t) { c with ahead := rest } := by
  rw [acceptAny_apply, hahead]
  exact if_pos ht

theorem acceptAny_of_not_mem {rest : List Token} (hahead : c.ahead = t :: rest)
    (ht : t.terminal ∉ as) : acceptAny as c = .ok none c := by
  rw [acceptAny_apply, hahead]
  exact if_neg ht

theorem ahead_amid {rest : List Token} (hahead : c.ahead = t :: rest) :
    (c.amid A).ahead = t :: (rest ++ A.behind) := by
  rw [Cursor.amid, hahead]
  rfl

/-- Both rules take the next token or neither does. A semicolon is not taken. -/
theorem Agrees.acceptAny {f f' : Option Token → Rule β} (has : .punct .semicolon ∉ as)
    (hsome : ∀ t : Token, t.terminal ∈ as → t.terminal ∉ Segment.barred →
      Agrees A (Tail (len - 1)) Q (f (some t)) (f' (some t)))
    (hnone : Agrees A (Tail len) Q (f none) (f' none)) :
    Agrees A (Tail len) Q (Rule.acceptAny as >>= f) (Rule.acceptAny as >>= f') := by
  intro c hc
  obtain ⟨t, rest, hahead, hend⟩ := hc.uncons
  by_cases ht : t.terminal ∈ as
  · obtain ⟨hsemi, -⟩ | ⟨hplain, hrest⟩ := hend
    · exact Not.elim has (hsemi ▸ ht)
    · exact .of_ok (acceptAny_of_mem hahead ht) (acceptAny_of_mem (ahead_amid hahead) ht)
        (by simp [hahead]) (hsome t ht hplain _ hrest)
  · exact .of_ok (acceptAny_of_not_mem hahead ht) (acceptAny_of_not_mem (ahead_amid hahead) ht) le_rfl
      (hnone c hc)

theorem Agrees.accept {a : Terminal} {f f' : Option Token → Rule β} (ha : a ≠ .punct .semicolon)
    (hsome : ∀ t : Token, t.terminal = a → t.terminal ∉ Segment.barred →
      Agrees A (Tail (len - 1)) Q (f (some t)) (f' (some t)))
    (hnone : Agrees A (Tail len) Q (f none) (f' none)) :
    Agrees A (Tail len) Q (Rule.accept a >>= f) (Rule.accept a >>= f') :=
  .acceptAny (by simpa using ha.symm) (fun t ht => hsome t (List.mem_singleton.mp ht)) hnone

/-- A token that stands in no segment is not taken. -/
theorem Agrees.bar {a : Terminal} {f f' : Option Token → Rule β} (hbarred : a ∈ Segment.barred)
    (ha : a ≠ .punct .semicolon) (hnone : Agrees A (Tail len) Q (f none) (f' none)) :
    Agrees A (Tail len) Q (Rule.accept a >>= f) (Rule.accept a >>= f') :=
  .accept ha (fun _ ht hplain => Not.elim hplain (ht ▸ hbarred)) hnone

theorem Agrees.ifPunct {p : Punct} {y y' z z' : Rule β} (hp : p ≠ .semicolon)
    (hy : Agrees A (Tail (len - 1)) Q y y') (hz : Agrees A (Tail len) Q z z') :
    Agrees A (Tail len) Q (do if ← acceptPunct p then y else z)
      (do if ← acceptPunct p then y' else z') := by
  simp only [acceptPunct, bind_assoc, pure_bind]
  exact .accept (by simpa using hp) (fun _ _ _ => hy) hz

theorem agrees_fail (fault : ParseFault) :
    Agrees A (Tail len) Q (fail fault : Rule α) (fail fault) := by
  intro c hc
  obtain ⟨t, rest, hahead, -⟩ := hc.uncons
  refine .inr ⟨.parse t fault, c, ?_, ?_, hc.segment, le_rfl⟩
  · rw [fail, peek, bind_assoc, bind_of_ok get_apply, pure_bind, hahead]
    rfl
  · rw [fail, peek, bind_assoc, bind_of_ok get_apply, pure_bind, ahead_amid hahead]
    rfl

theorem agrees_expect {a : Terminal} (ha : a ≠ .punct .semicolon) (fault : ParseFault) :
    Agrees A (Tail len) (Tail (len - 1)) (expect a fault) (expect a fault) :=
  .accept ha (fun t _ _ => .pure t) (agrees_fail fault)

theorem agrees_expectPunct {p : Punct} (hp : p ≠ .semicolon) (fault : ParseFault) :
    Agrees A (Tail len) (Tail (len - 1)) (expectPunct p fault) (expectPunct p fault) :=
  agrees_expect (by simpa using hp) fault

/-- No segment has an opening brace. -/
theorem agrees_expectBrace (fault : ParseFault) :
    Agrees A (Tail len) (fun _ => False) (expectPunct .leftBrace fault)
      (expectPunct .leftBrace fault) :=
  .bar (by decide) (by decide) (agrees_fail fault)

/-- Behind the semicolon nothing of the segment is left. -/
theorem agrees_expectSemicolon (fault : ParseFault) :
    Agrees A (Tail len) (· = []) (expectPunct .semicolon fault) (expectPunct .semicolon fault) := by
  intro c hc
  obtain ⟨t, rest, hahead, ⟨hsemi, rfl⟩ | ⟨hplain, -⟩⟩ := hc.uncons
  · have ht : t.terminal ∈ [Terminal.punct .semicolon] := List.mem_singleton.mpr hsemi
    exact .of_ok (acceptAny_of_mem hahead ht) (acceptAny_of_mem (ahead_amid hahead) ht)
      (by simp [hahead]) (Agrees.pure t _ rfl)
  · have ht : t.terminal ∉ [Terminal.punct .semicolon] :=
      fun hsemi => Segment.ne_semicolon hplain (List.mem_singleton.mp hsemi)
    exact .of_ok (acceptAny_of_not_mem hahead ht) (acceptAny_of_not_mem (ahead_amid hahead) ht) le_rfl
      (agrees_fail fault c hc)

/-- Where nothing of the segment is left, no `else` follows. -/
theorem Agrees.withoutElse {f f' : Option Token → Rule β}
    (h : Agrees A (· = []) Q (f none) (f' none)) :
    Agrees A (· = []) Q (Rule.accept (.keyword .elseWord) >>= f)
      (Rule.accept (.keyword .elseWord) >>= f') := by
  intro c hc
  refine .of_ok (accept_none ?_) (accept_none ?_) le_rfl (h c hc)
  · rw [Cursor.Faces, hc]
    simp
  · rw [Cursor.Faces, Cursor.amid, hc, List.nil_append]
    simpa using A.behind_ne_else

theorem agrees_record (token : Token) (fault : ParseFault) :
    Agrees A P P (record token fault) (record token fault) := by
  refine fun c hc => .inl ⟨⟨⟩, _, rfl, ?_, hc, le_rfl⟩
  simp [record, Cursor.amid, modify, modifyGet, MonadStateOf.modifyGet, EStateM.modifyGet]

theorem agrees_number (name : Token) : Agrees A P P (number name) (number name) :=
  fun _ hc => .inl ⟨_, _, rfl, rfl, hc, le_rfl⟩

theorem agrees_peek : Agrees A (Tail len) (Tail len) peek peek := by
  intro c hc
  obtain ⟨t, rest, hahead, -⟩ := hc.uncons
  refine .inl ⟨t, c, ?_, ?_, hc, le_rfl⟩
  · rw [peek, bind_of_ok get_apply, hahead]
    rfl
  · rw [peek, bind_of_ok get_apply, ahead_amid hahead]
    rfl

theorem agrees_check (a : Terminal) : Agrees A (Tail len) (Tail len) (check a) (check a) := by
  intro c hc
  obtain ⟨t, rest, hahead, -⟩ := hc.uncons
  refine .inl ⟨t.terminal == a, c, ?_, ?_, hc, le_rfl⟩
  · rw [check, bind_of_ok get_apply, hahead]
    rfl
  · rw [check, bind_of_ok get_apply, ahead_amid hahead]
    rfl

/-- One entry too many is noted in both. -/
theorem Agrees.limited {count : Nat} {fault : ParseFault} (h : Agrees A (Tail len) Q x x') :
    Agrees A (Tail len) Q
      (do
        if maxArguments ≤ count then record (← peek) fault
        x)
      (do
        if maxArguments ≤ count then record (← peek) fault
        x') := by
  split
  · exact agrees_peek.bind fun t => (agrees_record t fault).bind fun _ => h
  · exact h

theorem Agrees.whenNot {a : Terminal} (h : Agrees A (Tail len) (Tail len) x x') :
    Agrees A (Tail len) (Tail len) (whenNot a x) (whenNot a x') := by
  refine (agrees_check a).bind fun here => ?_
  cases here with
  | true => exact .pure none
  | false => exact h.bind fun v => .pure (some v)

theorem agrees_assignment (target : Expr) (equals : Token) (value : Expr) :
    Agrees A P P (assignment target equals value) (assignment target equals value) := by
  unfold assignment
  split
  · exact (agrees_number _).bind fun _ => .pure _
  · exact .pure _
  · exact (agrees_record _ _).bind fun _ => .pure _

/-! ### Expressions -/

theorem Level.operators_ne_semicolon {level : Level} {tighter : List Level}
    (hs : level :: tighter <:+ Level.all) : .punct .semicolon ∉ level.operators := by
  have hall : ∀ level ∈ Level.all, .punct .semicolon ∉ level.operators := by decide
  exact hall level (hs.mem List.mem_cons_self)

/-- The rules for expressions, within two depths. To each of the tokens of a segment belong at most
sixteen steps of depth. -/
structure ExpressionsAgree (A : Around) (n n' : Nat) : Prop where
  expression : ∀ len, 16 * len + 10 ≤ n →
    Agrees A (Tail len) (Tail (len - 1)) (expression n) (expression n')
  operation : ∀ len levels, levels <:+ Level.all → 16 * len + levels.length + 3 ≤ n →
    Agrees A (Tail len) (Tail (len - 1)) (operation n levels) (operation n' levels)
  operations : ∀ len level tighter left, level :: tighter <:+ Level.all →
    16 * len + 1 ≤ n →
    Agrees A (Tail len) (Tail len) (operations n level tighter left)
      (operations n' level tighter left)
  unary : ∀ len, 16 * len + 2 ≤ n → Agrees A (Tail len) (Tail (len - 1)) (unary n) (unary n')
  calls : ∀ len callee, 16 * len + 1 ≤ n →
    Agrees A (Tail len) (Tail len) (calls n callee) (calls n' callee)
  arguments : ∀ len count, 16 * len + 11 ≤ n →
    Agrees A (Tail len) (Tail (len - 1)) (arguments n count) (arguments n' count)
  primary : ∀ len, 16 * len + 1 ≤ n → Agrees A (Tail len) (Tail (len - 1)) (primary n) (primary n')

variable (h : ExpressionsAgree A n n')
include h

theorem agrees_primary (hlen : 16 * len + 1 ≤ n + 1) :
    Agrees A (Tail len) (Tail (len - 1)) (primary (n + 1)) (primary (n' + 1)) := by
  intro c hc
  obtain ⟨t, rest, hahead, hend⟩ := hc.uncons
  rw [primary, primary]
  refine .get ?_
  rw [hahead, ahead_amid hahead]
  dsimp only
  obtain ⟨hsemi, rfl⟩ | ⟨-, hrest⟩ := hend
  · have hliteral : t.literal? = none := Option.eq_none_iff_forall_ne_some.mpr fun v hv => by
      simpa [hsemi, literalTerminals] using Token.terminal_of_literal? hv
    rw [hliteral, hsemi]
    exact agrees_fail _ c hc
  have hpos : 0 < len := hc.segment.length_pos.trans_le hc.length_le
  have hskip : AgreesAt A (Tail (len - 1)) skip skip c := by
    refine .inl ⟨⟨⟩, { c with ahead := rest }, ?_, ?_, hrest, by simp [hahead]⟩
    · rw [skip, modify_apply, hahead]
      rfl
    · rw [skip, modify_apply, ahead_amid hahead]
      rfl
  split
  · exact hskip.bind fun _ => .pure _
  · split
    · exact hskip.bind fun _ => (agrees_number _).bind fun _ => .pure _
    · exact hskip.bind fun _ => (agrees_expectPunct (by decide) _).back.bind fun _ =>
        (agrees_expect (by decide) _).back.bind fun _ => (agrees_number _).bind fun _ => .pure _
    · exact hskip.bind fun _ => (agrees_number _).bind fun _ => .pure _
    · exact hskip.bind fun _ => (h.expression _ (by omega)).back.bind fun _ =>
        (agrees_expectPunct (by decide) _).back.bind fun _ => .pure _
    · exact agrees_fail _ c hc

theorem agrees_calls (callee : Expr) (hlen : 16 * len + 1 ≤ n + 1) :
    Agrees A (Tail len) (Tail len) (calls (n + 1) callee) (calls (n' + 1) callee) := by
  rw [calls, calls]
  refine .pos fun hpos => .ifPunct (by decide) ?_ (.ifPunct (by decide) ?_ (.pure callee))
  · exact (((h.arguments _ 0 (by omega)).le (by omega)).whenNot).bind fun args =>
      (agrees_expectPunct (by decide) _).bind fun paren => (h.calls _ _ (by omega)).le (by omega)
  · exact (agrees_expect (by decide) _).bind fun name => (h.calls _ _ (by omega)).le (by omega)

theorem agrees_arguments (count : Nat) (hlen : 16 * len + 11 ≤ n + 1) :
    Agrees A (Tail len) (Tail (len - 1)) (arguments (n + 1) count) (arguments (n' + 1) count) := by
  rw [arguments, arguments]
  refine .pos fun hpos => .limited ((h.expression _ (by omega)).bind fun e =>
    .ifPunct (by decide) ?_ (.pure _))
  exact ((h.arguments _ _ (by omega)).le (by omega)).bind fun es => .pure _

omit h

theorem expressionsAgree (hdepth : n ≤ n') : ExpressionsAgree A n n' := by
  induction n generalizing n' with
  | zero => constructor <;> intros <;> omega
  | succ n ih =>
    obtain ⟨n', rfl⟩ := Nat.exists_eq_add_one_of_ne_zero (Nat.ne_zero_of_lt hdepth)
    have h := ih (Nat.le_of_succ_le_succ hdepth)
    refine ⟨fun len hlen => ?_, fun len levels hlevels hlen => ?_,
      fun len level tighter left hlevels hlen => ?_, fun len hlen => ?_,
      fun _ callee hlen => agrees_calls h callee hlen,
      fun _ count hlen => agrees_arguments h count hlen, fun _ hlen => agrees_primary h hlen⟩
    · rw [expression, expression]
      refine .pos fun hpos => (h.operation len _ (List.suffix_refl _) ?_).bind fun target =>
        .accept (by decide) (fun equals _ _ => ?_) (.pure target)
      · have hcount : Level.all.length = 6 := rfl
        omega
      · exact (h.expression _ (by omega)).back.back.bind fun value => agrees_assignment _ _ _
    · cases levels with
      | nil =>
        rw [operation, operation]
        exact h.unary _ (Nat.le_of_succ_le_succ hlen)
      | cons level tighter =>
        rw [operation, operation]
        rw [List.length_cons] at hlen
        refine .pos fun hpos =>
          (h.operation _ _ ((List.suffix_cons level tighter).trans hlevels) (by omega)).bind
            fun left => h.operations _ _ _ _ hlevels (by omega)
    · rw [operations, operations]
      have hcount : tighter.length < 6 := hlevels.length_le
      refine .pos fun hpos => .acceptAny (Level.operators_ne_semicolon hlevels) (fun op _ _ => ?_)
        (.pure left)
      exact (h.operation _ _ ((List.suffix_cons level tighter).trans hlevels) (by omega)).bind
        fun right => (h.operations _ _ _ _ hlevels (by omega)).le (by omega)
    · rw [unary, unary]
      refine .pos fun hpos => .acceptAny (by decide) (fun op _ _ => ?_) ?_
      · exact ((h.unary _ (by omega)).le (by omega)).bind fun e => .pure _
      · exact (h.primary _ (by omega)).bind fun callee => h.calls _ _ (by omega)

/-! ### Statements -/

section
variable (hdepth : n ≤ n')
include hdepth

theorem agrees_expression (hlen : 16 * len + 10 ≤ n) :
    Agrees A (Tail len) (Tail (len - 1)) (expression n) (expression n') :=
  (expressionsAgree hdepth).expression len hlen

theorem agrees_initialValue (hlen : 16 * len ≤ n) :
    Agrees A (Tail len) (Tail len) (initialValue n) (initialValue n') :=
  .pos fun hpos => .ifPunct (by decide)
    ((agrees_expression hdepth (by omega)).back.back.bind fun e => .pure (some e)) (.pure none)

theorem agrees_varDeclaration (hlen : 16 * len ≤ n) :
    Agrees A (Tail len) (· = []) (varDeclaration n) (varDeclaration n') :=
  (agrees_expect (by decide) _).bind fun name =>
    (agrees_initialValue hdepth (by omega)).bind fun initial =>
    (agrees_expectSemicolon _).bind fun _ => .pure _

theorem agrees_expressionStatement (hlen : 16 * len + 10 ≤ n) :
    Agrees A (Tail len) (· = []) (expressionStatement n) (expressionStatement n') :=
  (agrees_expression hdepth hlen).bind fun _ => (agrees_expectSemicolon _).bind fun _ => .pure _

theorem agrees_printStatement (hlen : 16 * len + 10 ≤ n) :
    Agrees A (Tail len) (· = []) (printStatement n) (printStatement n') :=
  (agrees_expression hdepth hlen).bind fun _ => (agrees_expectSemicolon _).bind fun _ => .pure _

theorem agrees_returnStatement (word : Token) (hlen : 16 * len + 10 ≤ n) :
    Agrees A (Tail len) (· = []) (returnStatement n word) (returnStatement n' word) :=
  (agrees_expression hdepth hlen).back.whenNot.bind fun _ =>
    (agrees_expectSemicolon _).bind fun _ => .pure _

theorem agrees_ifStatement {statement statement' : Rule Stmt} (hlen : 16 * len + 10 ≤ n)
    (h : ∀ m ≤ len, Agrees A (Tail m) (· = []) statement statement') :
    Agrees A (Tail len) (· = []) (ifStatement n statement) (ifStatement n' statement') :=
  (agrees_expectPunct (by decide) _).bind fun _ =>
    (agrees_expression hdepth (by omega)).bind fun e =>
    (agrees_expectPunct (by decide) _).bind fun _ => (h _ (by omega)).bind fun s =>
    .withoutElse (.pure _)

theorem agrees_whileStatement {statement statement' : Rule Stmt} (hlen : 16 * len + 10 ≤ n)
    (h : ∀ m ≤ len, Agrees A (Tail m) (· = []) statement statement') :
    Agrees A (Tail len) (· = []) (whileStatement n statement) (whileStatement n' statement') :=
  (agrees_expectPunct (by decide) _).bind fun _ =>
    (agrees_expression hdepth (by omega)).bind fun e =>
    (agrees_expectPunct (by decide) _).bind fun _ => (h _ (by omega)).bind fun s => .pure _

omit hdepth in
theorem agrees_parameters (count : Nat) (hdepth : n ≤ n') (hlen : 16 * len + 1 ≤ n) :
    Agrees A (Tail len) (Tail (len - 1)) (parameters n count) (parameters n' count) := by
  induction n generalizing n' len count with
  | zero => omega
  | succ n ih =>
    obtain ⟨n', rfl⟩ := Nat.exists_eq_add_one_of_ne_zero (Nat.ne_zero_of_lt hdepth)
    rw [parameters, parameters]
    refine .pos fun hpos => .limited ((agrees_expect (by decide) _).bind fun name =>
      .ifPunct (by decide) ?_ (.pure _))
    exact (ih _ (Nat.le_of_succ_le_succ hdepth) (by omega)).back.back.bind fun names => .pure _

/-- Without an opening brace no function is read to its body. -/
theorem agrees_function (sort : FunctionSort) {body body' : Rule (List Stmt)}
    (hlen : 16 * len + 1 ≤ n) :
    Agrees A (Tail len) (· = []) (function n sort body) (function n' sort body') :=
  (agrees_expect (by decide) _).bind fun name => (agrees_expectPunct (by decide) _).bind fun _ =>
    (agrees_parameters _ hdepth (by omega)).back.whenNot.bind fun params =>
    (agrees_expectPunct (by decide) _).bind fun _ => (agrees_expectBrace _).bind fun _ => .absurd

end

theorem agrees_heritage : Agrees A (Tail len) (Tail len) heritage heritage :=
  .ifPunct (by decide) ((agrees_expect (by decide) _).back.back.bind fun parent =>
    (agrees_number parent).bind fun ref => .pure (some ref)) (.pure none)

theorem agrees_classDeclaration {methods methods' : Rule (List FunctionDecl)} :
    Agrees A (Tail len) (· = []) (classDeclaration methods) (classDeclaration methods') :=
  (agrees_expect (by decide) _).bind fun name => agrees_heritage.bind fun parent =>
    (agrees_expectBrace _).bind fun _ => .absurd

theorem agrees_statement (hdepth : n ≤ n') (hlen : 16 * len + 11 ≤ n) :
    Agrees A (Tail len) (· = []) (statement n) (statement n') := by
  induction n generalizing n' len with
  | zero => omega
  | succ n ih =>
    obtain ⟨n', rfl⟩ := Nat.exists_eq_add_one_of_ne_zero (Nat.ne_zero_of_lt hdepth)
    have hdepth : n ≤ n' := Nat.le_of_succ_le_succ hdepth
    rw [statement, statement]
    refine .pos fun hpos => .bar (by decide) (by decide) ?_
    have h (m : Nat) (hm : m ≤ len - 1) :
        Agrees A (Tail m) (· = []) (statement n) (statement n') := ih hdepth (by omega)
    refine .accept (by decide) (fun _ _ _ => agrees_ifStatement hdepth (by omega) h) ?_
    refine .accept (by decide) (fun _ _ _ => agrees_whileStatement hdepth (by omega) h) ?_
    refine .accept (by decide) (fun word _ _ => agrees_returnStatement hdepth word (by omega)) ?_
    dsimp only
    simp only [acceptPunct, bind_assoc, pure_bind]
    refine .bar (by decide) (by decide) ?_
    exact .accept (by decide) (fun _ _ _ => agrees_printStatement hdepth (by omega))
      (agrees_expressionStatement hdepth (by omega))

/-- A rule that fails in a segment goes on behind it, or nearer to its end. -/
theorem Agrees.recovering (h : Agrees A (Tail c.ahead.length) (· = []) x x')
    (hc : Segment c.ahead) : ∃ a c₁, recovering x c = .ok a c₁ ∧
      recovering x' (c.amid A) = .ok a (c₁.amid A) ∧ (c₁.ahead = [] ∨ Segment c₁.ahead) ∧
      c₁.ahead.length < c.ahead.length := by
  obtain ⟨a, c₁, hrun, hrun', hend, -⟩ | ⟨found, c₁, hrun, hrun', htail⟩ := h c ⟨hc, le_rfl⟩
  · refine ⟨some a, c₁, ?_, ?_, .inl hend, ?_⟩
    · rw [Rule.recovering, hrun]
    · rw [Rule.recovering, hrun']
    · rw [hend]
      exact hc.length_pos
  · refine ⟨none, { c₁ with ahead := recoverAt c₁.ahead, faults := c₁.faults ++ [found] }, ?_, ?_,
      htail.segment.recoverAt,
      (recoverAt_length_lt htail.segment.ne_nil).trans_le htail.length_le⟩
    · rw [Rule.recovering, hrun]
    · rw [Rule.recovering, hrun']
      simp [Cursor.amid, htail.segment.recoverAt_append]

/-- A declaration that begins in a segment is read or given up in it. -/
theorem declaration_of_segment (A : Around) (hc : Segment c.ahead) (hdepth : n ≤ n')
    (hlen : 16 * c.ahead.length + 12 ≤ n) : ∃ first c₁, declaration n c = .ok first c₁ ∧
      declaration n' (c.amid A) = .ok first (c₁.amid A) ∧ (c₁.ahead = [] ∨ Segment c₁.ahead) ∧
      c₁.ahead.length < c.ahead.length := by
  cases n with
  | zero => omega
  | succ n =>
    obtain ⟨n', rfl⟩ := Nat.exists_eq_add_one_of_ne_zero (Nat.ne_zero_of_lt hdepth)
    have hdepth : n ≤ n' := Nat.le_of_succ_le_succ hdepth
    rw [declaration, declaration]
    refine Agrees.recovering (.pos fun hpos => .accept (by decide)
      (fun _ _ _ => agrees_classDeclaration) ?_) hc
    refine .accept (by decide) (fun _ _ _ => ?_) ?_
    · exact (agrees_function hdepth _ (by omega)).bind fun decl => .pure _
    · exact .accept (by decide) (fun _ _ _ => agrees_varDeclaration hdepth (by omega))
        (agrees_statement hdepth (by omega))

/-- A rule goes on from where another one ends alike. -/
theorem bind_eq_of_eq {d : Cursor} (h : x c = x' d) : (x >>= f) c = (x' >>= f) d := by
  simp only [bind, EStateM.bind, h]

/-- Where a token is left, a program goes on with a declaration. -/
theorem program_of_declaration {first : Option Stmt} (hne : c.ahead ≠ [])
    (hrun : declaration n c = .ok first c₁) :
    program (n + 1) c = (program n >>= fun others => Pure.pure (first.toList ++ others)) c₁ := by
  rw [program, bind_of_ok (atEnd_apply c), if_neg (by simpa using hne), bind_of_ok hrun]

/-- A whole segment is read as it is read alone, and then what stands behind it. -/
theorem program_of_segment (A : Around) (hc : c.ahead = [] ∨ Segment c.ahead)
    (hn : parsingDepth c.ahead.length ≤ n)
    (hn' : parsingDepth (c.ahead.length + A.behind.length) ≤ n') (hdepth : n ≤ n') :
    ∃ ss c₁ k, program n c = .ok ss c₁ ∧ c₁.ahead = [] ∧ parsingDepth A.behind.length ≤ k ∧
      program n' (c.amid A) = (program k >>= fun others => pure (ss ++ others)) (c₁.amid A) := by
  unfold parsingDepth at *
  induction n generalizing n' c with
  | zero => omega
  | succ n ih =>
    obtain hend | hsegment := hc
    · refine ⟨[], c, n', program_end hend, hend, by omega, ?_⟩
      simp
    · obtain ⟨n', rfl⟩ := Nat.exists_eq_add_one_of_ne_zero (Nat.ne_zero_of_lt hdepth)
      have hdepth : n ≤ n' := Nat.le_of_succ_le_succ hdepth
      obtain ⟨first, c₁, hrun, hrun', hc₁, hless⟩ :=
        declaration_of_segment A hsegment hdepth (by omega)
      obtain ⟨ss, c₂, k, hrest, hend, hk, hrest'⟩ := ih hc₁ (by omega) (by omega) hdepth
      refine ⟨first.toList ++ ss, c₂, k, ?_, hend, hk, ?_⟩
      · rw [program_of_declaration hsegment.ne_nil hrun, bind_of_ok hrest]
        rfl
      · rw [program_of_declaration (by simp [Cursor.amid, hsegment.ne_nil]) hrun',
          bind_eq_of_eq hrest', bind_assoc]
        simp only [pure_bind, List.append_assoc]

end Rule

/-- Segments are read one after the other, each as it is read alone. -/
theorem program_of_segments {segments : List (List Token)} (h : ∀ s ∈ segments, Segment s)
    (finish finish' : Token) (i j : NodeId) (before : List Diagnostic) {n : Nat}
    (hn : parsingDepth segments.flatten.length ≤ n) :
    ∃ ss c, Rule.program n ⟨segments.flatten, finish, i, before⟩ = .ok ss c ∧
      c.faults = before ++ segments.flatMap (fun s => (parse s finish' j).faults) ∧
      Stmt.allBare ss = segments.flatMap fun s => Stmt.allBare (parse s finish' j).program := by
  induction segments generalizing i before n with
  | nil =>
    obtain ⟨n, rfl⟩ : ∃ k, n = k + 1 := Nat.exists_eq_add_one_of_ne_zero (by rintro rfl; cases hn)
    exact ⟨[], _, Rule.program_end rfl, by simp, rfl⟩
  | cons s rest ih =>
    obtain ⟨hs, hrest⟩ := List.forall_mem_cons.mp h
    have hnext : ∀ t ∈ rest.flatten.head?, t.terminal ≠ .keyword .elseWord := by
      cases rest with
      | nil => simp
      | cons u us =>
        have hu : Segment u := hrest u List.mem_cons_self
        rw [List.flatten_cons, List.head?_append_of_ne_nil _ hu.ne_nil]
        exact fun t => hu.head_ne_else
    rw [List.flatten_cons, List.length_append] at hn
    have hdepth : parsingDepth s.length ≤ n :=
      (Nat.mul_le_mul_left 16 (by omega)).trans hn
    obtain ⟨ss, c, k, hrun, hend, hk, hrun'⟩ :=
      Rule.program_of_segment ⟨before, rest.flatten, finish, hnext⟩ (c := ⟨s, finish', i, []⟩)
        (.inr hs) le_rfl hn hdepth
    have halone : parse s finish' i = ⟨ss, c.faults, c.nextId⟩ := by rw [parse, hrun]
    obtain ⟨hfaults, hprogram⟩ := parse_renumbered s finish' i j
    rw [halone] at hfaults hprogram
    obtain ⟨ss', c', hothers, hfaults', hprogram'⟩ := ih hrest c.nextId (before ++ c.faults) hk
    have hcursor : c.amid ⟨before, rest.flatten, finish, hnext⟩ =
        ⟨rest.flatten, finish, c.nextId, before ++ c.faults⟩ := by
      rw [Cursor.amid, hend, List.nil_append]
    refine ⟨ss ++ ss', c', ?_, ?_, ?_⟩
    · rw [hcursor, bind_of_ok hothers] at hrun'
      simpa [Cursor.amid] using hrun'
    · rw [hfaults', List.flatMap_cons, hfaults, List.append_assoc]
    · rw [Stmt.allBare_append, List.flatMap_cons, hprogram, hprogram']

/-- The parser tells apart the segments of its tokens. What it finds wrong in them is what it finds
wrong in each one alone, and what it makes of them is, but for the numbers of occurrences, what it makes
of each one alone. -/
theorem parse_segments {segments : List (List Token)} (h : ∀ s ∈ segments, Segment s)
    (finish finish' : Token) (i j : NodeId) :
    (parse segments.flatten finish i).faults =
        segments.flatMap (fun s => (parse s finish' j).faults) ∧
      Stmt.allBare (parse segments.flatten finish i).program =
        segments.flatMap fun s => Stmt.allBare (parse s finish' j).program := by
  obtain ⟨ss, c, hrun, hfaults, hprogram⟩ := program_of_segments h finish finish' i j [] le_rfl
  rw [parse, hrun]
  exact ⟨hfaults, hprogram⟩

/-- In `print; var x;` the first segment is at fault, and the second one is read. -/
theorem parse_segments_behind_fault :
    let semi : Token := ⟨.punct .semicolon, ";", 1⟩
    let x : Token := ⟨.identifier, "x", 1⟩
    let segments := [[⟨.keyword .printWord, "print", 1⟩, semi], [⟨.keyword .varWord, "var", 1⟩, x, semi]]
    let result := parse segments.flatten ⟨.eof, "", 1⟩ 0
    (∀ s ∈ segments, Segment s) ∧ result.faults = [.parse semi .expression] ∧
      Stmt.allBare result.program = [.var x none] := by
  intro semi x segments result
  have h : ∀ s ∈ segments, Segment s := by
    rw [List.forall_mem_cons, List.forall_mem_singleton]
    exact ⟨.cons (by decide) (.semicolon rfl),
      .cons (by decide) (.cons (by decide) (.semicolon rfl))⟩
  obtain ⟨hfaults, hprogram⟩ := parse_segments h ⟨.eof, "", 1⟩ ⟨.eof, "", 1⟩ 0 0
  exact ⟨h, hfaults.trans (by cbv), hprogram.trans (by cbv)⟩

end Treewalk
