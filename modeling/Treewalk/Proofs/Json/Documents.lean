import Treewalk.Proofs.Numbers.Doubles

/-! The text of a document. It is well-formed, and it determines the document, but for the doubles that
are not finite: these are written as null. -/

namespace Treewalk

open Json

/-- What holds of a document if it holds of its parts. -/
structure Document.Inherited (P : Document → Prop) : Prop where
  null : P .null
  string contents : P (.string contents)
  natural value : P (.natural value)
  double value : P (.double value)
  array {items} : (∀ d ∈ items, P d) → P (.array items)
  object {members : List Member} : (∀ m ∈ members, P m.value) → P (.object members)

mutual

/-- What is inherited holds of all documents. -/
theorem Document.Inherited.all {P : Document → Prop} (h : Inherited P) : (d : Document) → P d
  | .null => h.null
  | .string contents => h.string contents
  | .natural value => h.natural value
  | .double value => h.double value
  | .array items => h.array (h.allItems items)
  | .object members => h.object (h.allMembers members)

theorem Document.Inherited.allItems {P : Document → Prop} (h : Inherited P) :
    (items : List Document) → ∀ d ∈ items, P d
  | [] => fun _ hd => absurd hd List.not_mem_nil
  | item :: rest => List.forall_mem_cons.mpr ⟨h.all item, h.allItems rest⟩

theorem Document.Inherited.allMembers {P : Document → Prop} (h : Inherited P) :
    (members : List Member) → ∀ m ∈ members, P m.value
  | [] => fun _ hm => absurd hm List.not_mem_nil
  | ⟨_, value⟩ :: rest => List.forall_mem_cons.mpr ⟨h.all value, h.allMembers rest⟩

end

mutual

/-- The document with null for the doubles that are not finite. -/
def Document.plain : Document → Document
  | .null => .null
  | .string contents => .string contents
  | .natural value => .natural value
  | .double value =>
    match Reading.ofFloat value with
    | .finite _ => .double value
    | _ => .null
  | .array items => .array (Document.plainItems items)
  | .object members => .object (Document.plainMembers members)

def Document.plainItems : List Document → List Document
  | [] => []
  | item :: rest => item.plain :: Document.plainItems rest

def Member.plain : Member → Member
  | ⟨name, value⟩ => ⟨name, value.plain⟩

def Document.plainMembers : List Member → List Member
  | [] => []
  | member :: rest => member.plain :: Document.plainMembers rest

end

namespace Document

/-- What is written without quotes and brackets, none of it a double that is not finite, and its text. -/
inductive Bare : Document → List Char → Prop
  | null : Bare .null ['n', 'u', 'l', 'l']
  | natural (n : Nat) : Bare (.natural n) (Nat.toDigits 10 n)
  | double {x d} : Reading.ofFloat x = .finite d → Bare (.double x) (doubleText x)

end Document

/-- The characters of a number. -/
theorem Json.Number.chars {cs : List Char} (h : Number cs) :
    ∀ c ∈ cs, c.isDigit = true ∨ c ∈ ['-', '+', '.', 'e', 'E'] := by
  have hwhole {ws : List Char} (h : Whole ws) : ∀ c ∈ ws, c.isDigit = true := by
    cases h with
    | zero => exact List.forall_mem_singleton.mpr (by decide)
    | digits hc hne hds => exact List.forall_mem_cons.mpr ⟨hc, hds⟩
  have hmagnitude {cs : List Char} (h : Magnitude cs) :
      ∀ c ∈ cs, c.isDigit = true ∨ c ∈ ['-', '+', '.', 'e', 'E'] := by
    obtain ⟨hws, hfs, hes⟩ := h
    refine List.forall_mem_append.mpr ⟨List.forall_mem_append.mpr ⟨fun c hc => ?_, ?_⟩, ?_⟩
    · exact .inl (hwhole hws c hc)
    · cases hfs with
      | none => simp
      | point hds => exact List.forall_mem_cons.mpr ⟨by simp, fun c hc => .inl (hds.2 c hc)⟩
    · cases hes with
      | none => simp
      | power hmark hsign hds =>
        refine List.forall_mem_append.mpr ⟨List.forall_mem_cons.mpr ⟨?_, ?_⟩, ?_⟩
        · simp only [List.mem_cons, List.not_mem_nil, or_false] at hmark
          obtain rfl | rfl := hmark <;> simp
        · simp only [List.mem_cons, List.not_mem_nil, or_false] at hsign
          obtain rfl | rfl | rfl := hsign <;> simp
        · exact fun c hc => .inl (hds.2 c hc)
  cases h with
  | positive h => exact hmagnitude h
  | negative h => exact List.forall_mem_cons.mpr ⟨by simp, hmagnitude h⟩

/-- The text of a finite double shows that it is no count: it has a point or an exponent. -/
theorem Dyadic.mem_magnitudeText (d : Dyadic) : '.' ∈ d.magnitudeText ∨ 'e' ∈ d.magnitudeText := by
  unfold magnitudeText
  dsimp only
  split
  · left
    unfold Decimal.pointed
    split <;> simp
  · right
    simp [Decimal.scientific]

namespace Document

variable {d e : Document} {s t u v : List Char}

theorem Bare.number (h : Bare d s) : d = .null ∧ s = ['n', 'u', 'l', 'l'] ∨ Number s := by
  cases h with
  | null => exact .inl ⟨rfl, rfl⟩
  | natural n =>
    right
    have hparts {ws : List Char} (h : Whole ws) : Number ws := by
      have hnumber := Number.positive (Magnitude.parts h .none .none)
      rwa [List.append_nil, List.append_nil] at hnumber
    by_cases hn : n = 0
    · rw [hn]
      exact hparts .zero
    · obtain ⟨c, rest, hdigits, hc⟩ := head_toDigits_ne hn
      have hall : ∀ c ∈ Nat.toDigits 10 n, c.isDigit = true :=
        fun _ hc => Nat.isDigit_of_mem_toDigits (by decide) (by decide) hc
      rw [hdigits, List.forall_mem_cons] at hall
      rw [hdigits]
      exact hparts (.digits hall.1 hc hall.2)
  | double hx => exact .inr (number_doubleText hx)

/-- What may stand in a bare text. -/
theorem Bare.chars (h : Bare d s) :
    ∀ c ∈ s, c.isDigit = true ∨ c ∈ ['-', '+', '.', 'e', 'E', 'n', 'u', 'l'] := by
  obtain ⟨-, rfl⟩ | h := h.number
  · simp
  · intro c hc
    refine (h.chars c hc).imp_right fun hmark => ?_
    simp only [List.mem_cons, List.not_mem_nil, or_false] at hmark ⊢
    tauto

theorem Bare.inj (h : Bare d s) (h' : Bare e s) : d = e := by
  have hnull {s : List Char} (h : Number s) : s ≠ ['n', 'u', 'l', 'l'] := by
    rintro rfl
    have hn := h.chars 'n' List.mem_cons_self
    simp only [List.mem_cons, List.not_mem_nil, or_false] at hn
    revert hn
    decide
  have hmark {n : Nat} {x : Float} {d : Dyadic} (hx : Reading.ofFloat x = .finite d) :
      Nat.toDigits 10 n ≠ doubleText x := by
    intro heq
    have hdigits : ∀ c ∈ doubleText x, c.isDigit = true := by
      rw [← heq]
      exact fun _ hc => Nat.isDigit_of_mem_toDigits (by decide) (by decide) hc
    have hmem {c : Char} (hc : c ∈ d.magnitudeText) : c ∈ doubleText x := by
      rw [doubleText_finite hx]
      unfold signed
      split
      · exact List.mem_cons_of_mem _ hc
      · exact hc
    obtain hpoint | hexponent := d.mem_magnitudeText
    · exact absurd (hdigits _ (hmem hpoint)) (by decide)
    · exact absurd (hdigits _ (hmem hexponent)) (by decide)
  obtain ⟨rfl, rfl⟩ | hs := h.number
  · obtain ⟨rfl, -⟩ | hs := h'.number
    · rfl
    · exact absurd rfl (hnull hs)
  · cases h with
    | null => exact absurd rfl (hnull hs)
    | natural n =>
      generalize htext : Nat.toDigits 10 n = text at h' hs
      cases h' with
      | null => exact absurd rfl (hnull hs)
      | natural m =>
        rw [← @Nat.ofDigitChars_ten_toDigits n, htext, Nat.ofDigitChars_ten_toDigits]
      | double hx => exact absurd htext (hmark hx)
    | @double x d hx =>
      generalize htext : doubleText x = text at h' hs
      cases h' with
      | null => exact absurd rfl (hnull hs)
      | natural m => exact absurd htext.symm (hmark hx)
      | double hy => rw [doubleText_inj hx hy htext]

/-- The value of a hexadecimal digit. -/
def hexValue (c : Char) : Nat :=
  if c.isDigit then c.toNat - '0'.toNat else c.toNat - 'a'.toNat + 10

/-- The character at the beginning of the contents of a string, and what is behind it. -/
def unescape : List Char → Option (Char × List Char)
  | '\\' :: 'n' :: rest => some ('\n', rest)
  | '\\' :: 'r' :: rest => some ('\r', rest)
  | '\\' :: 't' :: rest => some ('\t', rest)
  | '\\' :: 'b' :: rest => some ('\x08', rest)
  | '\\' :: 'f' :: rest => some ('\x0c', rest)
  | '\\' :: 'u' :: _ :: _ :: a :: b :: rest =>
    some (Char.ofNat (16 * hexValue a + hexValue b), rest)
  | '\\' :: c :: rest => some (c, rest)
  | c :: rest => some (c, rest)
  | [] => none

theorem ofNat_hexValue : ∀ n < 0x20,
    Char.ofNat (16 * hexValue (n / 16).digitChar + hexValue (n % 16).digitChar) = Char.ofNat n := by
  decide

/-- Escapes can be undone. -/
theorem unescape_escaped (c : Char) (rest : List Char) :
    unescape (escaped c ++ rest) = some (c, rest) := by
  unfold escaped
  split
  · rfl
  · rfl
  · rfl
  · rfl
  · rfl
  · rfl
  · rfl
  · split
    · next hcontrol =>
      have hcode := ofNat_hexValue c.toNat hcontrol
      rw [Char.ofNat_toNat] at hcode
      simp [unescape, hcode]
    · next hquote hbackslash _ _ _ _ _ hcontrol =>
      rw [List.singleton_append, unescape]
      all_goals
        intros
        contradiction

theorem escaped_inj {c c' : Char} (h : escaped c ++ u = escaped c' ++ v) : c = c' ∧ u = v := by
  have heq := congrArg unescape h
  rw [unescape_escaped, unescape_escaped] at heq
  simpa using heq

/-- No escape begins with a quote. -/
theorem escaped_ne_quote (c : Char) (rest : List Char) : escaped c ++ u ≠ '"' :: rest := by
  intro h
  have heq := congrArg unescape h
  rw [unescape_escaped, unescape] at heq
  · cases heq
    simp [escaped] at h
  all_goals
    intros
    contradiction

/-- The contents of a string end at the first quote that is not escaped. -/
theorem contents_inj {cs ds : List Char}
    (h : cs.flatMap escaped ++ '"' :: u = ds.flatMap escaped ++ '"' :: v) : cs = ds ∧ u = v := by
  induction cs generalizing ds with
  | nil =>
    cases ds with
    | nil => exact ⟨rfl, List.tail_eq_of_cons_eq h⟩
    | cons d ds =>
      rw [List.flatMap_cons, List.append_assoc] at h
      exact absurd h.symm (escaped_ne_quote _ _)
  | cons c cs ih =>
    cases ds with
    | nil =>
      rw [List.flatMap_cons, List.append_assoc] at h
      exact absurd h (escaped_ne_quote _ _)
    | cons d ds =>
      rw [List.flatMap_cons, List.flatMap_cons, List.append_assoc, List.append_assoc] at h
      obtain ⟨rfl, hrest⟩ := escaped_inj h
      obtain ⟨rfl, hbehind⟩ := ih hrest
      exact ⟨rfl, hbehind⟩

theorem toList_quoted (contents : String) :
    (quoted contents).toList = '"' :: contents.toList.flatMap escaped ++ ['"'] := by
  simp [quoted]

theorem quoted_inj {contents contents' : String}
    (h : (quoted contents).toList ++ u = (quoted contents').toList ++ v) :
    contents = contents' ∧ u = v := by
  rw [toList_quoted, toList_quoted] at h
  simp only [List.cons_append, List.append_assoc, List.cons.injEq, true_and, List.nil_append] at h
  obtain ⟨hcontents, hbehind⟩ := contents_inj h
  exact ⟨String.toList_inj.mp hcontents, hbehind⟩

/-- The characters that can follow a value: a comma or a line break, if there is any. -/
def Ends (s : List Char) : Prop := ∀ c ∈ s.head?, c = ',' ∨ c = '\n'

theorem toList_newline (depth : Nat) :
    (newline depth).toList = '\n' :: List.replicate (2 * depth) ' ' := by
  simp [newline]

/-- Bare texts end at the next comma or line break. -/
theorem Bare.cancel (h : Bare d s) (h' : Bare e t) (hu : Ends u) (hv : Ends v)
    (heq : s ++ u = t ++ v) : d = e ∧ u = v := by
  have hcut {d : Document} {s u : List Char} (h : Bare d s) (hu : Ends u) :
      (s ++ u).takeWhile (fun c => c != ',' && c != '\n') = s ∧
        (s ++ u).dropWhile (fun c => c != ',' && c != '\n') = u := by
    have hall : ∀ c ∈ s, (fun c => c != ',' && c != '\n') c = true := by
      intro c hc
      have hchar := h.chars c hc
      simp only [List.mem_cons, List.not_mem_nil, or_false] at hchar
      by_contra hmark
      obtain rfl | rfl : c = ',' ∨ c = '\n' := by simpa [or_iff_not_imp_left] using hmark
      · revert hchar
        decide
      · revert hchar
        decide
    rw [List.takeWhile_append_of_pos hall, List.dropWhile_append_of_pos hall]
    cases u with
    | nil => simp
    | cons c u =>
      obtain rfl | rfl := hu c rfl <;> simp
  obtain ⟨htake, hdrop⟩ := hcut h hu
  obtain ⟨htake', hdrop'⟩ := hcut h' hv
  rw [heq] at htake hdrop
  obtain rfl := htake.symm.trans htake'
  exact ⟨h.inj h', hdrop.symm.trans hdrop'⟩

/-- Bare texts begin with none of the marks that other values begin with. -/
theorem Bare.ne_mark {c : Char} {w : List Char} (h : Bare d s) (hu : Ends u)
    (hc : c ∈ ['"', '[', '\x7b']) : s ++ u ≠ c :: w := by
  intro heq
  simp only [List.mem_cons, List.not_mem_nil, or_false] at hc
  cases s with
  | nil =>
    subst heq
    have hmark := hu c rfl
    obtain rfl | rfl | rfl := hc <;> revert hmark <;> decide
  | cons c' s =>
    cases heq
    have hchar := h.chars c List.mem_cons_self
    simp only [List.mem_cons, List.not_mem_nil, or_false] at hchar
    obtain rfl | rfl | rfl := hc <;> revert hchar <;> decide

/-- What a document that is not bare begins with. -/
def mark? : Document → Option Char
  | .string _ => some '"'
  | .array _ => some '['
  | .object _ => some '\x7b'
  | _ => none

section
variable {α β : Type} {text : α → List Char} {plain : α → β}

/-- The parts behind the first one, one to a line. -/
def following (depth : Nat) (text : α → List Char) (as : List α) : List Char :=
  as.flatMap fun a => ',' :: ((newline depth).toList ++ text a)

/-- Parts in brackets, one to a line. -/
def bracketed (opening closing : Char) (depth : Nat) (text : α → List Char) : List α → List Char
  | [] => [opening, closing]
  | first :: rest => opening :: ((newline (depth + 1)).toList ++ (text first ++
      (following (depth + 1) text rest ++ ((newline depth).toList ++ [closing]))))

theorem following_cons (depth : Nat) (text : α → List Char) (a : α) (as : List α) :
    following depth text (a :: as) =
      ',' :: ((newline depth).toList ++ (text a ++ following depth text as)) := by
  simp [following]

theorem exists_bracketed (opening closing : Char) (depth : Nat) (text : α → List Char)
    (as : List α) : ∃ w, bracketed opening closing depth text as = opening :: w := by
  cases as with
  | nil => exact ⟨_, rfl⟩
  | cons first rest => exact ⟨_, rfl⟩

end

theorem toList_renderItems (depth : Nat) (items : List Document) :
    (renderItems depth items).toList = following depth (fun d => (d.render depth).toList) items := by
  induction items with
  | nil => simp [renderItems, following]
  | cons item rest ih => simp [renderItems, following_cons, ih]

theorem toList_renderMembers (depth : Nat) (members : List Member) :
    (renderMembers depth members).toList =
      following depth (fun m => (m.render depth).toList) members := by
  induction members with
  | nil => simp [renderMembers, following]
  | cons member rest ih => simp [renderMembers, following_cons, ih]

theorem toList_render_array (depth : Nat) (items : List Document) :
    ((array items).render depth).toList =
      bracketed '[' ']' depth (fun d => (d.render (depth + 1)).toList) items := by
  cases items with
  | nil => simp [render, bracketed]
  | cons first rest => simp [render, bracketed, toList_renderItems]

theorem toList_render_object (depth : Nat) (members : List Member) :
    ((object members).render depth).toList =
      bracketed '\x7b' '\x7d' depth (fun m => (m.render (depth + 1)).toList) members := by
  cases members with
  | nil => simp [render, bracketed]
  | cons first rest => simp [render, bracketed, toList_renderMembers]

theorem toList_render_member (depth : Nat) (member : Member) :
    (member.render depth).toList =
      (quoted member.name).toList ++ ':' :: ' ' :: (member.value.render depth).toList := by
  obtain ⟨name, value⟩ := member
  simp [Member.render]

/-- A document is bare, or it begins with its mark. -/
theorem bare_or_mark (d : Document) (depth : Nat) :
    (d.mark? = none ∧ Bare d.plain (d.render depth).toList) ∨
      ∃ c w, d.mark? = some c ∧ c ∈ ['"', '[', '\x7b'] ∧ (d.render depth).toList = c :: w := by
  cases d with
  | null => exact .inl ⟨rfl, by simpa [render, plain] using Bare.null⟩
  | natural n => exact .inl ⟨rfl, by simpa [render, plain, Nat.repr_eq_ofList_toDigits] using .natural n⟩
  | double x =>
    refine .inl ⟨rfl, ?_⟩
    rw [render, plain, String.toList_ofList]
    split
    · next hx => exact .double hx
    · next hx =>
      have htext : doubleText x = ['n', 'u', 'l', 'l'] := by
        unfold doubleText
        split
        · next d hd => exact absurd hd (hx d)
        · rfl
      rw [htext]
      exact .null
  | string contents =>
    exact .inr ⟨_, contents.toList.flatMap escaped ++ ['"'], rfl, by simp, toList_quoted contents⟩
  | array items =>
    obtain ⟨w, hw⟩ := exists_bracketed '[' ']' depth (fun d => (d.render (depth + 1)).toList) items
    exact .inr ⟨_, w, rfl, by simp, (toList_render_array depth items).trans hw⟩
  | object members =>
    obtain ⟨w, hw⟩ := exists_bracketed '\x7b' '\x7d' depth
      (fun m => (Member.render (depth + 1) m).toList) members
    exact .inr ⟨_, w, rfl, by simp, (toList_render_object depth members).trans hw⟩

/-- Texts that begin alike are those of documents with one mark; if they have none, they are the same
but for what is not finite. -/
theorem same_mark {depth : Nat} (hu : Ends u) (hv : Ends v)
    (h : (d.render depth).toList ++ u = (e.render depth).toList ++ v) :
    d.mark? = e.mark? ∧ (d.mark? = none → d.plain = e.plain ∧ u = v) := by
  obtain ⟨hd, hbare⟩ | ⟨c, w, hd, hc, htext⟩ := d.bare_or_mark depth
  · obtain ⟨he, hbare'⟩ | ⟨c', w', he, hc', htext'⟩ := e.bare_or_mark depth
    · exact ⟨hd.trans he.symm, fun _ => hbare.cancel hbare' hu hv h⟩
    · rw [htext'] at h
      exact absurd h (hbare.ne_mark hu hc')
  · obtain ⟨he, hbare'⟩ | ⟨c', w', he, hc', htext'⟩ := e.bare_or_mark depth
    · rw [htext] at h
      exact absurd h.symm (hbare'.ne_mark hv hc)
    · rw [htext, htext'] at h
      obtain ⟨rfl, -⟩ := List.cons.inj h
      exact ⟨hd.trans he.symm, fun hnone => by cases hd.symm.trans hnone⟩

/-- In front of a comma or a line break, no other document has this text, but for what is not
finite. -/
def Decodes (d : Document) : Prop := ∀ (depth : Nat) (e : Document) (u v : List Char),
  Ends u → Ends v → (d.render depth).toList ++ u = (e.render depth).toList ++ v →
    d.plain = e.plain ∧ u = v

theorem head_newline (depth : Nat) (w : List Char) :
    ((newline depth).toList ++ w).head? = some '\n' := by
  rw [toList_newline]
  rfl

section
variable {α β : Type} {text : α → List Char} {plain : α → β} {depth : Nat} {as bs : List α}

/-- In front of a comma or a line break, no other part has this text, but for what is not finite. -/
def PartDecodes (text : α → List Char) (plain : α → β) (a : α) : Prop :=
  ∀ (b : α) (u v : List Char), Ends u → Ends v → text a ++ u = text b ++ v →
    plain a = plain b ∧ u = v

/-- What follows a part. -/
theorem ends_following (as : List α) (hu : u.head? = some '\n') :
    Ends (following depth text as ++ u) := by
  intro c hc
  cases as with
  | nil => exact .inr (by simpa [following, hu] using hc.symm)
  | cons a as =>
    rw [following_cons] at hc
    cases hc
    exact .inl rfl

/-- If single parts can be told by their texts, so can all those behind the first one, in front of a
line break. -/
theorem following_inj (has : ∀ a ∈ as, PartDecodes text plain a) (hu : u.head? = some '\n')
    (hv : v.head? = some '\n') (h : following depth text as ++ u = following depth text bs ++ v) :
    as.map plain = bs.map plain ∧ u = v := by
  induction as generalizing bs with
  | nil =>
    cases bs with
    | nil => exact ⟨rfl, h⟩
    | cons b bs =>
      rw [following_cons] at h
      obtain rfl : u = _ := h
      cases hu
  | cons a as ih =>
    obtain ⟨ha, has⟩ := List.forall_mem_cons.mp has
    cases bs with
    | nil =>
      rw [following_cons] at h
      obtain rfl : _ = v := h
      cases hv
    | cons b bs =>
      rw [following_cons, following_cons] at h
      simp only [List.cons_append, List.append_assoc, List.cons.injEq, true_and] at h
      obtain ⟨hfirst, hbehind⟩ := ha b _ _ (ends_following as hu) (ends_following bs hv)
        (List.append_cancel_left h)
      obtain ⟨hrest, hend⟩ := ih has hbehind
      exact ⟨by rw [List.map_cons, List.map_cons, hfirst, hrest], hend⟩

/-- If parts can be told by their texts, so can lists of them in brackets. -/
theorem bracketed_inj {opening closing : Char} (hclosing : closing ≠ '\n')
    (has : ∀ a ∈ as, PartDecodes text plain a)
    (h : bracketed opening closing depth text as ++ u =
      bracketed opening closing depth text bs ++ v) : as.map plain = bs.map plain ∧ u = v := by
  cases as with
  | nil =>
    cases bs with
    | nil => exact ⟨rfl, List.append_cancel_left h⟩
    | cons b bs => simp [bracketed, toList_newline, hclosing] at h
  | cons a as =>
    obtain ⟨ha, has⟩ := List.forall_mem_cons.mp has
    cases bs with
    | nil => simp [bracketed, toList_newline, hclosing.symm] at h
    | cons b bs =>
      simp only [bracketed, List.cons_append, List.append_assoc, List.cons.injEq, true_and] at h
      obtain ⟨hfirst, hbehind⟩ := ha b _ _ (ends_following as (head_newline depth _))
        (ends_following bs (head_newline depth _)) (List.append_cancel_left h)
      obtain ⟨hrest, hend⟩ :=
        following_inj has (head_newline depth _) (head_newline depth _) hbehind
      refine ⟨by rw [List.map_cons, List.map_cons, hfirst, hrest], ?_⟩
      exact (List.cons.inj (List.append_cancel_left hend)).2

end

theorem plainItems_eq_map (items : List Document) : plainItems items = items.map Document.plain := by
  induction items with
  | nil => rfl
  | cons item rest ih => rw [plainItems, ih, List.map_cons]

theorem plainMembers_eq_map (members : List Member) :
    plainMembers members = members.map Member.plain := by
  induction members with
  | nil => rfl
  | cons member rest ih => rw [plainMembers, ih, List.map_cons]

theorem decodes_array {items : List Document} (hitems : ∀ d ∈ items, d.Decodes) :
    (array items).Decodes := by
  intro depth e u v hu hv h
  have hmark := (same_mark hu hv h).1
  cases e with
  | array items' =>
    rw [toList_render_array, toList_render_array] at h
    obtain ⟨hplain, hend⟩ := bracketed_inj (by decide) (fun d hd => hitems d hd (depth + 1)) h
    exact ⟨by rw [plain, plain, plainItems_eq_map, plainItems_eq_map, hplain], hend⟩
  | _ => cases hmark

/-- A name and a value determine a member. -/
theorem member_decodes {depth : Nat} {m : Member} (hm : m.value.Decodes) :
    PartDecodes (fun m => (Member.render depth m).toList) Member.plain m := by
  intro m' u v hu hv h
  obtain ⟨name, value⟩ := m
  obtain ⟨name', value'⟩ := m'
  dsimp only at h
  rw [toList_render_member, toList_render_member, List.append_assoc, List.append_assoc] at h
  obtain ⟨hname, hvalue⟩ := quoted_inj h
  simp only [List.cons_append, List.cons.injEq, true_and] at hvalue
  obtain ⟨hvalue, hend⟩ := hm depth value' _ _ hu hv hvalue
  obtain rfl : name = name' := hname
  exact ⟨congrArg (Member.mk name) hvalue, hend⟩

theorem decodes_object {members : List Member} (hmembers : ∀ m ∈ members, m.value.Decodes) :
    (object members).Decodes := by
  intro depth e u v hu hv h
  have hmark := (same_mark hu hv h).1
  cases e with
  | object members' =>
    rw [toList_render_object, toList_render_object] at h
    obtain ⟨hplain, hend⟩ := bracketed_inj (by decide) (fun m hm => member_decodes (hmembers m hm)) h
    exact ⟨by rw [plain, plain, plainMembers_eq_map, plainMembers_eq_map, hplain], hend⟩
  | _ => cases hmark

theorem decodes_string (contents : String) : (string contents).Decodes := by
  intro depth e u v hu hv h
  have hmark := (same_mark hu hv h).1
  cases e with
  | string contents' =>
    rw [render, render] at h
    obtain ⟨rfl, hbehind⟩ := quoted_inj h
    exact ⟨rfl, hbehind⟩
  | _ => cases hmark

/-- Bare documents can be told by their texts. -/
theorem decodes_bare (h : d.mark? = none) : d.Decodes :=
  fun _ _ _ _ hu hv heq => (same_mark hu hv heq).2 h

/-- Documents can be told by their texts. -/
theorem decodes (d : Document) : d.Decodes := by
  have hinherited : Inherited Decodes := {
    null := decodes_bare rfl
    string := decodes_string
    natural := fun _ => decodes_bare rfl
    double := fun _ => decodes_bare rfl
    array := decodes_array
    object := decodes_object }
  exact hinherited.all d

/-- The text of a document determines it, but for what is not finite. -/
theorem pretty_inj (h : d.pretty = e.pretty) : d.plain = e.plain := by
  have hnil : Ends [] := fun c hc => by cases hc
  exact (d.decodes 0 e [] [] hnil hnil (congrArg (·.toList ++ []) h)).1

end Document

end Treewalk
