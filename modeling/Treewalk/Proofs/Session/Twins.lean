import Treewalk.Proofs.Resolution.Alike
import Treewalk.Proofs.Session.Calls
import Treewalk.Proofs.Twins.Programs

/-! Twin sessions. Two sessions that were asked the same, in texts whose tokens stand for each other,
are told apart by nothing that they print or report, even if one of them has spent numbers on texts
that the other has not seen. -/

namespace Treewalk

/-- Which token may stand for which. -/
structure Token.Matching where
  Matches : Token → Token → Prop
  sameText : ∀ t t', Matches t t' → t.SameText t'

/-- A token stands for itself. -/
def Token.Matching.same : Token.Matching where
  Matches t t' := t' = t
  sameText := Token.sameText_of_eq

namespace Disguise

variable {T : Token.Matching} {place : NodeId → NodeId → Option Nat → Prop}

/-- Programs may differ in numbers and lines, and in nothing else. -/
def plain (T : Token.Matching) (place : NodeId → NodeId → Option Nat → Prop) : Disguise where
  name := id
  place := place
  token := T.Matches
  name_name _ := rfl
  name_spelling _ := rfl
  sameText := T.sameText

theorem plain_plain : (plain T place).Plain := fun _ => rfl

/-- Occurrences are numbered from `i` on, or from `i'` on. -/
def counted (T : Token.Matching) (i i' : NodeId) : Disguise :=
  plain T fun id id' _ => ∃ n, id = i + n ∧ id' = i' + n

theorem counts_counted (T : Token.Matching) (i i' : NodeId) : (counted T i i').Counts i i' :=
  fun n => ⟨none, n, rfl, rfl⟩

/-- Occurrences that `V` relates stand for each other, with the distances `D`. -/
def resolved (T : Token.Matching) (V : NodeId → NodeId → Prop) (D : Distances) : Disguise :=
  plain T fun id id' d => V id id' ∧ D[id]? = d

/-- What is resolved may be resolved anew, with more tokens and occurrences being related. -/
theorem resolved_within {T' : Token.Matching} {V V' : NodeId → NodeId → Prop} {D D' : Distances}
    (hT : ∀ t t', T.Matches t t' → T'.Matches t t') (hV : ∀ id id', V id id' → V' id id') :
    (resolved T V D).Within (resolved T' V' D') fun _ => True :=
  Plain.within plain_plain plain_plain hT fun id _ _ _ h => ⟨D'[id]?, hV _ _ h.1, rfl⟩

end Disguise

/-- Two texts with tokens that stand for each other, and with the same lexical faults. -/
structure Source.Alike (T : Token.Matching) (source source' : String) : Prop where
  tokens : List.Forall₂ T.Matches (Source.tokens source) (Source.tokens source')
  finish : T.Matches (Source.endMark source) (Source.endMark source')
  faults : Source.faults source' = Source.faults source

theorem Source.mem_stream_of_mem_tokens {source : String} {t : Token}
    (h : t ∈ Source.tokens source) : .token t ∈ Source.stream source := by
  obtain ⟨item, hitem, heq⟩ := List.mem_filterMap.mp h
  cases item with
  | fault => cases heq
  | token u =>
    cases heq
    exact List.mem_append_left _ hitem

/-- A text is like itself if its tokens may stand for themselves. -/
theorem Source.Alike.refl {T : Token.Matching} {source : String}
    (h : ∀ t, .token t ∈ Source.stream source → T.Matches t t) : Source.Alike T source source where
  tokens := List.forall₂_same.mpr fun t ht => h t (Source.mem_stream_of_mem_tokens ht)
  finish := h _ (by simp [Source.stream])
  faults := rfl

theorem Source.Alike.same (source : String) : Source.Alike .same source source :=
  .refl fun _ _ => rfl

/-- The same halt, at tokens of which the second stands for the first one. -/
inductive Halt.Like (r : Token → Token → Prop) : Halt → Halt → Prop
  | fault {t t' found} : r t t' → Like r (.fault t found) (.fault t' found)
  | sink {found} : Like r (.sink found) (.sink found)
  | exhausted : Like r .exhausted .exhausted

theorem Halt.Twin.like {G : Disguise} (hG : G.Plain) {halt halt' : Halt} (h : halt.Twin G halt') :
    halt.Like G.token halt' := by
  cases h with
  | fault ht => exact .fault ht
  | parentNotClass hname => exact .fault (hG.named.mp hname)
  | sink => exact .sink
  | exhausted => exact .exhausted

/-- Actions that run alike end alike. -/
theorem Action.Alike.ending {G : Disguise} {K : Marks} {x x' : Action Unit} {m m' : Machine}
    {Q : Marks → Store → Unit → Unit → Prop} (h : Alike G K x x' m m' Q) :
    Option.Rel (Halt.Twin G) (x.ending m).1 (x'.ending m').1 ∧
      ∃ K', m.Follows G K K' (x.ending m).2 (x'.ending m').2 := by
  unfold Alike at h
  unfold Action.ending
  generalize x m = result, x' m' = result' at h ⊢
  split at h
  · obtain ⟨K', hfollows, -⟩ := h
    exact ⟨.none, K', hfollows⟩
  · exact ⟨.some h.1, h.2⟩
  · exact h.elim

/-- Reports of the same. -/
structure Report.Like (r : Token → Token → Prop) (report report' : Report) : Prop where
  errors : List.Forall₂ (Diagnostic.Like r) report.errors report'.errors
  halt : Option.Rel (Halt.Like r) report.halt report'.halt

/-- Outcomes that report the same, the same having been printed and being displayed. -/
structure Outcome.Like (r : Token → Token → Prop) (o o' : Outcome) : Prop where
  report : o.report.Like r o'.report
  sink : o'.sink = o.sink
  globals : o'.globals = o.globals

/-- The same is asked, of texts whose tokens stand for each other. -/
inductive Call.Alike (T : Token.Matching) : Call → Call → Prop
  | run {depth source source'} : Source.Alike T source source' →
    Call.Alike T (.run depth source) (.run depth source')
  | parse {source source'} : Source.Alike T source source' →
    Call.Alike T (.parse source) (.parse source')

namespace Session

/-- Two texts are both read, into like trees, or both have faults, which are the same. -/
inductive Readings (G : Disguise) :
    Except (List Diagnostic) Program → Except (List Diagnostic) Program → Prop
  | ok {p p' : Program} : Stmt.AllLike G none p p' → Readings G (.ok p) (.ok p')
  | error {fs fs'} : List.Forall₂ (Diagnostic.Like G.token) fs fs' →
    Readings G (.error fs) (.error fs')

/-- The faults for which a text is not run. -/
def complaints (s : Session) (source : String) : List Diagnostic :=
  match (s.parse source).1 with
  | .error faults => faults
  | .ok p => misuses p.findings

section
variable {s : Session} {source : String} {p : Program} {depth : Nat} {host : Host}

theorem errors_runWithin :
    (s.runWithin depth host source).1.errors = s.complaints source := by
  unfold runWithin complaints
  cases hparse : s.parse source with
  | mk result s' =>
    cases result with
    | error faults => rfl
    | ok program =>
      dsimp only
      split
      · next hmisuses => rw [hmisuses]
      · rfl

theorem ne_nil_of_parse {faults : List Diagnostic} (h : (s.parse source).1 = .error faults) :
    faults ≠ [] := by
  unfold parse at h
  dsimp only at h
  split at h
  · cases h
  · next hne =>
    cases h
    rwa [List.isEmpty_iff] at hne

/-- A text is not accepted if there are complaints. -/
theorem accepted?_eq_none_iff : s.accepted? source = none ↔ s.complaints source ≠ [] := by
  unfold accepted? complaints
  cases hparse : (s.parse source).1 with
  | error faults => simpa using ne_nil_of_parse hparse
  | ok p =>
    dsimp only
    cases misuses p.findings <;> simp

/-- What is read if there are no faults, and the faults otherwise. -/
theorem Readings.ite {G : Disguise} {p p' : Program} {fs fs' : List Diagnostic}
    (hp : Stmt.AllLike G none p p') (hfs : List.Forall₂ (Diagnostic.Like G.token) fs fs') :
    Readings G (if fs.isEmpty then .ok p else .error fs)
      (if fs'.isEmpty then .ok p' else .error fs') := by
  cases hfs with
  | nil => exact .ok hp
  | cons hd hrest => exact .error (.cons hd hrest)

end

section
variable {T : Token.Matching} {source source' : String} (s s' : Session)
  (hsource : Source.Alike T source source')
include hsource

/-- Like texts are read alike, whatever numbers the sessions have given out. -/
theorem parse_alike :
    Readings (.counted T s.nextId s'.nextId) (s.parse source).1 (s'.parse source').1 ∧
      (Disguise.counted T s.nextId s'.nextId).Counts (s.parse source).2.nextId
        (s'.parse source').2.nextId := by
  obtain ⟨hprogram, hfaults, hcounts⟩ := Treewalk.parse_alike (G := .counted T s.nextId s'.nextId)
    hsource.tokens hsource.finish (Disguise.counts_counted T _ _)
  refine ⟨?_, hcounts⟩
  have hlex : List.Forall₂ (Diagnostic.Like T.Matches) (Source.faults source)
      (Source.faults source) := by
    refine List.forall₂_same.mpr fun d hd => ?_
    obtain ⟨item, -, heq⟩ := List.mem_filterMap.mp hd
    cases item with
    | token => cases heq
    | fault =>
      cases heq
      exact .lex
  unfold parse
  dsimp only
  rw [hsource.faults]
  exact .ite hprogram (List.rel_append hlex hfaults)

/-- The same complaints are made. -/
theorem complaints_alike :
    List.Forall₂ (Diagnostic.Like T.Matches) (s.complaints source) (s'.complaints source') := by
  have hreadings := (parse_alike s s' hsource).1
  unfold complaints
  generalize (s.parse source).1 = result, (s'.parse source').1 = result' at hreadings ⊢
  cases hreadings with
  | ok hp => exact (Program.like_findings Disguise.plain_plain hp).misuses
  | error hfs => exact hfs

/-- Like texts are both accepted or both not. -/
theorem accepted?_alike : Option.Rel (Stmt.AllLike (.counted T s.nextId s'.nextId) none)
    (s.accepted? source) (s'.accepted? source') := by
  have hreadings := (parse_alike s s' hsource).1
  unfold accepted?
  generalize (s.parse source).1 = result, (s'.parse source').1 = result' at hreadings ⊢
  cases hreadings with
  | @ok p p' hp =>
    have hmisuses := (Program.like_findings Disguise.plain_plain hp).misuses
    dsimp only
    generalize misuses p.findings = fs, misuses p'.findings = fs' at hmisuses ⊢
    cases hmisuses with
    | nil => exact .some hp
    | cons => exact .none
  | error => exact .none

theorem exists_accepted? {p : Program} (h : s.accepted? source = some p) :
    ∃ p', s'.accepted? source' = some p' := by
  have halike := accepted?_alike s s' hsource
  rw [h] at halike
  cases hsecond : s'.accepted? source' with
  | none => rw [hsecond] at halike; cases halike
  | some p' => exact ⟨p', rfl⟩

end

/-- Two sessions between calls, of which the second one may have given out other numbers. The
occurrences that `V` relates have the same distance. -/
structure Twin (T : Token.Matching) (V : NodeId → NodeId → Prop) (s s' : Session) : Prop where
  machine : ∃ K, s.machine.Twin (.resolved T V s.machine.distances) K s'.machine
  active : s.machine.active = s.machine.globals
  counted : s.Counted
  counted' : s'.Counted
  bounds : ∀ id id', V id id' → id < s.nextId ∧ id' < s'.nextId

section
variable {T : Token.Matching} {V : NodeId → NodeId → Prop} {s s' : Session}
  {source source' : String} {p p' : Program} {host : Host} {depth : Nat}

theorem twin_initial (T : Token.Matching) (sink : Sink) :
    Twin T (fun _ _ => False) (initial sink) (initial sink) where
  machine := by
    refine ⟨fun _ => none, ⟨⟨rfl, fun _ => rfl, fun _ _ _ => .none, fun f name => ?_, rfl,
      fun object name => ?_⟩, rfl, nofun, rfl, rfl, rfl, rfl, rfl, rfl, Nat.one_pos, Nat.one_pos⟩⟩
    · rw [decide_eq_false (by simp), Disguise.nameIf_false]
      cases hv : (initial sink).machine.store.binding? f name with
      | none => exact .none
      | some v =>
        obtain ⟨-, rfl⟩ := Machine.binding?_initial hv
        exact .some .native
    · simp [initial, Machine.initial, Store.field?, Store.addFrame, Store.empty]
  active := rfl
  counted := counted_initial sink
  counted' := counted_initial sink
  bounds _ _ := False.elim

theorem Twin.mono {T' : Token.Matching} (h : Twin T V s s')
    (hT : ∀ t t', T.Matches t t' → T'.Matches t t') : Twin T' V s s' where
  machine := by
    obtain ⟨K, hm⟩ := h.machine
    exact ⟨K, hm.withDistances (Disguise.resolved_within hT fun _ _ => id) rfl hm.places⟩
  active := h.active
  counted := h.counted
  counted' := h.counted'
  bounds := h.bounds

/-- Numbers that are spent make no difference. -/
theorem Twin.spend {i i' : NodeId} (h : Twin T V s s') (hi : s.nextId ≤ i) (hi' : s'.nextId ≤ i') :
    Twin T V { s with nextId := i } { s' with nextId := i' } where
  machine := h.machine
  active := h.active
  counted id hid := Nat.lt_of_lt_of_le (h.counted id hid) hi
  counted' id hid := Nat.lt_of_lt_of_le (h.counted' id hid) hi'
  bounds id id' hV :=
    ⟨Nat.lt_of_lt_of_le (h.bounds id id' hV).1 hi, Nat.lt_of_lt_of_le (h.bounds id id' hV).2 hi'⟩

theorem Twin.parse (h : Twin T V s s') (source source' : String) :
    Twin T V (s.parse source).2 (s'.parse source').2 :=
  h.spend (nextId_le_parse source) (nextId_le_parse source')

/-- Like programs have like occurrences at like distances. -/
theorem distance_mem_iff {i i' : NodeId} {fs fs' : List Finding}
    (h : Finding.AllLike (.counted T i i') fs fs') (n d : Nat) :
    .distance (i + n) d ∈ fs ↔ .distance (i' + n) d ∈ fs' := by
  induction h with
  | nil => simp
  | cons hf _ ih =>
    rw [List.mem_cons, List.mem_cons, ih]
    refine or_congr_left ?_
    cases hf with
    | fault => simp
    | distance hplace =>
      obtain ⟨m, rfl, rfl⟩ := hplace
      simp

/-- Before like programs are run, their occurrences stand for each other. -/
theorem Twin.ready (h : Twin T V s s') (hsource : Source.Alike T source source')
    (haccepted : s.accepted? source = some p) (haccepted' : s'.accepted? source' = some p') :
    ∃ V' : NodeId → NodeId → Prop, (∀ id id', V' id id' →
        id < (s.parse source).2.nextId ∧ id' < (s'.parse source').2.nextId) ∧
      (∃ K, (s.ready p).Twin (.resolved T V' (s.ready p).distances) K (s'.ready p')) ∧
      Stmt.AllLike (.resolved T V' (s.ready p).distances) none p p' := by
  obtain ⟨-, hcounts⟩ := parse_alike s s' hsource
  obtain ⟨N, hend, hend'⟩ : ∃ N, (s.parse source).2.nextId = s.nextId + N ∧
      (s'.parse source').2.nextId = s'.nextId + N := by
    obtain ⟨-, N, hN⟩ := hcounts 0
    exact ⟨N, hN⟩
  have hp : Stmt.AllLike (.counted T s.nextId s'.nextId) none p p' := by
    have hall := accepted?_alike s s' hsource
    rw [haccepted, haccepted'] at hall
    cases hall with
    | some hp => exact hp
  have hfresh := fresh_of_parse (parse_of_accepted? haccepted)
  have hfound := Program.like_findings Disguise.plain_plain hp
  obtain ⟨K, hm⟩ := h.machine
  refine ⟨fun id id' => V id id' ∨ ∃ n < N, id = s.nextId + n ∧ id' = s'.nextId + n, ?_,
    ⟨K, hm.withDistances (Disguise.resolved_within (fun _ _ => id) fun _ _ => .inl) rfl ?_⟩, ?_⟩
  · rintro id id' (hV | ⟨n, hn, rfl, rfl⟩)
    · have hbounds := h.bounds id id' hV
      exact ⟨Nat.lt_of_lt_of_le hbounds.1 (nextId_le_parse _),
        Nat.lt_of_lt_of_le hbounds.2 (nextId_le_parse _)⟩
    · rw [hend, hend']
      exact ⟨Nat.add_lt_add_left hn _, Nat.add_lt_add_left hn _⟩
  · rintro id id' _ ⟨hV | ⟨n, -, rfl, rfl⟩, rfl⟩
    · have hbounds := h.bounds id id' hV
      have hsame := hm.places id id' _ ⟨hV, rfl⟩
      refine ⟨rfl, ?_⟩
      rw [show (s'.machine.distances.record p'.findings)[id']? = _ from
        h.counted'.distances_ready haccepted' hbounds.2, hsame.2]
      exact (h.counted.distances_ready haccepted hbounds.1).symm
    · refine ⟨rfl, Option.ext fun d => ?_⟩
      have hiff := h.counted.ready haccepted (s.nextId + n) d
      have hiff' := h.counted'.ready haccepted' (s'.nextId + n) d
      have hlt : ¬s.nextId + n < s.nextId := Nat.not_lt.mpr (Nat.le_add_right _ _)
      have hlt' : ¬s'.nextId + n < s'.nextId := Nat.not_lt.mpr (Nat.le_add_right _ _)
      rw [show s'.machine.distances.record p'.findings = (s'.ready p').distances from rfl, hiff', hiff,
        distance_mem_iff hfound]
      simp only [hlt, hlt', false_and, or_false]
  · refine Stmt.AllLike.mono (P := (· < s.nextId + N)) ?_ p ?_ hp
    · refine Disguise.Plain.within Disguise.plain_plain Disguise.plain_plain (fun _ _ => id) ?_
      rintro id id' _ hlt ⟨n, rfl, rfl⟩
      exact ⟨_, .inr ⟨n, Nat.lt_of_add_lt_add_left hlt, rfl, rfl⟩, rfl⟩
    · exact fun id hid => hend ▸ (hfresh.bounds id hid).2

/-- A run begins outside of all local scopes. -/
theorem Twin.unmarked {G : Disguise} {K : Marks} {m' : Machine} (h : Twin T V s s')
    (hm : (s.ready p).Twin G K m') : K (s.ready p).active = none := by
  rw [show (s.ready p).active = (s.ready p).globals from h.active]
  exact hm.unmarked

variable (hhost : host.AnswersNumbers) (hdeaf : host.IgnoresArguments)
include hhost hdeaf

/-- Twin sessions run like texts alike. -/
theorem Twin.run (h : Twin T V s s') (hsource : Source.Alike T source source') (depth : Nat) :
    Report.Like T.Matches (s.runWithin depth host source).1 (s'.runWithin depth host source').1 ∧
      ∃ V', Twin T V' (s.runWithin depth host source).2 (s'.runWithin depth host source').2 := by
  have herrors : List.Forall₂ (Diagnostic.Like T.Matches) (s.runWithin depth host source).1.errors
      (s'.runWithin depth host source').1.errors := by
    rw [errors_runWithin, errors_runWithin]
    exact complaints_alike s s' hsource
  have haccepted := accepted?_alike s s' hsource
  cases hfirst : s.accepted? source with
  | none =>
    cases hsecond : s'.accepted? source' with
    | some p' => rw [hfirst, hsecond] at haccepted; cases haccepted
    | none =>
      refine ⟨⟨herrors, ?_⟩, V, ?_⟩
      · rw [(runWithin_of_rejected hfirst).1, (runWithin_of_rejected hsecond).1]
        exact .none
      · rw [(runWithin_of_rejected hfirst).2, (runWithin_of_rejected hsecond).2]
        exact h.parse source source'
  | some p =>
    cases hsecond : s'.accepted? source' with
    | none => rw [hfirst, hsecond] at haccepted; cases haccepted
    | some p' =>
      obtain ⟨V', hbounds, ⟨K, hready⟩, hp⟩ := h.ready hsource hfirst hsecond
      have halike : Action.Alike _ K (interpret host depth p) (interpret host depth p') (s.ready p)
          (s'.ready p') fun _ _ _ _ => True :=
        Program.alike_interpret hhost hdeaf hready (h.unmarked hready) hp
          (Program.clear_of_plain Disguise.plain_plain)
      obtain ⟨hhalts, K₁, hfollows⟩ := halike.ending
      obtain ⟨hhalt, hs₁⟩ := runWithin_ending depth host hfirst
      obtain ⟨hhalt', hs₁'⟩ := runWithin_ending depth host hsecond
      have hsteady := (steady_interpret host depth p).ending (s.ready p)
      have hcounted : (s.answer host (.run depth source)).2.Counted := h.counted.answer
      have hcounted' : (s'.answer host (.run depth source')).2.Counted := h.counted'.answer
      refine ⟨⟨herrors, ?_⟩, V', ⟨K₁, ?_⟩, ?_, hcounted, hcounted', ?_⟩
      · rw [hhalt, hhalt']
        exact hhalts.imp fun _ _ => Halt.Twin.like Disguise.plain_plain
      · rw [hs₁, hs₁', hsteady.distances]
        exact hfollows.twin
      · rw [hs₁]
        exact hsteady.active.trans (h.active.trans hsteady.globals.symm)
      · rw [hs₁, hs₁']
        exact hbounds

/-- Twin sessions answer alike. -/
theorem Twin.answer {call call' : Call} (h : Twin T V s s') (hcall : call.Alike T call') :
    Report.Like T.Matches (s.answer host call).1 (s'.answer host call').1 ∧
      ∃ V', Twin T V' (s.answer host call).2 (s'.answer host call').2 := by
  cases hcall with
  | run hsource => exact h.run hhost hdeaf hsource _
  | @parse source source' hsource =>
    refine ⟨?_, V, ?_⟩
    · have hreadings := (parse_alike s s' hsource).1
      rw [Session.answer, Session.answer]
      generalize s.parse source = parsed, s'.parse source' = parsed' at hreadings ⊢
      obtain ⟨result, _⟩ := parsed
      obtain ⟨result', _⟩ := parsed'
      cases hreadings with
      | ok => exact ⟨.nil, .none⟩
      | error hfs => exact ⟨hfs, .none⟩
    · rw [answer_parse, answer_parse]
      exact h.parse source source'

omit hhost hdeaf in
/-- Twin sessions display the same. -/
theorem Twin.display (h : Twin T V s s') : s'.display = s.display := by
  obtain ⟨K, hm⟩ := h.machine
  exact hm.display

omit hhost hdeaf in
theorem Twin.sink (h : Twin T V s s') : s'.machine.sink = s.machine.sink := by
  obtain ⟨K, hm⟩ := h.machine
  exact hm.sink

theorem Twin.after {calls calls' : List Call} (h : Twin T V s s')
    (hcalls : List.Forall₂ (Call.Alike T) calls calls') :
    ∃ V', Twin T V' (s.after host calls) (s'.after host calls') := by
  induction hcalls generalizing V s s' with
  | nil => exact ⟨V, h⟩
  | cons hcall _ ih =>
    obtain ⟨-, V', h'⟩ := h.answer hhost hdeaf hcall
    exact ih h'

/-- After each call, the same is seen of twin sessions. -/
theorem Twin.outcomes {calls calls' : List Call} (h : Twin T V s s')
    (hcalls : List.Forall₂ (Call.Alike T) calls calls') :
    List.Forall₂ (Outcome.Like T.Matches) (s.outcomes host calls) (s'.outcomes host calls') := by
  induction hcalls generalizing V s s' with
  | nil => exact .nil
  | cons hcall _ ih =>
    obtain ⟨hreport, V', h'⟩ := h.answer hhost hdeaf hcall
    exact .cons ⟨hreport, h'.sink, h'.display⟩ (ih h')

end

end Session

end Treewalk
