import Mathlib
import Treewalk.Proofs.Session.Twins
import Treewalk.Proofs.Source.Seam

/-! Texts that are joined. To run one text and then another one is to run both as one text, the second
one standing on a new line behind the first one: the same is printed, the same is displayed, and the
run stops at the same token for the same cause, if it stops. -/

namespace Treewalk

/-- What was read stands in front of what is read behind it. -/
theorem Reads.declarations_append {p q : Program} {i j k : NodeId} {ts us : List Token}
    (h : Reads (.declarations p) i ts j) (h' : Reads (.declarations q) j us k) :
    Reads (.declarations (p ++ q)) i (ts ++ us) k := by
  induction p generalizing i ts with
  | nil =>
    cases h
    exact h'
  | cons s rest ih =>
    cases h with
    | declarationsCons hs hrest =>
      rw [List.append_assoc]
      exact .declarationsCons hs (ih hrest)

/-- At top level, nothing that is found in a statement depends on the statements before it. -/
theorem Program.findings_append (p q : Program) :
    Program.findings (p ++ q) = Program.findings p ++ Program.findings q := by
  induction p with
  | nil => rfl
  | cons s rest ih =>
    unfold Program.findings at ih ⊢
    rw [List.cons_append, Stmt.allFindings, Stmt.allFindings, Program.after_outermost, ih,
      List.append_assoc]

theorem misuses_append (fs gs : List Finding) : misuses (fs ++ gs) = misuses fs ++ misuses gs :=
  List.filterMap_append

theorem Distances.record_append (D : Distances) (fs gs : List Finding) :
    D.record (fs ++ gs) = (D.record fs).record gs :=
  List.foldl_append

/-- Tokens of texts that came before stand for themselves, and those of one more text for the same
ones, some lines further down. -/
def Token.Matching.moved (earlier : String → Prop) (source : String) (lines : Nat) :
    Token.Matching where
  Matches t t' := (t' = t ∧ ∃ text, earlier text ∧ .token t ∈ Source.stream text) ∨
    t' = t.down lines ∧ .token t ∈ Source.stream source
  sameText := by
    rintro t _ (⟨rfl, -⟩ | ⟨rfl, -⟩) <;> exact ⟨rfl, rfl⟩

section
variable {earlier : String → Prop} {source : String} {lines : Nat}

theorem Source.Alike.kept {text : String} (h : earlier text) :
    Source.Alike (.moved earlier source lines) text text :=
  .refl fun _ ht => .inl ⟨rfl, text, h, ht⟩

theorem Source.Alike.moved (h : Source.faults source = []) :
    Source.Alike (.moved earlier source lines) source (Source.below lines source) where
  tokens := by
    rw [Source.tokens_below, List.forall₂_map_right_iff]
    exact List.forall₂_same.mpr fun t ht => .inr ⟨rfl, Source.mem_stream_of_mem_tokens ht⟩
  finish := .inr ⟨Source.endMark_below lines source, by simp [Source.stream]⟩
  faults := by rw [h, Source.faults_below h]

end

/-- To end the output changes nothing. -/
theorem Action.flush_ok {m m' : Machine} {u : Unit} (h : flush m = .ok u m') : m' = m := by
  unfold flush at h
  rw [bind_of_ok get_apply] at h
  split at h <;> cases h
  rfl

namespace Session

section
variable {s t : Session} {source : String} {p q : Program}

/-- Whether a text is accepted does not depend on the machine. -/
theorem accepted?_congr (h : t.nextId = s.nextId) : t.accepted? source = s.accepted? source := by
  unfold accepted? parse
  rw [h]

theorem complaints_eq_nil (h : s.accepted? source = some p) : s.complaints source = [] := by
  by_contra hne
  rw [accepted?_eq_none_iff.mpr hne] at h
  cases h

/-- Texts that are accepted one after the other are accepted as one. -/
theorem accepted?_join {a b : String} (hclosed : Source.Closed a) (ha : s.accepted? a = some p)
    (ht : t.nextId = (s.parse a).2.nextId)
    (hb : t.accepted? (Source.below (Source.newlines a.toList + 1) b) = some q) :
    s.accepted? (a ++ "\n" ++ b) = some (p ++ q) := by
  rw [accepted?_eq_some_iff] at ha hb
  obtain ⟨hfaults, hreads⟩ := reads_of_parse ha.1
  obtain ⟨hfaults', hreads'⟩ := reads_of_parse hb.1
  rw [ht] at hreads'
  have hjoined := hreads.declarations_append hreads'
  rw [← Source.tokens_join hclosed hfaults] at hjoined
  refine accepted?_eq_some_iff.mpr ⟨(parse_of_reads ?_ hjoined).1, ?_⟩
  · rw [Source.faults_join hclosed hfaults, hfaults']
  · rw [Program.findings_append, misuses_append, ha.2, hb.2]
    rfl

/-- What is found in the second text is added to what was found in the first one. -/
theorem ready_append (s : Session) (p q : Program) : s.ready (p ++ q) =
    { s.ready p with distances := (s.ready p).distances.record q.findings } := by
  unfold ready adopt
  rw [Program.findings_append, Distances.record_append]

/-- A run that does not halt comes to the end of its program. -/
theorem execute_of_halt_none {depth : Nat} {host : Host} (h : s.accepted? source = some p)
    (hhalt : (s.runWithin depth host source).1.halt = none) :
    executeProgram host depth p (s.ready p) =
      .ok () (s.runWithin depth host source).2.machine := by
  have hrun := runWithin_of_accepted depth host h
  split at hrun
  · next hinterpret =>
    obtain ⟨_, m, hexecute, hflush⟩ := bind_eq_ok.mp hinterpret
    rw [hrun.2, hexecute, Action.flush_ok hflush]
  · rw [hrun.1] at hhalt
    cases hhalt

/-- A run of two programs as one goes on with the second one where the first one ended. -/
theorem interpret_append {depth : Nat} {host : Host} {m m' : Machine}
    (h : executeProgram host depth p m = .ok () m') :
    (interpret host depth (p ++ q)).ending m = (interpret host depth q).ending m' := by
  have hrun : interpret host depth (p ++ q) m = interpret host depth q m' := by
    unfold interpret
    rw [Program.execute_append, bind_assoc, bind_of_ok h]
  rw [Action.ending, hrun, Action.ending]

end

section
variable {T : Token.Matching} {V : NodeId → NodeId → Prop} {host : Host} {s : Session}
  {a b : String} {p : Program} {depth : Nat} (hhost : host.AnswersNumbers)
  (hdeaf : host.IgnoresArguments)
include hhost hdeaf

/-- Run with the distances of a later program, too, a program leaves a twin of the session that does
not know them yet, ready for the later program. -/
theorem Twin.foresee (h : Twin T V s s) (ha : s.accepted? a = some p) (hkept : Source.Alike T a a)
    (hhalt : (s.runWithin depth host a).1.halt = none) {later : String} {q : Program}
    (hq : (s.runWithin depth host a).2.accepted? later = some q) :
    let s₁ := (s.runWithin depth host a).2
    ∃ t V', t.nextId = s₁.nextId ∧ Twin T V' s₁ t ∧
      executeProgram host depth p (s.ready (p ++ q)) = .ok () (t.ready q) := by
  intro s₁
  have hcounted : (s.answer host (.run depth a)).2.Counted := h.counted.answer
  have hnext : s₁.nextId = (s.parse a).2.nextId := by
    rw [show s₁ = _ from (runWithin_ending depth host ha).2]
  have hknown : s₁.machine.distances = (s.ready p).distances := by
    rw [show s₁.machine.distances = _ from distances_run depth, ha, Option.elim]
  have hrun := execute_of_halt_none ha hhalt
  obtain ⟨V', hbounds, ⟨K, hm⟩, hp⟩ := h.ready hkept ha ha
  have hlater : (s.ready p).Twin (.resolved T V' (s.ready p).distances) K (s.ready (p ++ q)) := by
    rw [ready_append]
    refine hm.withDistances (Disguise.resolved_within (fun _ _ => id) fun _ _ => id) rfl ?_
    rintro id id' _ ⟨hV, rfl⟩
    have hlt : id' < s₁.nextId := hnext ▸ (hbounds id id' hV).2
    have hkeeps : ((s.ready p).distances.record q.findings)[id']? = (s.ready p).distances[id']? := by
      rw [← hknown]
      exact hcounted.distances_ready hq hlt
    exact ⟨rfl, hkeeps.trans (hm.places id id' _ ⟨hV, rfl⟩).2⟩
  obtain ⟨_, m, K₁, hrun', hfollows, -⟩ := (Program.alike_execute hhost hdeaf hlater
    (h.unmarked hm) hp (Program.clear_of_plain Disguise.plain_plain)).of_ok hrun
  have hsteady := (steady_executeProgram host depth p).of_ok hrun
  have hsteady' := (steady_executeProgram host depth p).of_ok hrun'
  let t : Session := ⟨{ m with distances := s₁.machine.distances }, s₁.nextId⟩
  have hready : t.ready q = m := by
    have hdistances : m.distances = s₁.machine.distances.record q.findings := by
      rw [hsteady'.distances, ready_append, hknown]
    show { m with distances := s₁.machine.distances.record q.findings } = m
    rw [← hdistances]
  refine ⟨t, V', rfl, ⟨⟨K₁, hfollows.twin.withDistances
    (Disguise.resolved_within (fun _ _ => id) fun _ _ => id) rfl ?_⟩, ?_, hcounted,
    fun id hid => hcounted id hid, ?_⟩, hready ▸ hrun'⟩
  · rintro id id' _ ⟨hV, rfl⟩
    rw [hknown]
    exact ⟨rfl, (hm.places id id' _ ⟨hV, rfl⟩).2⟩
  · exact hsteady.active.trans (h.active.trans hsteady.globals.symm)
  · exact hnext ▸ hbounds

/-- A session that runs two texts one after the other and one that runs them as one are twins. -/
theorem Twin.join (h : Twin T V s s) (hclosed : Source.Closed a) (ha : s.accepted? a = some p)
    (hb : (s.accepted? b).isSome) (hkept : Source.Alike T a a)
    (hmoved : Source.Alike T b (Source.below (Source.newlines a.toList + 1) b))
    (hhalt : (s.runWithin depth host a).1.halt = none) :
    let s₁ := (s.runWithin depth host a).2
    let separate := s₁.runWithin depth host b
    let joined := s.runWithin depth host (a ++ "\n" ++ b)
    (separate.1.errors = [] ∧ joined.1.errors = []) ∧
      joined.2.machine.sink = separate.2.machine.sink ∧ joined.2.display = separate.2.display ∧
      Option.Rel (Halt.Like T.Matches) separate.1.halt joined.1.halt := by
  intro s₁ separate joined
  -- the programs of the second text, read alone and on its line behind the first text
  have hnext : s₁.nextId = (s.parse a).2.nextId := by
    rw [show s₁ = _ from (runWithin_ending depth host ha).2]
  obtain ⟨q₀, hq₀⟩ := Option.isSome_iff_exists.mp hb
  obtain ⟨q, hq⟩ := exists_accepted? s s₁ (.same b) hq₀
  obtain ⟨q', hq'⟩ := exists_accepted? s₁ s₁ hmoved hq
  have hjoined := accepted?_join hclosed ha hnext hq'
  -- the first program runs alike with the distances of the second one
  obtain ⟨t, V', hnext', hbetween, hrun⟩ := h.foresee hhost hdeaf ha hkept hhalt hq'
  -- the second program goes on from twin machines
  obtain ⟨V'', -, ⟨K, hm⟩, hqs⟩ := hbetween.ready hmoved hq ((accepted?_congr hnext').trans hq')
  have halike : Action.Alike _ K (interpret host depth q) (interpret host depth q') (s₁.ready q)
      (t.ready q') fun _ _ _ _ => True :=
    Program.alike_interpret hhost hdeaf hm (hbetween.unmarked hm) hqs
      (Program.clear_of_plain Disguise.plain_plain)
  obtain ⟨hhalts, K', hfollows⟩ := halike.ending
  obtain ⟨hhalt₁, hs₁⟩ := runWithin_ending depth host hq
  obtain ⟨hhalt₂, hs₂⟩ := runWithin_ending depth host hjoined
  rw [interpret_append hrun] at hhalt₂ hs₂
  refine ⟨⟨errors_runWithin.trans (complaints_eq_nil hq),
    errors_runWithin.trans (complaints_eq_nil hjoined)⟩, ?_, ?_, ?_⟩
  · rw [show separate.2 = _ from hs₁, show joined.2 = _ from hs₂]
    exact hfollows.twin.sink
  · rw [show separate.2 = _ from hs₁, show joined.2 = _ from hs₂]
    exact hfollows.twin.display
  · rw [show separate.1.halt = _ from hhalt₁, show joined.1.halt = _ from hhalt₂]
    exact hhalts.imp fun _ _ => Halt.Twin.like Disguise.plain_plain

end

/-- To run one text and then another one is to run them as one. After any calls, take two texts that
are accepted, of which the first one does not end in an open comment, and let its run not halt. To run
the second text then is what it is to run, instead of both, the second one on a new line behind the
first one: there are no static faults, the same has been printed, the same is displayed of the
globals, and either neither run halts, or both do, for the same cause and at the same token. The line
of this token is the same if the token comes from an earlier text, and the number of newlines in the
first text and one more further down if it comes from the second one. -/
theorem joined_texts_run_alike (time : Nat → Float) (sink : Sink) (calls : List Call)
    (depth : Nat) (a b : String) :
    let host := Host.reading time
    let s := (initial sink).after host calls
    let s₁ := (s.runWithin depth host a).2
    let separate := s₁.runWithin depth host b
    let joined := s.runWithin depth host (a ++ "\n" ++ b)
    let T : Token.Matching := .moved (fun text => text = a ∨ text ∈ calls.map Call.source) b
      (Source.newlines a.toList + 1)
    (s.accepted? a).isSome → (s.accepted? b).isSome → Source.Closed a →
      (s.runWithin depth host a).1.halt = none →
      (separate.1.errors = [] ∧ joined.1.errors = []) ∧
        joined.2.machine.sink = separate.2.machine.sink ∧ joined.2.display = separate.2.display ∧
        Option.Rel (Halt.Like T.Matches) separate.1.halt joined.1.halt := by
  intro host s s₁ separate joined T ha hb hclosed hhalt
  have hhost : host.AnswersNumbers := Host.answersNumbers_reading time
  have hdeaf : host.IgnoresArguments := Host.ignoresArguments_reading time
  obtain ⟨p, ha⟩ := Option.isSome_iff_exists.mp ha
  obtain ⟨q, hq⟩ := Option.isSome_iff_exists.mp hb
  have hcalls : List.Forall₂ (Call.Alike T) calls calls := by
    refine List.forall₂_same.mpr fun call hcall => ?_
    have hsource : Source.Alike T call.source call.source := .kept (.inr (List.mem_map_of_mem hcall))
    cases call with
    | run => exact .run hsource
    | parse => exact .parse hsource
  obtain ⟨V, h⟩ := (twin_initial T sink).after hhost hdeaf hcalls
  exact h.join hhost hdeaf hclosed ha hb (.kept (.inl rfl))
    (.moved (reads_of_parse (parse_of_accepted? hq)).1) hhalt

theorem joined_texts_run_alike_at_call :
    let host := Host.reading fun _ => 0
    let s := initial .unbounded
    let T : Token.Matching := .moved (fun text => text = "var x;" ∨ text ∈ [].map Call.source) "x();"
      (Source.newlines "var x;".toList + 1)
    Option.Rel (Halt.Like T.Matches)
      ((s.runWithin 9 host "var x;").2.runWithin 9 host "x();").1.halt
      (s.runWithin 9 host ("var x;" ++ "\n" ++ "x();")).1.halt := by
  have hclosed : Source.Closed "var x;" := by
    have hpieces : Source.pieces "var x;".toList =
        [.token (.keyword .varWord) ['v', 'a', 'r'], .blank ' ', .token .identifier ['x'],
          .token (.punct .semicolon) [';']] := by
      cbv
    rw [Source.Closed, hpieces]
    simp [Piece.Open]
  exact (joined_texts_run_alike (fun _ => 0) .unbounded [] 9 "var x;" "x();" (by cbv) (by cbv)
    hclosed (by cbv)).2.2.2

end Session

end Treewalk
