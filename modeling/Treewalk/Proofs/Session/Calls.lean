import Treewalk.Proofs.Evaluation.Steady
import Treewalk.Proofs.Grammar.Accepting
import Treewalk.Proofs.Session.Soundness

/-! Calls of a session: a source text is run or only read. What the caller sees of a call is its
report, everything printed so far, and the global names with their values as they are displayed. -/

namespace Treewalk

/-- What a session is asked to do. -/
inductive Call
  | run (depth : Nat) (source : String)
  | parse (source : String)

def Call.source : Call → String
  | run _ source => source
  | parse source => source

/-- What is seen after a call. -/
structure Outcome where
  report : Report
  sink : Sink
  globals : List (String × String)

/-- The distances are the same at every moment of a run. -/
theorem Program.Passes.distances {host : Host} {depth : Nat} {p : Program} {m m' : Machine}
    {t : Task} (h : p.Passes host depth m t m') : m'.distances = m.distances := by
  induction h with
  | first hwithin => exact hwithin.distances
  | rest hrun _ ih =>
    exact ih.trans (((evaluatesSteadily host depth).statement _).of_ok hrun).distances

/-- Why an action halted, if it did, and the machine that it left. -/
def Action.ending (x : Action Unit) (m : Machine) : Option Halt × Machine :=
  match x m with
  | .ok _ m' => (none, m')
  | .error halt m' => (some halt, m')

theorem Action.Steady.ending {x : Action Unit} (h : x.Steady) (m : Machine) :
    m.Steady (x.ending m).2 := by
  unfold Action.ending
  cases hrun : x m with
  | ok _ m' => exact h.of_ok hrun
  | error halt m' => exact h.of_error hrun

/-- The text behind a character that belongs to no token. -/
def Source.spoiled (source : String) : String := "@" ++ source

theorem Source.pieces_spoiled (source : String) :
    pieces (spoiled source).toList = .unexpected '@' :: pieces source.toList := by
  have hcut : cut '@' source.toList = (.unexpected '@', source.toList) := by
    have hmark : cutMark '@' source.toList = (.unexpected '@', source.toList) := by
      unfold cutMark
      cases source.toList <;> rfl
    unfold cut
    rw [if_neg (by decide), if_neg (by decide), if_neg (by decide), if_neg (by decide)]
    exact hmark
  rw [spoiled, String.toList_append]
  show pieces ('@' :: source.toList) = _
  rw [pieces_cons, hcut]

theorem Source.items_spoiled (source : String) :
    items (spoiled source) = .fault 1 (.unexpectedCharacter '@') :: items source := by
  rw [items, pieces_spoiled]
  rfl

theorem Source.tokens_spoiled (source : String) : tokens (spoiled source) = tokens source := by
  rw [tokens, items_spoiled]
  rfl

theorem Source.endMark_spoiled (source : String) : endMark (spoiled source) = endMark source := by
  simp [endMark, spoiled, newlines]

namespace Session

/-- The global names with their values as they are printed. -/
def display (s : Session) : List (String × String) :=
  s.globals.map fun binding => (binding.1, binding.2.text)

/-- Does what is asked. A text that is only read is not resolved. -/
def answer (host : Host) (s : Session) : Call → Report × Session
  | .run depth source => s.runWithin depth host source
  | .parse source =>
    match s.parse source with
    | (.ok _, s) => (⟨[], none⟩, s)
    | (.error faults, s) => (⟨faults, none⟩, s)

/-- The session after some calls. -/
def after (host : Host) (s : Session) : List Call → Session
  | [] => s
  | call :: rest => (s.answer host call).2.after host rest

/-- What is seen after each of some calls. -/
def outcomes (host : Host) (s : Session) : List Call → List Outcome
  | [] => []
  | call :: rest =>
    let (report, s') := s.answer host call
    ⟨report, s'.machine.sink, s'.display⟩ :: s'.outcomes host rest

/-- The trees that the calls read their texts into. -/
def trees (host : Host) (s : Session) : List Call → List Program
  | [] => []
  | call :: rest =>
    (s.parse call.source).1.toOption.toList ++ (s.answer host call).2.trees host rest

variable {host : Host} {s : Session} {call : Call} {calls later : List Call} {source : String}
  {p : Program}

theorem outcomes_append : s.outcomes host (calls ++ later) =
    s.outcomes host calls ++ (s.after host calls).outcomes host later := by
  induction calls generalizing s with
  | nil => rfl
  | cons call rest ih => exact congrArg (_ :: ·) ih

theorem length_outcomes : (s.outcomes host calls).length = calls.length := by
  induction calls generalizing s with
  | nil => rfl
  | cons call rest ih => exact congrArg (· + 1) ih

/-- A text that is only read changes no more than the numbers. -/
theorem answer_parse (source : String) : (s.answer host (.parse source)).2 = (s.parse source).2 := by
  rw [answer]
  split <;> next hparse => rw [hparse]

theorem machine_parse (source : String) : (s.parse source).2.machine = s.machine := rfl

/-- Spoiled, a text is read as before and rejected. -/
theorem runWithin_spoiled (depth : Nat) (host : Host) (source : String) :
    (s.runWithin depth host (Source.spoiled source)).2 = (s.parse source).2 := by
  have hparse : ∃ faults, s.parse (Source.spoiled source) = (.error faults, (s.parse source).2) := by
    unfold parse
    dsimp only
    rw [Source.tokens_spoiled, Source.endMark_spoiled, Source.faults, Source.items_spoiled]
    exact ⟨_, rfl⟩
  obtain ⟨faults, hparse⟩ := hparse
  rw [runWithin, hparse]

/-- To read a text changes a session as to run some text does, so that a session comes to nothing
more by reading than by running. -/
theorem exists_history (sink : Sink) (time : Nat → Float) (calls : List Call) :
    ∃ h : History, (initial sink).after (.reading time) calls = h.session sink time := by
  have hafter (h : History) : ∃ h' : History,
      (h.session sink time).after (.reading time) calls = h'.session sink time := by
    induction calls generalizing h with
    | nil => exact ⟨h, rfl⟩
    | cons call rest ih =>
      cases call with
      | run depth source => exact ih ((depth, source) :: h)
      | parse source =>
        obtain ⟨h', hh'⟩ := ih ((0, Source.spoiled source) :: h)
        refine ⟨h', ?_⟩
        rw [← hh', after, answer_parse, History.session, runWithin_spoiled]
  exact hafter []

/-- A text that is accepted is run, and what is seen of the run is how it ended. -/
theorem runWithin_ending (depth : Nat) (host : Host) (h : s.accepted? source = some p) :
    (s.runWithin depth host source).1.halt = ((interpret host depth p).ending (s.ready p)).1 ∧
      (s.runWithin depth host source).2 =
        ⟨((interpret host depth p).ending (s.ready p)).2, (s.parse source).2.nextId⟩ := by
  have hrun := runWithin_of_accepted depth host h
  unfold Action.ending
  cases hinterpret : interpret host depth p (s.ready p) <;>
    · rw [hinterpret] at hrun
      exact hrun

/-- Numbers are spent on reading only. -/
theorem nextId_answer : (s.answer host call).2.nextId = (s.parse call.source).2.nextId := by
  cases call with
  | parse source => rw [answer_parse, Call.source]
  | run depth source =>
    rw [answer, Call.source]
    cases haccepted : s.accepted? source with
    | none => rw [(runWithin_of_rejected haccepted).2]
    | some p => rw [(runWithin_ending depth host haccepted).2]

theorem nextId_le_parse (source : String) : s.nextId ≤ (s.parse source).2.nextId :=
  le_nextId_parse _ _ _

theorem nextId_le_answer : s.nextId ≤ (s.answer host call).2.nextId :=
  nextId_answer ▸ nextId_le_parse _

theorem nextId_le_after : s.nextId ≤ (s.after host calls).nextId := by
  induction calls generalizing s with
  | nil => exact Nat.le_refl _
  | cons call rest ih => exact Nat.le_trans nextId_le_answer ih

/-- A run leaves no other distances than those that its program was given before it began. -/
theorem distances_run (depth : Nat) : (s.runWithin depth host source).2.machine.distances =
    (s.accepted? source).elim s.machine.distances fun p => (s.ready p).distances := by
  cases haccepted : s.accepted? source with
  | none => rw [(runWithin_of_rejected haccepted).2, machine_parse, Option.elim]
  | some p =>
    rw [(runWithin_ending depth host haccepted).2]
    exact ((steady_interpret host depth p).ending (s.ready p)).distances

/-- What a session parses is read from the tokens of the text, in which nothing is at fault. -/
theorem reads_of_parse (h : (s.parse source).1 = .ok p) : Source.faults source = [] ∧
    Reads (.declarations p) s.nextId (Source.tokens source) (s.parse source).2.nextId := by
  unfold parse at h ⊢
  dsimp only at h ⊢
  split at h
  · next hfaults =>
    cases h
    simp only [List.isEmpty_iff, List.append_eq_nil_iff] at hfaults
    exact ⟨hfaults.1, Treewalk.reads_of_parse hfaults.2⟩
  · cases h

theorem parse_of_reads {j : NodeId} (hfaults : Source.faults source = [])
    (h : Reads (.declarations p) s.nextId (Source.tokens source) j) :
    (s.parse source).1 = .ok p ∧ (s.parse source).2.nextId = j := by
  unfold parse
  rw [Treewalk.parse_of_reads h, hfaults]
  exact ⟨rfl, rfl⟩

/-- A tree that is read without faults has numbers of its own. -/
theorem fresh_of_parse (h : (s.parse source).1 = .ok p) :
    Fresh (Stmt.allIds p) s.nextId (s.parse source).2.nextId :=
  (reads_of_parse h).2.numbered

theorem parse_of_accepted? (h : s.accepted? source = some p) : (s.parse source).1 = .ok p := by
  unfold accepted? at h
  split at h
  · cases h
  · next hparse =>
    split at h
    · cases h
      exact hparse
    · cases h

theorem accepted?_eq_some_iff :
    s.accepted? source = some p ↔ (s.parse source).1 = .ok p ∧ misuses p.findings = [] := by
  constructor
  · intro h
    exact ⟨parse_of_accepted? h, (of_accepted? h).2.2.2⟩
  · rintro ⟨hparse, hmisuses⟩
    unfold accepted?
    rw [hparse]
    dsimp only
    rw [hmisuses]

theorem located_findings_sublist (p : Program) :
    (located p.findings).Sublist (Stmt.allIds p) :=
  Stmt.located_allFindings _ p

/-- Distances are known of numbers only that were given out. -/
def Counted (s : Session) : Prop :=
  ∀ id, (s.machine.distances[id]?).isSome → id < s.nextId

theorem counted_initial (sink : Sink) : (initial sink).Counted := by
  intro id h
  simp [initial, Machine.initial] at h

/-- What is recorded of an accepted program are the distances found in it, and no others are
changed. -/
theorem Counted.ready (h : s.Counted) (haccepted : s.accepted? source = some p) (id : NodeId)
    (d : Nat) : (s.ready p).distances[id]? = some d ↔
      .distance id d ∈ p.findings ∨ id < s.nextId ∧ s.machine.distances[id]? = some d := by
  have hfresh := fresh_of_parse (parse_of_accepted? haccepted)
  have hlocated := located_findings_sublist p
  refine (Distances.record_eq_some (hlocated.nodup hfresh.nodup)).trans (or_congr_right ?_)
  refine ⟨fun ⟨_, hd⟩ => ⟨h id (by rw [hd]; rfl), hd⟩, fun ⟨hlt, hd⟩ => ⟨fun hmem => ?_, hd⟩⟩
  exact absurd (hfresh.bounds id (hlocated.subset hmem)).1 (Nat.not_le_of_lt hlt)

theorem Counted.answer (h : s.Counted) : (s.answer host call).2.Counted := by
  intro id hid
  rw [nextId_answer]
  cases call with
  | parse source =>
    rw [answer_parse] at hid
    exact Nat.lt_of_lt_of_le (h id hid) (nextId_le_parse source)
  | run depth source =>
    rw [Session.answer, distances_run] at hid
    cases haccepted : s.accepted? source with
    | none =>
      rw [haccepted] at hid
      exact Nat.lt_of_lt_of_le (h id hid) (nextId_le_parse source)
    | some p =>
      rw [haccepted] at hid
      obtain ⟨d, hd⟩ := Option.isSome_iff_exists.mp hid
      obtain hfound | ⟨hlt, -⟩ := (h.ready haccepted id d).mp hd
      · have hfresh := fresh_of_parse (parse_of_accepted? haccepted)
        exact (hfresh.bounds id ((located_findings_sublist p).subset (mem_located hfound))).2
      · exact Nat.lt_of_lt_of_le hlt (nextId_le_parse source)

theorem Counted.after (h : s.Counted) : (s.after host calls).Counted := by
  induction calls generalizing s with
  | nil => exact h
  | cons call rest ih => exact ih h.answer

/-- A number that was given out keeps its distance, or stays without one. -/
theorem Counted.distances_ready (h : s.Counted) (haccepted : s.accepted? source = some p)
    {id : NodeId} (hid : id < s.nextId) :
    (s.ready p).distances[id]? = s.machine.distances[id]? := by
  refine Option.ext fun d => (h.ready haccepted id d).trans ?_
  have hfresh := fresh_of_parse (parse_of_accepted? haccepted)
  have hnot : .distance id d ∉ p.findings := fun hmem =>
    absurd (hfresh.bounds id ((located_findings_sublist p).subset (mem_located hmem))).1
      (Nat.not_le_of_lt hid)
  simp [hnot, hid]

theorem Counted.distances_answer (h : s.Counted) {id : NodeId} (hid : id < s.nextId) :
    (s.answer host call).2.machine.distances[id]? = s.machine.distances[id]? := by
  cases call with
  | parse source => rw [answer_parse, machine_parse]
  | run depth source =>
    rw [Session.answer, distances_run]
    cases haccepted : s.accepted? source with
    | none => rfl
    | some p => exact h.distances_ready haccepted hid

theorem Counted.distances_after (h : s.Counted) {id : NodeId} (hid : id < s.nextId) :
    (s.after host calls).machine.distances[id]? = s.machine.distances[id]? := by
  induction calls generalizing s with
  | nil => rfl
  | cons call rest ih =>
    exact (ih h.answer (Nat.lt_of_lt_of_le hid nextId_le_answer)).trans (h.distances_answer hid)

/-- The trees of some calls have numbers of their own. -/
theorem fresh_trees : Fresh ((s.trees host calls).flatMap Stmt.allIds) s.nextId
    (s.after host calls).nextId := by
  induction calls generalizing s with
  | nil => exact .nil (Nat.le_refl _)
  | cons call rest ih =>
    have hfirst : Fresh ((s.parse call.source).1.toOption.toList.flatMap Stmt.allIds) s.nextId
        (s.answer host call).2.nextId := by
      rw [nextId_answer]
      cases hparse : (s.parse call.source).1 with
      | error faults => exact .nil (nextId_le_parse _)
      | ok p => simpa [Except.toOption] using fresh_of_parse hparse
    rw [trees, List.flatMap_append]
    exact hfirst.append ih

/-- Occurrences are told apart by their numbers for as long as a session lasts. Whatever is run and
read, no two occurrences in the trees that are made share a number, and all numbers are below the
next one. So no distance is recorded twice: a program that is accepted has numbers of which none has
a distance yet, and from its run on every occurrence in it keeps the distance, or the lack of one,
that it had when the run began. -/
theorem occurrences_keep_numbers_and_distances (host : Host) (sink : Sink) (calls : List Call) :
    let start := initial sink
    let s := start.after host calls
    ((start.trees host calls).flatMap Stmt.allIds).Nodup ∧
    (∀ id ∈ (start.trees host calls).flatMap Stmt.allIds, id < s.nextId) ∧
    ∀ depth source p, s.accepted? source = some p →
      ((located p.findings).Nodup ∧ ∀ id ∈ located p.findings, s.machine.distances[id]? = none) ∧
      (∀ t m, p.Passes host depth (s.ready p) t m → m.distances = (s.ready p).distances) ∧
      ∀ later, ∀ id ∈ Stmt.allIds p,
        let s' := s.after host (.run depth source :: later)
        s'.machine.distances[id]? = (s.ready p).distances[id]? ∧
        ∀ source' q, s'.accepted? source' = some q →
          (s'.ready q).distances[id]? = (s.ready p).distances[id]? := by
  intro start s
  have htrees : Fresh ((start.trees host calls).flatMap Stmt.allIds) start.nextId s.nextId :=
    fresh_trees
  have hcounted : s.Counted := (counted_initial sink).after
  refine ⟨htrees.nodup, fun id hid => (htrees.bounds id hid).2, fun depth source p haccepted => ?_⟩
  have hfresh := fresh_of_parse (parse_of_accepted? haccepted)
  have hlocated := located_findings_sublist p
  refine ⟨⟨hlocated.nodup hfresh.nodup, fun id hid => ?_⟩, fun t m => Program.Passes.distances,
    fun later id hid => ?_⟩
  · refine Option.not_isSome_iff_eq_none.mp fun hsome => ?_
    exact absurd (hfresh.bounds id (hlocated.subset hid)).1 (Nat.not_le_of_lt (hcounted id hsome))
  · have hrun : (s.answer host (.run depth source)).2.machine.distances = (s.ready p).distances := by
      rw [answer, distances_run, haccepted, Option.elim]
    have hlt : id < (s.answer host (.run depth source)).2.nextId := by
      rw [nextId_answer]
      exact (hfresh.bounds id hid).2
    have hkept : (s.after host (.run depth source :: later)).machine.distances[id]? =
        (s.ready p).distances[id]? :=
      (hcounted.answer.distances_after hlt).trans (by rw [hrun])
    refine ⟨hkept, fun source' q haccepted' => ?_⟩
    rw [← hkept]
    exact hcounted.after.distances_ready haccepted' (Nat.lt_of_lt_of_le hlt nextId_le_after)

end Session

end Treewalk
