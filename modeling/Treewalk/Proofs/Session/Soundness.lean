import Treewalk.Proofs.Evaluation.Preservation
import Treewalk.Proofs.Grammar.Counting
import Treewalk.Proofs.Grammar.Parsing
import Treewalk.Proofs.Session.History

/-! Sessions stay sound. Every run of a session starts and ends with a machine whose values are
sound for the programs accepted so far, and at every moment of a run the machine is where resolution
was. -/

namespace Treewalk

namespace Program

variable {W : World} {host : Host} {depth : Nat} {p ss : Program} {m m' : Machine} {t : Task}

/-- All frames that are made while a program runs are known. -/
def Covered (W : World) (host : Host) (depth : Nat) (ss : Program) (m : Machine) : Prop :=
  ∀ k t m', Reaches host depth ss m k t m' → t.Known W k m'

/-- A top-level statement may be run by any sound machine. -/
theorem safe_top {s : Stmt} {rest : List Stmt} (hW : W.Accepted) (hhost : host.AnswersNumbers)
    (hp : p ∈ W.programs) (hvisits : Visits p (.statements (s :: rest)) .outermost [])
    (hm : m.Sound W) (hactive : m.active = W.globals) (hcovered : Covered W host depth (s :: rest) m) :
    Task.Fitting W m (.statement s) ∧ (execute host depth s).Safe W m fun _ _ => True := by
  have hfitting : Task.Fitting W m (.statement s) :=
    ⟨p, hp, _, _, hvisits.first, hactive ▸ .globals⟩
  have hsafe : (execute host depth s).Safe W m fun c after => c.Sound W after ∧
      (c = .normal → ∀ name ∈ s.declared?, (after.binding? m.active name.lexeme).isSome) :=
    Task.safe hW hhost depth (.statement s) m hm hfitting fun k t m' h => hcovered k t m' (.first h)
  exact ⟨hfitting, hsafe.mono fun _ _ _ _ => trivial⟩

/-- At every moment of a run of an accepted program, the machine is sound and what it does fits. -/
theorem Passes.fitting (h : Passes host depth ss m t m') (hW : W.Accepted)
    (hhost : host.AnswersNumbers) (hp : p ∈ W.programs)
    (hvisits : Visits p (.statements ss) .outermost []) (hm : m.Sound W)
    (hactive : m.active = W.globals) (hcovered : Covered W host depth ss m) :
    m'.Sound W ∧ t.Fitting W m' := by
  induction h with
  | first hwithin =>
    obtain ⟨hfitting, -⟩ := safe_top hW hhost hp hvisits hm hactive hcovered
    exact hwithin.fitting hW hhost hm hfitting fun k t m' h => hcovered k t m' (.first h)
  | @rest s rest _ _ _ _ _ hrun _ ih =>
    obtain ⟨-, hsafe⟩ := safe_top hW hhost hp hvisits hm hactive hcovered
    obtain ⟨hbecomes, -⟩ := hsafe.of_ok hrun
    have hrest : Visits p (.statements rest) .outermost [] := after_outermost s ▸ hvisits.rest
    exact ih hrest hbecomes.sound (hbecomes.active.trans hactive) fun k t m' h =>
      hcovered k t m' (.rest hrun h)

theorem safe_execute (hW : W.Accepted) (hhost : host.AnswersNumbers) (hp : p ∈ W.programs)
    (hvisits : Visits p (.statements ss) .outermost []) (hm : m.Sound W)
    (hactive : m.active = W.globals) (hcovered : Covered W host depth ss m) :
    (executeProgram host depth ss).Safe W m fun _ _ => True := by
  induction ss generalizing m with
  | nil => exact .pure hm trivial
  | cons s rest ih =>
    obtain ⟨-, hsafe⟩ := safe_top hW hhost hp hvisits hm hactive hcovered
    refine hsafe.bind fun c m' hrun hbecomes _ => ?_
    have hrest : Visits p (.statements rest) .outermost [] := after_outermost s ▸ hvisits.rest
    exact ih hrest hbecomes.sound (hbecomes.active.trans hactive) fun k t m'' h =>
      hcovered k t m'' (.rest hrun h)

/-- The run of an accepted program is safe. -/
theorem safe_interpret (hW : W.Accepted) (hhost : host.AnswersNumbers) (hp : p ∈ W.programs)
    (hm : m.Sound W) (hactive : m.active = W.globals) (hcovered : Covered W host depth p m) :
    (interpret host depth p).Safe W m fun _ _ => True := by
  refine (safe_execute hW hhost hp .program hm hactive hcovered).bind fun _ m' _ hbecomes _ => ?_
  refine Action.Safe.get_bind ?_
  split
  · exact Action.safe_throw hbecomes.sound trivial
  · exact .pure hbecomes.sound trivial

end Program

/-- The occurrences in a program that is accepted have new numbers, and nothing is wrong with it. -/
theorem Session.fresh_of_accepted? {s : Session} {source : String} {program : Program}
    (h : s.accepted? source = some program) :
    Fresh (Stmt.allIds program) s.nextId (s.parse source).2.nextId ∧
      Stmt.AllSpelled Token.IsName program ∧ ∀ token fault, .fault token fault ∉ program.findings := by
  obtain ⟨hfaults, rfl, hnext, hmisuses⟩ := Session.of_accepted? h
  have hread := reads_of_parse hfaults
  rw [hnext]
  exact ⟨hread.numbered, hread.spelled_names, misuses_eq_nil_iff.mp hmisuses⟩

namespace History

variable {sink : Sink} {time : Nat → Float}

/-- The world of a history: its programs, their distances, and all frames made. -/
def world (sink : Sink) (time : Nat → Float) (h : History) : World where
  programs := h.programs sink time
  distances := h.distances sink time
  globals := (Machine.initial sink).globals
  made := h.Created sink time

/-- What holds between two runs of a session. -/
structure Between (sink : Sink) (time : Nat → Float) (h : History) : Prop where
  accepted : (h.world sink time).Accepted
  sound : (h.session sink time).machine.Sound (h.world sink time)
  active : (h.session sink time).machine.active = (h.world sink time).globals
  spent : ∀ p ∈ h.programs sink time, ∀ id ∈ Stmt.allIds p, id < (h.session sink time).nextId
  known : ∀ id, ((h.distances sink time)[id]?).isSome → id < (h.session sink time).nextId

theorem between_nil : Between sink time [] where
  accepted := ⟨by simp [world, programs], by simp [world, programs]⟩
  sound := by
    refine ⟨⟨Nat.one_pos, rfl, fun f name v hv => ?_, fun f v hv => ?_, fun f v hv => ?_, ?_⟩, rfl,
      rfl⟩
    · obtain ⟨-, rfl⟩ := Machine.binding?_initial hv
      trivial
    · exact absurd (Machine.binding?_initial hv).1 (by decide)
    · exact absurd (Machine.binding?_initial hv).1 (by decide)
    · intro object name v hv
      simp [session, Session.initial, Machine.initial, Store.field?, Store.addFrame, Store.empty] at hv
  active := rfl
  spent := by simp [programs]
  known := by simp [distances]

variable {earlier : History} {depth : Nat} {source : String} {program : Program}

theorem extends_cons : (world sink time earlier).Extends (world sink time ((depth, source) :: earlier)) where
  programs p hp := List.mem_append_right _ hp
  globals := rfl
  made := by
    rintro f o ⟨k, t, m, hreaches, hmakes⟩
    exact ⟨k, t, m, .inr hreaches, hmakes⟩

/-- What is known of a program that is accepted after a history. -/
structure Starting (sink : Sink) (time : Nat → Float) (depth : Nat) (source : String)
    (earlier : History) (program : Program) : Prop where
  accepted : (world sink time ((depth, source) :: earlier)).Accepted
  mem : program ∈ programs sink time ((depth, source) :: earlier)
  sound : ((session sink time earlier).ready program).Sound (world sink time ((depth, source) :: earlier))
  active : ((session sink time earlier).ready program).active = (Machine.initial sink).globals
  covered : program.Covered (world sink time ((depth, source) :: earlier)) (.reading time) depth
    ((session sink time earlier).ready program)

theorem programs_of_accepted? (depth : Nat)
    (h : (session sink time earlier).accepted? source = some program) :
    programs sink time ((depth, source) :: earlier) = program :: programs sink time earlier := by
  simp [programs, h]

theorem distances_of_accepted? (depth : Nat)
    (h : (session sink time earlier).accepted? source = some program) :
    distances sink time ((depth, source) :: earlier) =
      (distances sink time earlier).record program.findings := by
  simp [distances, h]

theorem Between.starting (h : Between sink time earlier)
    (haccepted : (session sink time earlier).accepted? source = some program) :
    Starting sink time depth source earlier program := by
  obtain ⟨hfresh, hspelled, hclean⟩ := Session.fresh_of_accepted? haccepted
  have hlocated : (located program.findings).Sublist (Stmt.allIds program) :=
    Stmt.located_allFindings _ program
  have hnodup := hlocated.nodup hfresh.nodup
  have hprograms := programs_of_accepted? depth haccepted
  have hdistances := distances_of_accepted? depth haccepted
  have hmem (p : Program) (hp : p ∈ (world sink time ((depth, source) :: earlier)).programs) :
      p = program ∨ p ∈ programs sink time earlier := by
    rw [show (world sink time ((depth, source) :: earlier)).programs = _ from hprograms] at hp
    exact List.mem_cons.mp hp
  refine ⟨⟨fun p hp => ?_, fun p hp => ?_⟩, ?_, ?_, h.active, fun k t m hreaches o hmakes => ?_⟩
  · rw [show (world sink time ((depth, source) :: earlier)).distances = _ from hdistances]
    obtain rfl | hp := hmem p hp
    · refine ⟨hfresh.nodup, fun id hid d => ?_, hclean⟩
      rw [Distances.record_eq_some hnodup]
      have hnew : (distances sink time earlier)[id]? = none := by
        by_contra hsome
        have hlt := h.known id (Option.isSome_iff_ne_none.mpr hsome)
        exact absurd (hfresh.bounds id hid).1 (Nat.not_le_of_lt hlt)
      simp [hnew]
    · have hresolved := h.accepted.resolved p hp
      refine ⟨hresolved.nodup, fun id hid d => ?_, hresolved.accepted⟩
      rw [Distances.record_eq_some hnodup, ← hresolved.recorded id hid d]
      have hold : id ∉ located program.findings := fun hmem =>
        absurd (hfresh.bounds id (hlocated.subset hmem)).1 (Nat.not_le_of_lt (h.spent p hp id hid))
      have hnot : .distance id d ∉ program.findings := fun hmem => hold (mem_located hmem)
      simp [hold, hnot, world]
  · obtain rfl | hp := hmem p hp
    · exact hspelled
    · exact h.accepted.spelled p hp
  · rw [hprograms]
    exact List.mem_cons_self
  · refine ⟨h.sound.store.extend extends_cons, ?_, h.sound.globals⟩
    rw [show (world sink time ((depth, source) :: earlier)).distances = _ from hdistances]
    rw [show distances sink time earlier = _ from h.sound.distances.symm]
    rfl
  · exact ⟨k, t, m, .inl ⟨program, haccepted, hreaches⟩, hmakes, rfl⟩

theorem Between.rejected (h : Between sink time earlier)
    (hrejected : (session sink time earlier).accepted? source = none) :
    Between sink time ((depth, source) :: earlier) := by
  have hprograms : programs sink time ((depth, source) :: earlier) = programs sink time earlier := by
    simp [programs, hrejected]
  have hdistances :
      distances sink time ((depth, source) :: earlier) = distances sink time earlier := by
    simp [distances, hrejected]
  have hsession : session sink time ((depth, source) :: earlier) =
      ((session sink time earlier).parse source).2 := (Session.runWithin_of_rejected hrejected).2
  have hle : (session sink time earlier).nextId ≤
      ((session sink time earlier).parse source).2.nextId := le_nextId_parse _ _ _
  refine ⟨⟨?_, ?_⟩, ?_, ?_, ?_, ?_⟩
  · rw [world, hprograms, hdistances]
    exact h.accepted.resolved
  · rw [world, hprograms]
    exact h.accepted.spelled
  · rw [hsession]
    exact ⟨h.sound.store.extend extends_cons, h.sound.distances.trans hdistances.symm,
      h.sound.globals⟩
  · rw [hsession]
    exact h.active
  · rw [hsession, hprograms]
    exact fun p hp id hid => Nat.lt_of_lt_of_le (h.spent p hp id hid) hle
  · rw [hsession, hdistances]
    exact fun id hid => Nat.lt_of_lt_of_le (h.known id hid) hle

theorem Between.run (h : Between sink time earlier)
    (haccepted : (session sink time earlier).accepted? source = some program) :
    Between sink time ((depth, source) :: earlier) := by
  have hstarting : Starting sink time depth source earlier program := h.starting haccepted
  obtain ⟨hfresh, -⟩ := Session.fresh_of_accepted? haccepted
  obtain ⟨m, hsession, hbecomes⟩ : ∃ m, session sink time ((depth, source) :: earlier) =
        ⟨m, ((session sink time earlier).parse source).2.nextId⟩ ∧
      ((session sink time earlier).ready program).Becomes
        (world sink time ((depth, source) :: earlier)) m := by
    have hrun := Session.runWithin_of_accepted depth (.reading time) haccepted
    have hsafe := Program.safe_interpret hstarting.accepted (Host.answersNumbers_reading time)
      hstarting.mem hstarting.sound hstarting.active hstarting.covered
    split at hrun
    · next hinterpret => exact ⟨_, hrun.2, (hsafe.of_ok hinterpret).1⟩
    · next hinterpret => exact ⟨_, hrun.2, (hsafe.of_error hinterpret).1⟩
  refine ⟨hstarting.accepted, ?_, ?_, ?_, ?_⟩
  · rw [hsession]
    exact hbecomes.sound
  · rw [hsession]
    exact hbecomes.active.trans hstarting.active
  · rw [hsession, programs_of_accepted? depth haccepted]
    intro p hp id hid
    obtain rfl | hp := List.mem_cons.mp hp
    · exact (hfresh.bounds id hid).2
    · exact Nat.lt_of_lt_of_le (h.spent p hp id hid) hfresh.le
  · rw [hsession, distances_of_accepted? depth haccepted]
    intro id hid
    have hlocated : (located program.findings).Sublist (Stmt.allIds program) :=
      Stmt.located_allFindings _ program
    obtain ⟨d, hd⟩ := Option.isSome_iff_exists.mp hid
    obtain hnew | ⟨-, hold⟩ :=
      (Distances.record_eq_some (hlocated.nodup hfresh.nodup)).mp hd
    · exact (hfresh.bounds id (hlocated.subset (mem_located hnew))).2
    · exact Nat.lt_of_lt_of_le (h.known id (by rw [hold]; rfl)) hfresh.le

/-- Between two runs of a session everything holds, whatever the texts were. -/
theorem between (sink : Sink) (time : Nat → Float) (h : History) : Between sink time h := by
  induction h with
  | nil => exact between_nil
  | cons run earlier ih =>
    obtain ⟨depth, source⟩ := run
    cases haccepted : (session sink time earlier).accepted? source with
    | none => exact ih.rejected haccepted
    | some program => exact ih.run haccepted

/-- At every moment of a run, the machine is sound and what it does fits. -/
theorem Passes.fitting {h : History} {t : Task} {m : Machine} (hpasses : h.Passes sink time t m) :
    ∃ W, W.Accepted ∧ W.Extends (h.world sink time) ∧ m.Sound W ∧ t.Fitting W m := by
  induction h with
  | nil => exact hpasses.elim
  | cons run earlier ih =>
    obtain ⟨depth, source⟩ := run
    obtain ⟨program, haccepted, hpasses⟩ | hpasses := hpasses
    · have hstarting : Starting sink time depth source earlier program :=
        (between sink time earlier).starting haccepted
      obtain ⟨hm, ht⟩ := hpasses.fitting hstarting.accepted (Host.answersNumbers_reading time)
        hstarting.mem .program hstarting.sound hstarting.active hstarting.covered
      exact ⟨_, hstarting.accepted, ⟨fun _ => id, rfl, fun _ _ => id⟩, hm, ht⟩
    · obtain ⟨W, hW, hextends, hm, ht⟩ := ih hpasses
      refine ⟨W, hW, ⟨fun p hp => ?_, ?_, fun f o hmade => ?_⟩, hm, ht⟩
      · exact extends_cons.programs p (hextends.programs p hp)
      · exact hextends.globals
      · exact extends_cons.made f o (hextends.made f o hmade)

end History

end Treewalk
