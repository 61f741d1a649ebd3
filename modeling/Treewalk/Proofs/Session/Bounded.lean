import Mathlib
import Treewalk.Proofs.Evaluation.Bounded
import Treewalk.Proofs.Session.Joining

/-! Bounded sinks. A sink that takes only so many bytes cuts the output of a run and nothing else: up to
the print whose bytes do not fit, the run is the same as with a sink that takes all, and this print ends
it. -/

namespace Treewalk

section
variable {host : Host} {depth limit : Nat} {p : Program} {t : Task} {m m' m₁ : Machine}

theorem Program.Passes.prints (h : p.Passes host depth m t m') (hroom : m.sink.room = none) :
    m.Prints m' := by
  induction h with
  | first hwithin => exact hwithin.prints hroom
  | rest hrun _ ih =>
    have hprints := (((Action.closed_cut 0).evaluates host depth).statement _).prints_of_ok hroom hrun
    exact hprints.trans (ih hprints.room)

/-- The moments of a run with the bound are those without it before the bound is passed. -/
theorem Program.passes_bounded_iff (hroom : m.sink.room = none)
    (hfits : m.sink.written.size ≤ limit) :
    p.Passes host depth (m.bounded limit) t m₁ ↔
      ∃ m', p.Passes host depth m t m' ∧ m'.sink.written.size ≤ limit ∧ m₁ = m'.bounded limit := by
  have hstatement := fun s => ((Action.closed_cut limit).evaluates host depth).statement s
  constructor
  · intro h
    generalize hm : m.bounded limit = m₀ at h
    induction h generalizing m with
    | first hwithin =>
      subst hm
      obtain ⟨m', hwhole, hfits', rfl⟩ := (Task.within_bounded_iff hroom hfits).mp hwithin
      exact ⟨m', .first hwhole, hfits', rfl⟩
    | rest hrun _ ih =>
      subst hm
      obtain ⟨m', hwhole, hprints, hfits', rfl⟩ := (hstatement _).of_bounded_ok hroom hfits hrun
      obtain ⟨m'', hpasses, hfits'', rfl⟩ := ih hprints.room hfits' rfl
      exact ⟨m'', .rest hwhole hpasses, hfits'', rfl⟩
  · rintro ⟨m', h, hfits', rfl⟩
    induction h with
    | first hwithin =>
      exact .first ((Task.within_bounded_iff hroom hfits).mpr ⟨_, hwithin, hfits', rfl⟩)
    | rest hrun hpasses ih =>
      have hprints := (hstatement _).prints_of_ok hroom hrun
      have hfits₁ := Nat.le_trans (hpasses.prints hprints.room).size_le hfits'
      exact .rest ((hstatement _).bounded_ok hroom hrun hfits₁) (ih hprints.room hfits₁ hfits')

end

/-- An action leaves the same machine whether or not one asks why it ended. -/
theorem Action.snd_ending (x : Action Unit) (m : Machine) : (x.ending m).2 = x.after m := by
  rw [ending, after]
  cases x m <;> rfl

namespace Session

/-- The session, printing to another sink from now on. -/
def printingTo (sink : Sink) (s : Session) : Session := { s with machine := { s.machine with sink } }

variable {s : Session} {source : String} {program : Program}

/-- A run of a text that is accepted reports how it ended. -/
theorem report_runWithin (haccepted : s.accepted? source = some program) (host : Host)
    (depth : Nat) :
    (s.runWithin depth host source).1 =
      ⟨[], ((interpret host depth program).ending (s.ready program)).1⟩ := by
  have herrors : (s.runWithin depth host source).1.errors = [] :=
    errors_runWithin.trans (complaints_eq_nil haccepted)
  rw [← (runWithin_ending depth host haccepted).1, ← herrors]

/-- A bounded sink cuts the output and nothing else. Let a session run a text, printing to a sink that
takes all, and let `out` be what is printed. With a sink that takes `limit` more bytes, the run has the
same report, and leaves the same session but for the room in the sink, if `out` has no more bytes than
that. Otherwise the first `limit` bytes of `out` are printed, and the run ends because the sink is full.
Whatever is done at any depth in the run with the bound is done in the other one, from the same state, at
a moment when no more bytes were printed than the sink takes, and everything that is done there at such a
moment is done with the bound as well: nothing is done after the print whose bytes do not fit. -/
theorem bounded_sink_cuts_output (haccepted : s.accepted? source = some program)
    (host : Host) (depth : Nat) (written : ByteArray) (limit : Nat) (flushFails : Bool) :
    let whole := s.printingTo ⟨written, none, flushFails⟩
    let cut := s.printingTo ⟨written, some limit, flushFails⟩
    let result := whole.runWithin depth host source
    let result' := cut.runWithin depth host source
    ∃ out, result.2.machine.sink.written = written ++ out ∧
      (out.size ≤ limit → result'.1 = result.1 ∧
        result'.2 = { result.2 with machine := result.2.machine.bounded (written.size + limit) }) ∧
      (limit < out.size → result'.1 = ⟨[], some (.sink .full)⟩ ∧
        result'.2.machine.sink.written = written ++ out.extract 0 limit) ∧
      ∀ t m, program.Passes host depth (cut.ready program) t m ↔
        ∃ m', program.Passes host depth (whole.ready program) t m' ∧
          m'.sink.written.size ≤ written.size + limit ∧ m = m'.bounded (written.size + limit) := by
  intro whole cut result result'
  have hroom : (whole.ready program).sink.room = none := rfl
  have hfits : (whole.ready program).sink.written.size ≤ written.size + limit := Nat.le_add_right _ _
  have hready : cut.ready program = (whole.ready program).bounded (written.size + limit) := by
    have hlimit : written.size + limit - written.size = limit := Nat.add_sub_cancel_left _ _
    simp only [Machine.bounded, whole, cut, ready, adopt, printingTo, hlimit]
  have hwhole : whole.accepted? source = some program := haccepted
  have hcut : cut.accepted? source = some program := haccepted
  have hsession : result.2 = _ := (runWithin_ending depth host hwhole).2
  have hsession' : result'.2 = _ := (runWithin_ending depth host hcut).2
  have hreport : result.1 = _ := report_runWithin hwhole host depth
  have hreport' : result'.1 = _ := report_runWithin hcut host depth
  obtain ⟨hprints, hcuts⟩ := cut_interpret (written.size + limit) host depth program _ hroom
  obtain ⟨out, hout⟩ : ∃ out, ((interpret host depth program).after
      (whole.ready program)).sink.written = written ++ out := hprints.printed
  rw [hready] at hsession' hreport'
  refine ⟨out, ?_, ?_, ?_, fun t m => hready ▸ Program.passes_bounded_iff hroom hfits⟩
  · rw [hsession, Action.snd_ending]
    exact hout
  · intro hsmall
    cases hcuts hfits with
    | ok hrun _ hrun' =>
      rw [hreport, hreport', hsession, hsession', Action.ending, Action.ending, hrun, hrun']
      exact ⟨rfl, rfl⟩
    | error hrun _ hrun' =>
      rw [hreport, hreport', hsession, hsession', Action.ending, Action.ending, hrun, hrun']
      exact ⟨rfl, rfl⟩
    | full hover =>
      rw [hout, ByteArray.size_append] at hover
      exact absurd hsmall (Nat.not_le_of_lt (Nat.lt_of_add_lt_add_left hover))
  · intro hlarge
    have hover : written.size + limit < (written ++ out).size := by
      rw [ByteArray.size_append]
      exact Nat.add_lt_add_left hlarge _
    cases hcuts hfits with
    | ok hrun hfits' =>
      rw [Action.after_of_ok hrun] at hout
      rw [hout] at hfits'
      exact absurd hfits' (Nat.not_le_of_lt hover)
    | error hrun hfits' =>
      rw [Action.after_of_error hrun] at hout
      rw [hout] at hfits'
      exact absurd hfits' (Nat.not_le_of_lt hover)
    | full _ hrun' hwritten =>
      rw [hreport', hsession', Action.ending, hrun']
      refine ⟨rfl, hwritten.trans ?_⟩
      rw [hout, ByteArray.extract_append, extract_of_size_le (Nat.le_add_right _ _), Nat.zero_sub,
        Nat.add_sub_cancel_left]

/-- With seven bytes to take, the second print is cut behind two of them. -/
theorem bounded_sink_cuts_second_print :
    let s := (initial .unbounded).printingTo ⟨.empty, some 7, false⟩
    let result := s.runWithin 9 (.clock 0) "print true; print null; print false;"
    result.1 = ⟨[], some (.sink .full)⟩ ∧ result.2.machine.sink.written = "true\nnu".toUTF8 := by
  have haccepted : (initial .unbounded).accepted? "print true; print null; print false;" =
      some [.print (.literal (.bool true)), .print (.literal .null),
        .print (.literal (.bool false))] := by
    cbv
  obtain ⟨out, hout, -, hlarge, -⟩ :=
    bounded_sink_cuts_output haccepted (.clock 0) 9 .empty 7 false
  have hwhole : out = "true\nnull\nfalse\n".toUTF8 := by
    rw [ByteArray.empty_append] at hout
    rw [← hout]
    cbv
  rw [hwhole] at hlarge
  exact hlarge (by decide)

end Session

end Treewalk
