import Treewalk.Proofs.Session.Globals

/-! The active frame of a session. A run makes other frames active for as long as it is in blocks and
calls, and halts at any depth of them; between two runs, and whenever a top-level statement begins, the
global frame is the active one. -/

namespace Treewalk

/-- A machine is at top level if the global frame is the active one. -/
def Machine.AtTop (m : Machine) : Prop := m.active = m.globals

/-- Whoever leaves alone how names are found leaves a machine at top level there. -/
theorem Machine.Steady.atTop {m m' : Machine} (h : m.Steady m') (htop : m.AtTop) : m'.AtTop :=
  h.active.trans (htop.trans h.globals.symm)

theorem Machine.atTop_initial (sink : Sink) : (Machine.initial sink).AtTop := rfl

/-- Between the two, the same frame is the global one and the same one is active. -/
structure Session.SameFrames (s s' : Session) : Prop where
  globals : s'.machine.globals = s.machine.globals
  active : s'.machine.active = s.machine.active

namespace Session

variable {host : Host} {s s' s'' : Session} {source : String} {program : Program}

theorem SameFrames.refl (s : Session) : s.SameFrames s := ⟨rfl, rfl⟩

theorem SameFrames.trans (h : s.SameFrames s') (h' : s'.SameFrames s'') : s.SameFrames s'' :=
  ⟨h'.globals.trans h.globals, h'.active.trans h.active⟩

theorem SameFrames.atTop (h : s.SameFrames s') (htop : s.machine.AtTop) : s'.machine.AtTop :=
  h.active.trans (htop.trans h.globals.symm)

/-- The run of a text leaves the frames as they were, whether the text is rejected, halts or is run to
its end. -/
theorem sameFrames_runWithin (depth : Nat) (host : Host) (s : Session) (source : String) :
    s.SameFrames (s.runWithin depth host source).2 := by
  cases haccepted : s.accepted? source with
  | none =>
    rw [(runWithin_of_rejected haccepted).2]
    exact ⟨rfl, rfl⟩
  | some program =>
    rw [(runWithin_ending depth host haccepted).2]
    have hsteady := (steady_interpret host depth program).ending (s.ready program)
    exact ⟨hsteady.globals, hsteady.active⟩

theorem sameFrames_answer (host : Host) (s : Session) (call : Call) :
    s.SameFrames (s.answer host call).2 := by
  cases call with
  | run depth source => exact sameFrames_runWithin depth host s source
  | parse source =>
    rw [answer_parse]
    exact ⟨rfl, rfl⟩

theorem sameFrames_after (host : Host) (s : Session) (calls : List Call) :
    s.SameFrames (s.after host calls) := by
  induction calls generalizing s with
  | nil => exact .refl s
  | cons call rest ih => exact (sameFrames_answer host s call).trans (ih _)

/-- The active frame is always restored. On every machine, with whatever distances it has, an expression,
a statement, a list of them, a block that is run in any frame, and a call of any value with any arguments
leave the active frame, the global frame and the distances as they were, however they end. So a call of a
session leaves the global frame the active one, whatever was asked and however the run ended, and every
top-level statement of the next program that is accepted begins there. -/
theorem active_frame_restored (host : Host) :
    (∀ depth,
      (∀ e, (evaluate host depth e).Steady) ∧
      (∀ es, (evaluateAll host depth es).Steady) ∧
      (∀ st, (Treewalk.execute host depth st).Steady) ∧
      (∀ ss, (executeAll host depth ss).Steady) ∧
      (∀ frame ss, (Action.inFrame frame (executeAll host depth ss)).Steady) ∧
      ∀ f paren args, (Treewalk.call host depth f paren args).Steady) ∧
    (∀ (s : Session) call, s.SameFrames (s.answer host call).2) ∧
    ∀ sink calls,
      let s := (initial sink).after host calls
      s.machine.AtTop ∧ s.machine.globals = (Machine.initial sink).globals ∧
      ∀ depth source program, s.accepted? source = some program → ∀ st m,
        program.Begins host depth (s.ready program) st m →
          m.AtTop ∧ m.globals = (Machine.initial sink).globals := by
  refine ⟨fun depth => ?_, sameFrames_answer host, fun sink calls => ?_⟩
  · have hsteady := evaluatesSteadily host depth
    exact ⟨hsteady.expression, hsteady.expressions, hsteady.statement, hsteady.statements,
      fun frame ss => (hsteady.statements ss).inFrame frame, hsteady.call⟩
  · have hframes := sameFrames_after host (initial sink) calls
    have htop := hframes.atTop (Machine.atTop_initial sink)
    refine ⟨htop, hframes.globals, fun depth source program _ st m hbegins => ?_⟩
    exact ⟨hbegins.steady.atTop htop, hbegins.steady.globals.trans hframes.globals⟩

end Session

end Treewalk
