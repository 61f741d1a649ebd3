import Treewalk.Proofs.Session.Twins

/-! Texts that are rejected, and texts that are only read, leave no trace: they change nothing that
is seen of any other call of a session, although they spend numbers. -/

namespace Treewalk

/-- Every text is like itself. -/
theorem Call.Alike.same (call : Call) : call.Alike .same call := by
  cases call with
  | run => exact .run (.same _)
  | parse => exact .parse (.same _)

theorem Diagnostic.Like.eq {d d' : Diagnostic} (h : d.Like Token.Matching.same.Matches d') :
    d' = d := by
  cases h with
  | lex => rfl
  | parse ht => rw [show _ = _ from ht]
  | resolve ht => rw [show _ = _ from ht]

theorem Halt.Like.eq {halt halt' : Halt} (h : halt.Like Token.Matching.same.Matches halt') :
    halt' = halt := by
  cases h with
  | fault ht => rw [show _ = _ from ht]
  | sink => rfl
  | exhausted => rfl

theorem Outcome.Like.eq {o o' : Outcome} (h : o.Like Token.Matching.same.Matches o') : o' = o := by
  obtain ⟨⟨herrors, hhalt⟩, hsink, hglobals⟩ := h
  obtain ⟨⟨errors, halt⟩, sink, globals⟩ := o
  obtain ⟨⟨errors', halt'⟩, sink', globals'⟩ := o'
  cases hsink
  cases hglobals
  obtain rfl : errors' = errors :=
    (List.forall₂_eq_eq_eq ▸ herrors.imp fun _ _ hd => hd.eq.symm : errors = errors').symm
  cases hhalt with
  | none => rfl
  | some hhalt => rw [hhalt.eq]

namespace Session

section
variable {host : Host} (hhost : host.AnswersNumbers) (hdeaf : host.IgnoresArguments)
include hhost hdeaf

/-- A session is a twin of itself. -/
theorem twin_self (sink : Sink) (calls : List Call) :
    ∃ V, Twin .same V ((initial sink).after host calls) ((initial sink).after host calls) :=
  (twin_initial .same sink).after hhost hdeaf (List.forall₂_same.mpr fun call _ => .same call)

/-- Numbers that were spent meanwhile make no difference to what is seen later. -/
theorem outcomes_spend (sink : Sink) (earlier later : List Call) {s : Session}
    (hmachine : s.machine = ((initial sink).after host earlier).machine)
    (hnext : ((initial sink).after host earlier).nextId ≤ s.nextId) :
    s.outcomes host later = ((initial sink).after host earlier).outcomes host later := by
  obtain ⟨V, h⟩ := twin_self hhost hdeaf sink earlier
  obtain ⟨m, i⟩ := s
  cases hmachine
  have hlike := (h.spend (Nat.le_refl _) hnext).outcomes hhost hdeaf
    (List.forall₂_same.mpr fun call (_ : call ∈ later) => .same call)
  exact List.forall₂_eq_eq_eq ▸ hlike.flip.imp fun _ _ ho => ho.eq

/-- A call that leaves the machine alone may be left out. -/
theorem outcomes_insert (sink : Sink) (earlier later : List Call) (call : Call)
    (hmachine : (((initial sink).after host earlier).answer host call).2.machine =
      ((initial sink).after host earlier).machine) :
    ((initial sink).outcomes host (earlier ++ call :: later)).eraseIdx earlier.length =
      (initial sink).outcomes host (earlier ++ later) := by
  have hlater := outcomes_spend hhost hdeaf sink earlier later hmachine nextId_le_answer
  rw [outcomes_append, outcomes_append, outcomes,
    List.eraseIdx_append_of_length_le (Nat.le_of_eq length_outcomes), length_outcomes, Nat.sub_self,
    List.eraseIdx_cons_zero, hlater]

end

/-- A rejected run leaves no trace. After any calls, a run that reports a lexical fault, one of the
grammar, or a misuse of names does not stop in the midst of a program, and leaves the machine with
its frames, its instances, its distances and its sink as it was; only numbers are spent. To put such
a run, or a text that is only read, between other calls changes neither what any of these reports,
nor what is printed, nor the globals as they are displayed. -/
theorem rejected_calls_leave_no_trace (time : Nat → Float) (sink : Sink)
    (earlier later : List Call) :
    let host := Host.reading time
    let start := initial sink
    let s := start.after host earlier
    (∀ depth source, (s.runWithin depth host source).1.errors ≠ [] →
      (s.runWithin depth host source).1.halt = none ∧
      (s.runWithin depth host source).2.machine = s.machine ∧
      s.nextId ≤ (s.runWithin depth host source).2.nextId ∧
      (start.outcomes host (earlier ++ .run depth source :: later)).eraseIdx earlier.length =
        start.outcomes host (earlier ++ later)) ∧
    ∀ source, (start.outcomes host (earlier ++ .parse source :: later)).eraseIdx earlier.length =
      start.outcomes host (earlier ++ later) := by
  intro host start s
  have hhost : host.AnswersNumbers := Host.answersNumbers_reading time
  have hdeaf : host.IgnoresArguments := Host.ignoresArguments_reading time
  refine ⟨fun depth source herrors => ?_, fun source => ?_⟩
  · rw [errors_runWithin, ← accepted?_eq_none_iff] at herrors
    obtain ⟨hhalt, hs⟩ : (s.runWithin depth host source).1.halt = none ∧
        (s.runWithin depth host source).2 = (s.parse source).2 := runWithin_of_rejected herrors
    have hmachine : (s.runWithin depth host source).2.machine = s.machine := by rw [hs, machine_parse]
    refine ⟨hhalt, hmachine, ?_, outcomes_insert hhost hdeaf sink earlier later _ hmachine⟩
    rw [hs]
    exact nextId_le_parse source
  · refine outcomes_insert hhost hdeaf sink earlier later _ ?_
    rw [answer_parse, machine_parse]

end Session

end Treewalk
