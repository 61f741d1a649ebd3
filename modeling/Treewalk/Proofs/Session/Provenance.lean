import Treewalk.Proofs.Evaluation.Lawful
import Treewalk.Proofs.Evaluation.Tracing
import Treewalk.Proofs.Session.Calls

/-! Where the values of a session come from. At every moment of a session, whatever a machine works on and
whatever is in its store was made at moments of that session. -/

namespace Treewalk

theorem Task.Reaches.trans {host : Host} {n k k' : Nat} {t t' t'' : Task} {m m' m'' : Machine}
    (h : Reaches host n t m k t' m') (h' : Reaches host k t' m' k' t'' m'') :
    Reaches host n t m k' t'' m'' := by
  induction h with
  | self => exact h'
  | step hstart _ ih => exact .step hstart (ih h')

namespace Program

variable {O : Moments} {host : Host} {depth k k' : Nat} {ss : Program} {t t' : Task} {m m' m'' : Machine}

theorem Reaches.trans (h : Reaches host depth ss m k t m')
    (h' : Task.Reaches host k t m' k' t' m'') : Reaches host depth ss m k' t' m'' := by
  induction h with
  | first hreaches => exact .first (hreaches.trans h')
  | rest hrun _ ih => exact .rest hrun (ih h')

/-- All moments of the run of a program are known. -/
def Recorded (O : Moments) (host : Host) (depth : Nat) (ss : Program) (m : Machine) : Prop :=
  ∀ k t m', Reaches host depth ss m k t m' → O k t m'

/-- A top-level statement traces values. -/
theorem traces_top {s : Stmt} {rest : List Stmt} (hhost : host.AnswersNumbers) (hm : m.store.Traced O)
    (hrecorded : Recorded O host depth (s :: rest) m) :
    (execute host depth s).Traces O m fun c s => c.Traced O s :=
  Task.traces hhost depth (.statement s) m hm trivial fun k t m' h => hrecorded k t m' (.first h)

theorem Reaches.traced (h : Reaches host depth ss m k t m') (hhost : host.AnswersNumbers)
    (hm : m.store.Traced O) (hrecorded : Recorded O host depth ss m) :
    m'.store.Traced O ∧ t.Traced O m'.store := by
  induction h with
  | first hreaches =>
    exact hreaches.traced hhost hm trivial fun k t m' h => hrecorded k t m' (.first h)
  | rest hrun _ ih =>
    obtain ⟨hgoes, -⟩ := (traces_top hhost hm hrecorded).of_ok hrun
    exact ih hgoes.traced fun k t m' h => hrecorded k t m' (.rest hrun h)

theorem traces_executeProgram (hhost : host.AnswersNumbers) (hm : m.store.Traced O)
    (hrecorded : Recorded O host depth ss m) :
    (executeProgram host depth ss).Traces O m fun _ _ => True := by
  induction ss generalizing m with
  | nil => exact .pure hm trivial
  | cons s rest ih =>
    refine (traces_top hhost hm hrecorded).bind fun c m' hrun hgoes _ => ?_
    exact ih hgoes.traced fun k t m'' h => hrecorded k t m'' (.rest hrun h)

theorem traces_interpret (hhost : host.AnswersNumbers) (hm : m.store.Traced O)
    (hrecorded : Recorded O host depth ss m) :
    (interpret host depth ss).Traces O m fun _ _ => True := by
  refine (traces_executeProgram hhost hm hrecorded).bind fun _ m' _ hgoes _ => ?_
  refine Action.Traces.get_bind ?_
  split
  · exact ⟨hgoes.traced, Nat.le_refl _⟩
  · exact .pure hgoes.traced trivial

end Program

namespace History

variable {sink : Sink} {time : Nat → Float} {h earlier : History} {k k' : Nat} {t t' : Task}
  {m m' : Machine}

/-- The moments within a moment of a session are moments of the session. -/
theorem Reaches.trans (hreaches : h.Reaches sink time k t m)
    (hlater : Task.Reaches (.reading time) k t m k' t' m') : h.Reaches sink time k' t' m' := by
  induction h with
  | nil => exact hreaches.elim
  | cons run earlier ih =>
    obtain ⟨program, haccepted, hreaches⟩ | hreaches := hreaches
    · exact .inl ⟨program, haccepted, hreaches.trans hlater⟩
    · exact .inr (ih hreaches)

/-- The moments of a session so far. -/
abbrev moments (sink : Sink) (time : Nat → Float) (h : History) : Moments := h.Reaches sink time

theorem traced_start (O : Moments) (sink : Sink) : (Machine.initial sink).store.Traced O := by
  refine ⟨fun f name v hv => ?_, fun object name v hv => ?_⟩
  · obtain ⟨-, rfl⟩ := Machine.binding?_initial hv
    trivial
  · simp [Machine.initial, Store.field?, Store.addFrame, Store.empty] at hv

/-- Between two runs all values in the store are traced. -/
theorem traced_session (sink : Sink) (time : Nat → Float) (h : History) :
    (h.session sink time).machine.store.Traced (h.moments sink time) := by
  induction h with
  | nil => exact traced_start _ sink
  | cons run earlier ih =>
    obtain ⟨depth, source⟩ := run
    have hbefore : (session sink time earlier).machine.store.Traced
        (moments sink time ((depth, source) :: earlier)) := ih.mono fun _ _ _ => .inr
    cases haccepted : (session sink time earlier).accepted? source with
    | none =>
      rw [session, (Session.runWithin_of_rejected haccepted).2]
      exact hbefore
    | some program =>
      rw [session, (Session.runWithin_ending depth (.reading time) haccepted).2]
      have hrecorded : Program.Recorded (moments sink time ((depth, source) :: earlier))
          (.reading time) depth program ((session sink time earlier).ready program) :=
        fun k t m hreaches => .inl ⟨program, haccepted, hreaches⟩
      have htraces : (interpret (.reading time) depth program).Traces _
          ((session sink time earlier).ready program) _ :=
        Program.traces_interpret (Host.answersNumbers_reading time) hbefore hrecorded
      unfold Action.ending
      cases hrun : interpret (.reading time) depth program ((session sink time earlier).ready program) with
      | ok _ m => exact (htraces.of_ok hrun).1.traced
      | error halt m => exact (htraces.of_error hrun).traced

/-- At every moment of a session the values are traced to moments of the session. -/
theorem Reaches.traced (hreaches : h.Reaches sink time k t m) :
    m.store.Traced (h.moments sink time) ∧ t.Traced (h.moments sink time) m.store := by
  induction h with
  | nil => exact hreaches.elim
  | cons run earlier ih =>
    obtain ⟨depth, source⟩ := run
    obtain ⟨program, haccepted, hreaches⟩ | hreaches := hreaches
    · refine hreaches.traced (Host.answersNumbers_reading time)
        ((traced_session sink time earlier).mono fun _ _ _ => .inr) fun k t m hreaches => ?_
      exact .inl ⟨program, haccepted, hreaches⟩
    · obtain ⟨hm, ht⟩ := ih hreaches
      exact ⟨hm.mono fun _ _ _ => .inr, ht.mono fun _ _ _ => .inr⟩

/-- What a task of a session comes to is traced. -/
theorem Reaches.traces (hreaches : h.Reaches sink time k t m) :
    t.Traces (h.moments sink time) (.reading time) k m := by
  obtain ⟨hm, ht⟩ := hreaches.traced
  exact Task.traces (Host.answersNumbers_reading time) k t m hm ht fun _ _ _ => hreaches.trans

/-- While a task is done, `this` and `parent` stay bound as they are wherever there is a frame. -/
theorem Reaches.keeps (hreaches : h.Reaches sink time k t m) {f : FrameId}
    (hf : f < m.store.frames.size) {word : String} (hword : word = "this" ∨ word = "parent") :
    ((t.action (.reading time) k).storeAfter m).binding? f word = m.store.binding? f word := by
  obtain ⟨cs, hcs⟩ := Task.story (.reading time) k t m
  rw [hcs.ends, ← Store.stage_length]
  refine Store.stage_induction (motive := fun s => s.binding? f word = m.store.binding? f word)
    rfl ?_ cs.length
  intro i c hc ih
  rw [← ih]
  obtain ⟨k', t', m', hlater, hdoes, -⟩ := hcs.allowed.at_stage hc
  obtain hsame | ⟨v, rfl, -⟩ | ⟨names, b, p, rfl, hnew, -⟩ :=
    Store.binding?_apply (m.store.stage cs i) c f word
  · exact hsame
  · obtain ⟨W, hW, -, hm, ht⟩ := (hreaches.trans hlater).passes.fitting
    have hplaces := hdoes.places hW hm ht
    exact (hword.elim hplaces.ne_this hplaces.ne_parent).elim
  · exact absurd hnew (Nat.ne_of_lt (Nat.lt_of_lt_of_le hf (m.store.size_le_stage cs i)))

end History

end Treewalk
