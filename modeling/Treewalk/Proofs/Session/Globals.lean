import Mathlib
import Treewalk.Proofs.Evaluation.Globals
import Treewalk.Proofs.Session.Confinement

/-! The global names of a session. A run adds the names that its completed top-level statements declare,
and nothing else that is done in it adds a name or takes one away. -/

namespace Treewalk

namespace Store

/-- The names that a frame binds are those that are listed with their values. -/
theorem mem_names_iff {s : Store} {f : FrameId} {name : String} :
    name ∈ s.names f ↔ name ∈ (s.bindings f).map Prod.fst := by
  unfold names bindings binding?
  cases s.frames[f]? with
  | none => simp
  | some frame => simp [Std.TreeMap.map_fst_toList_eq_keys]

end Store

theorem Stmt.setOf_names_nil : {name | name ∈ names []} = (∅ : Set String) := by
  simp [names]

theorem Stmt.setOf_names_cons (s : Stmt) (ss : List Stmt) :
    {name | name ∈ names (s :: ss)} = {name | name ∈ names [s]} ∪ {name | name ∈ names ss} := by
  ext name
  rw [Set.mem_ofPred_eq, names_cons]
  exact List.mem_append

namespace Program

/-- A top-level statement is begun: the ones before it are completed. -/
inductive Begins (host : Host) (depth : Nat) : Program → Machine → Stmt → Machine → Prop
  | first {s rest m} : Begins host depth (s :: rest) m s m
  | rest {s rest m c m' s' m''} : execute host depth s m = .ok c m' →
    Begins host depth rest m' s' m'' → Begins host depth (s :: rest) m s' m''

/-- The top-level statements that are completed in the run of a program. -/
def completed (host : Host) (depth : Nat) : Program → Machine → List Stmt
  | [], _ => []
  | s :: rest, m =>
    match execute host depth s m with
    | .ok _ m' => s :: completed host depth rest m'
    | .error _ _ => []

variable {W : World} {host : Host} {depth k : Nat} {p ss : Program} {m m' m₁ : Machine} {s : Stmt}
  {t : Task} {f : FrameId}

theorem Begins.reaches (h : Begins host depth ss m s m₁)
    (hreaches : Task.Reaches host depth (.statement s) m₁ k t m') :
    Reaches host depth ss m k t m' := by
  induction h with
  | first => exact .first hreaches
  | rest hrun _ ih => exact .rest hrun (ih hreaches)

theorem Begins.steady (h : Begins host depth ss m s m₁) : m.Steady m₁ := by
  induction h with
  | first => exact .refl _
  | rest hrun _ ih => exact (((evaluatesSteadily host depth).statement _).of_ok hrun).trans ih

/-- Each top-level statement of an accepted program may be run when its turn comes. -/
theorem Begins.ready (h : Begins host depth ss m s m₁) (hW : W.Accepted)
    (hhost : host.AnswersNumbers) (hp : p ∈ W.programs)
    (hvisits : Visits p (.statements ss) .outermost []) (hm : m.Sound W)
    (hactive : m.active = W.globals) (hcovered : Covered W host depth ss m) :
    (Task.statement s).Ready W host depth m₁ := by
  obtain ⟨hsound, hfitting⟩ :=
    (h.reaches .self).passes.fitting hW hhost hp hvisits hm hactive hcovered
  exact ⟨hsound, hfitting, fun k t m' hreaches => hcovered k t m' (h.reaches hreaches)⟩

@[simp] theorem completed_nil : completed host depth [] m = [] := rfl

theorem completed_of_ok {c : Completion} (h : execute host depth s m = .ok c m') :
    completed host depth (s :: ss) m = s :: completed host depth ss m' := by
  rw [completed, h]

theorem completed_of_error {halt : Halt} (h : execute host depth s m = .error halt m') :
    completed host depth (s :: ss) m = [] := by
  rw [completed, h]

/-- A statement is completed only if all that come before it are. -/
theorem completed_prefix (host : Host) (depth : Nat) (ss : Program) (m : Machine) :
    ss.completed host depth m <+: ss := by
  induction ss generalizing m with
  | nil => exact List.prefix_rfl
  | cons s rest ih =>
    cases hrun : execute host depth s m with
    | ok c m' =>
      rw [completed_of_ok hrun]
      exact (List.prefix_cons_inj s).mpr (ih m')
    | error halt m' =>
      rw [completed_of_error hrun]
      exact List.nil_prefix

/-- If nothing halts the run, all statements are completed. -/
theorem completed_eq (h : executeProgram host depth ss m = .ok () m') :
    ss.completed host depth m = ss := by
  induction ss generalizing m with
  | nil => rfl
  | cons s rest ih =>
    cases hrun : execute host depth s m with
    | error halt m₁ => cases (bind_of_error hrun).symm.trans h
    | ok c m₁ =>
      rw [completed_of_ok hrun]
      exact congrArg (s :: ·) (ih ((bind_of_ok hrun).symm.trans h))

/-- If each statement brings the names that it declares, then the program brings those of the statements
that are completed. -/
theorem names_executeProgram (h : ∀ s m₁, Begins host depth ss m s m₁ →
      (execute host depth s).Brings m₁ f {name | name ∈ Stmt.names [s]}) :
    ((executeProgram host depth ss).storeAfter m).names f =
      m.store.names f ∪ {name | name ∈ Stmt.names (ss.completed host depth m)} := by
  induction ss generalizing m with
  | nil =>
    rw [completed_nil, Stmt.setOf_names_nil, Set.union_empty]
    rfl
  | cons s rest ih =>
    have hfirst := h s m .first
    unfold Action.Brings at hfirst
    rw [executeProgram]
    cases hrun : execute host depth s m with
    | error halt m₁ =>
      rw [hrun] at hfirst
      rw [Action.storeAfter_bind_of_error hrun, completed_of_error hrun, Stmt.setOf_names_nil,
        Set.union_empty]
      exact hfirst
    | ok c m₁ =>
      rw [hrun] at hfirst
      have hrest := ih fun s' m' hbegins => h s' m' (.rest hrun hbegins)
      rw [Action.storeAfter_bind_of_ok hrun, completed_of_ok hrun, Stmt.setOf_names_cons,
        ← Set.union_assoc, ← hfirst]
      exact hrest

end Program

namespace History

variable {sink : Sink} {time : Nat → Float} {earlier : History} {depth : Nat} {source : String}
  {program : Program} {st : Stmt} {m : Machine}

/-- No frame that is made in a session is the global one. -/
theorem not_made_globals (sink : Sink) (time : Nat → Float) (h : History) (o : Opening) :
    ¬(h.world sink time).made (h.world sink time).globals o := by
  intro ho
  obtain ⟨cs, hcs⟩ := exists_chronicle sink time h
  exact hcs.ne_globals ho rfl

/-- What is known of a top-level statement when its turn comes. -/
theorem Starting.begins (h : Starting sink time depth source earlier program)
    (hbegins : program.Begins (.reading time) depth ((session sink time earlier).ready program) st m) :
    (Task.statement st).Ready (world sink time ((depth, source) :: earlier)) (.reading time) depth m ∧
      m.active = (Machine.initial sink).globals :=
  ⟨hbegins.ready h.accepted (Host.answersNumbers_reading time) h.mem .program h.sound h.active h.covered,
    hbegins.steady.active.trans h.active⟩

end History

/-- Nothing halts a run that comes to its end. -/
theorem Action.ending_eq_none {x : Action Unit} {m : Machine} (h : (x.ending m).1 = none) :
    ∃ m', x m = .ok () m' := by
  unfold ending at h
  cases hrun : x m with
  | ok _ m' => exact ⟨m', rfl⟩
  | error halt m' =>
    rw [hrun] at h
    cases h

namespace Session

/-- The names that are bound in the global frame. -/
def globalNames (s : Session) : Set String := {name | name ∈ s.globals.map Prod.fst}

theorem globalNames_eq (s : Session) : s.globalNames = s.machine.store.names s.machine.globals := by
  ext name
  exact Store.mem_names_iff.symm

/-- Only declarations at the top level add global names. After the run of a source text that is accepted,
the global names are those from before and those that its completed top-level statements declare; the
completed ones are the first ones of the program, and they are all of it if nothing halts the run. A
top-level statement adds the names that it declares, once it is completed, and none if it fails. While a
task inside of it is done, the global names are those from before the statement, from the beginning of
the task to its end. -/
theorem only_declarations_add_globals (time : Nat → Float) (sink : Sink) (calls : List Call)
    (depth : Nat) (source : String) (program : Program) :
    let host := Host.reading time
    let s := (initial sink).after host calls
    let globals := (Machine.initial sink).globals
    s.accepted? source = some program →
    let completed := program.completed host depth (s.ready program)
    (s.runWithin depth host source).2.globalNames =
        s.globalNames ∪ {name | name ∈ Stmt.names completed} ∧
    completed <+: program ∧
    ((s.runWithin depth host source).1.halt = none → completed = program) ∧
    ∀ st m, program.Begins host depth (s.ready program) st m →
      (Treewalk.execute host depth st).Brings m globals {name | name ∈ Stmt.names [st]} ∧
      ∀ k t m', Task.Inside host depth (.statement st) m k t m' →
        m'.store.names globals = m.store.names globals ∧
        ((t.action host k).storeAfter m').names globals = m.store.names globals := by
  intro host s globals haccepted completed
  have hhost : host.AnswersNumbers := Host.answersNumbers_reading time
  obtain ⟨h, hs⟩ : ∃ h : History, s = h.session sink time := exists_history sink time calls
  have hbetween := History.between sink time h
  have hstarting : History.Starting sink time depth source h program :=
    hbetween.starting (hs ▸ haccepted)
  have hfree := History.not_made_globals sink time ((depth, source) :: h)
  have hbegins (st : Stmt) (m : Machine)
      (hst : program.Begins host depth (s.ready program) st m) :=
    hstarting.begins (hs ▸ hst)
  have hbrings (st : Stmt) (m : Machine) (hst : program.Begins host depth (s.ready program) st m) :
      (Treewalk.execute host depth st).Brings m globals {name | name ∈ Stmt.names [st]} := by
    obtain ⟨hready, hactive⟩ := hbegins st m hst
    exact Task.brings_execute hstarting.accepted hhost hfree hready hactive
  obtain ⟨hhalt, hafter⟩ := runWithin_ending depth host haccepted
  refine ⟨?_, Program.completed_prefix host depth program _, fun hnone => ?_, fun st m hst =>
    ⟨hbrings st m hst, fun k t m' hinside => ?_⟩⟩
  · have hbefore : s.machine.globals = globals := hs ▸ hbetween.sound.globals
    have hglobals : ((interpret host depth program).ending (s.ready program)).2.globals = globals :=
      ((steady_interpret host depth program).ending _).globals.trans (hs ▸ hstarting.sound.globals)
    rw [globalNames_eq, globalNames_eq, hafter, hglobals, hbefore, Action.store_ending,
      interpret, Action.Still.storeAfter_bind fun _ => Action.still_flush]
    exact Program.names_executeProgram hbrings
  · obtain ⟨m', hrun⟩ := Action.ending_eq_none (hhalt.symm.trans hnone)
    rw [interpret] at hrun
    cases hexecute : executeProgram host depth program (s.ready program) with
    | ok _ m₁ => exact Program.completed_eq hexecute
    | error halt m₁ => cases (bind_of_error hexecute).symm.trans hrun
  · exact Task.names_inside hstarting.accepted hhost hfree (hbegins st m hst).1 hinside

/-- A program that halts in its third statement has declared the name of its second one. -/
theorem only_declarations_add_globals_at_halt :
    let host := Host.reading fun _ => 0
    let s := initial .unbounded
    let source := "\x7b var y; \x7d var x; x.y; var z;"
    (s.runWithin 9 host source).2.globalNames = s.globalNames ∪ {"x"} := by
  intro host s source
  let name (text : String) : Token := ⟨.identifier, text, 1⟩
  let program : Program := [.block [.var (name "y") none], .var (name "x") none,
    .expression (.get (.variable ⟨0, name "x"⟩) (name "y")), .var (name "z") none]
  have haccepted : s.accepted? source = some program := by cbv
  have hcompleted : program.completed host 9 (s.ready program) =
      [.block [.var (name "y") none], .var (name "x") none] := by
    cbv
  have hnames : (s.runWithin 9 host source).2.globalNames = s.globalNames ∪
      {other | other ∈ Stmt.names (program.completed host 9 (s.ready program))} :=
    (only_declarations_add_globals (fun _ => 0) .unbounded [] 9 source program haccepted).1
  rw [hcompleted] at hnames
  simpa [Stmt.names, Stmt.declared?, name] using hnames

end Session

end Treewalk
