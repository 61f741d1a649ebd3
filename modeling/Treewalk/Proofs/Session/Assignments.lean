import Mathlib
import Treewalk.Proofs.Evaluation.Halts
import Treewalk.Proofs.Session.Agreement
import Treewalk.Proofs.Session.Calls

/-! Assignments. An assignment writes to the frame at its distance, or to the global one. A global that
is not bound is a fault; a local name is bound already, unless it is assigned while its own initial value
is being evaluated. -/

namespace Treewalk

/-- The one store is the other one but for what a single name stands for in a single frame. -/
structure Store.DiffersAt (s s' : Store) (frame : FrameId) (name : String) (v : Value) : Prop where
  value : s'.binding? frame name = some v
  others : ∀ f other, f ≠ frame ∨ other ≠ name → s'.binding? f other = s.binding? f other
  frames : s'.frames.size = s.frames.size
  enclosing : ∀ f, s'.enclosing? f = s.enclosing? f
  fields : s'.fields = s.fields

theorem Store.differsAt_define {s : Store} {frame : FrameId} {name : String} {v : Value}
    (hframe : frame < s.frames.size) : s.DiffersAt (s.define frame name v) frame name v where
  value := Store.binding?_define_same hframe
  others _ _ hne := Store.binding?_define_ne (hne.imp Ne.symm Ne.symm)
  frames := s.size_define frame name v
  enclosing f := s.enclosing?_define frame f name v
  fields := rfl

namespace Machine

/-- The frame that an occurrence is written to: the one at its distance, or the global one. -/
def written? (m : Machine) (ref : Reference) : Option FrameId :=
  match m.distances[ref.id]? with
  | some d => m.store.ancestor? m.active d
  | none => some m.globals

/-- To assign `v` succeeds, and changes what the name stands for in this frame, and nothing else. -/
def Assigns (m : Machine) (ref : Reference) (v : Value) (frame : FrameId) : Prop :=
  ∃ s, m.store.DiffersAt s frame ref.name.lexeme v ∧
    Action.assign ref v m = .ok () { m with store := s }

/-- To assign fails, the variable being undefined, and changes nothing. -/
def RefusesToAssign (m : Machine) (ref : Reference) (v : Value) : Prop :=
  Action.assign ref v m = .error (.fault ref.name (.undefinedVariable ref.name.lexeme)) m

/-- An assignment as it is meant to be: an existing binding is overwritten, or the assignment fails. -/
def AssignsNothingNew (m : Machine) (ref : Reference) (v : Value) : Prop :=
  (∃ frame, m.written? ref = some frame ∧ (m.store.binding? frame ref.name.lexeme).isSome ∧
    m.Assigns ref v frame) ∨ m.RefusesToAssign ref v

variable {m : Machine} {ref : Reference} {v : Value} {frame : FrameId}

theorem assigns_of_target? (htarget : m.target? ref = some frame)
    (hframe : frame < m.store.frames.size) : m.Assigns ref v frame := by
  refine ⟨_, Store.differsAt_define hframe, ?_⟩
  rw [Action.assign, bind_of_ok get_apply, htarget]
  rfl

theorem refusesToAssign_of_target? (htarget : m.target? ref = none) : m.RefusesToAssign ref v := by
  rw [RefusesToAssign, Action.assign, bind_of_ok get_apply, htarget]
  rfl

theorem target?_of_distance {d : Nat} (hd : m.distances[ref.id]? = some d) :
    m.target? ref = m.written? ref := by
  simp [target?, written?, hd]

/-- Without a distance, what is written to is the global frame if it binds the name. -/
theorem target?_of_global (houtermost : m.store.enclosing? m.globals = none)
    (hd : m.distances[ref.id]? = none) : m.target? ref =
      if (m.store.binding? m.globals ref.name.lexeme).isSome then some m.globals else none := by
  rw [target?, hd]
  exact Store.holder?_of_outermost houtermost _

end Machine

/-- A halt at any moment of a run ends the run. -/
theorem Program.Reaches.halts {host : Host} {depth k : Nat} {p : Program} {m m' m₁ : Machine}
    {t : Task} {halt : Halt} (hreaches : p.Reaches host depth m k t m') (hdeep : halt ≠ .exhausted)
    (h : (t.action host k).Halts m' halt m₁) : (interpret host depth p).Halts m halt m₁ := by
  have hprogram : (executeProgram host depth p).Halts m halt m₁ := by
    induction hreaches with
    | first hreaches => exact Action.Halts.bind (hreaches.halts hdeep h)
    | rest hrun _ ih => exact .behind hrun (ih h)
  exact hprogram.bind

namespace History

variable {sink : Sink} {time : Nat → Float} {earlier : History} {depth : Nat} {source : String}
  {program : Program} {ref : Reference} {value : Expr} {v : Value} {m : Machine}

/-- A run in which an assignment fails ends with that fault, in the state of that moment. -/
theorem runWithin_of_refused
    (haccepted : (session sink time earlier).accepted? source = some program)
    (hpasses : program.Passes (.reading time) depth ((session sink time earlier).ready program)
      (.write ref value v) m) (hrefused : m.RefusesToAssign ref v) :
    let result := (session sink time earlier).runWithin depth (.reading time) source
    result.1.halt = some (.fault ref.name (.undefinedVariable ref.name.lexeme)) ∧
      result.2.machine.store = m.store := by
  obtain ⟨k, hreaches⟩ := hpasses.reaches
  obtain ⟨frame, hrun⟩ := hreaches.halts (by simp) (Action.Halts.of_error hrefused)
  obtain ⟨hhalt, hsession⟩ := Session.runWithin_ending depth (.reading time) haccepted
  rw [Action.ending, hrun] at hhalt hsession
  exact ⟨hhalt, by rw [hsession]⟩

/-- What an assignment does at any moment of any run of an accepted program. It is written to the frame
at its distance, or to the global one. If this frame binds the name, that binding is overwritten, and
nothing else changes. If it is the global frame and does not bind the name, the run ends with an
undefined variable, and no frame changes. If it is a local frame and does not bind the name, the frame is
the active one, the assignment stands in the initial value of the variable itself, and it binds the name
there; this is the only case in which an assignment makes a binding. -/
theorem assignment_overwrites_or_precedes_declaration
    (haccepted : (session sink time earlier).accepted? source = some program)
    (hpasses : program.Passes (.reading time) depth ((session sink time earlier).ready program)
      (.write ref value v) m) :
    let h : History := (depth, source) :: earlier
    let result := (session sink time earlier).runWithin depth (.reading time) source
    ∃ frame, m.written? ref = some frame ∧
      (((m.store.binding? frame ref.name.lexeme).isSome ∧ m.Assigns ref v frame) ∨
        (m.distances[ref.id]? = none ∧ m.store.binding? frame ref.name.lexeme = none ∧
          m.RefusesToAssign ref v ∧
          result.1.halt = some (.fault ref.name (.undefinedVariable ref.name.lexeme)) ∧
          result.2.machine.store = m.store) ∨
        (m.distances[ref.id]? = some 0 ∧ frame = m.active ∧
          m.store.binding? frame ref.name.lexeme = none ∧ m.Assigns ref v frame ∧
          ∃ p ∈ h.programs sink time, ∃ ctx os,
            (Expr.assign ref value).InInitialValue p ctx os ref.name.lexeme)) := by
  intro h result
  have hmoment : h.Passes sink time (.write ref value v) m := .inl ⟨program, haccepted, hpasses⟩
  obtain ⟨W, hW, hextends, hm, ⟨underway, p, hp, ctx, os, hvisits, hfits⟩, -⟩ := hmoment.fitting
  obtain ⟨frames, hframes⟩ := framesFor hm hextends hfits
  cases hd : m.distances[ref.id]? with
  | none =>
    refine ⟨m.globals, by simp [Machine.written?, hd], ?_⟩
    have htarget := Machine.target?_of_global (hm.globals ▸ hm.store.outermost) hd
    cases hbound : m.store.binding? m.globals ref.name.lexeme with
    | some w =>
      refine .inl ⟨rfl, Machine.assigns_of_target? ?_ (Store.lt_size_of_binding? hbound)⟩
      rw [htarget, hbound]
      rfl
    | none =>
      have hrefused : m.RefusesToAssign ref v := by
        refine Machine.refusesToAssign_of_target? ?_
        rw [htarget, hbound]
        rfl
      exact .inr (.inl ⟨rfl, rfl, hrefused, runWithin_of_refused haccepted hpasses hrefused⟩)
  | some d =>
    obtain ⟨frame, hmeets, hbound⟩ := hframes.assigned hW hp hvisits hm hfits hd
    have hwritten : m.written? ref = some frame := by
      rw [Machine.written?, hd]
      exact hmeets.hops
    have hassigns : m.Assigns ref v frame :=
      Machine.assigns_of_target? ((Machine.target?_of_distance hd).trans hwritten)
        (Store.lt_size_of_ancestor? hmeets.hops)
    refine ⟨frame, hwritten, ?_⟩
    cases hbinding : m.store.binding? frame ref.name.lexeme with
    | some w => exact .inl ⟨rfl, hassigns⟩
    | none =>
      rw [hbinding] at hbound
      obtain ⟨rfl, hinitial⟩ := hbound.resolve_left (by simp)
      obtain rfl : frame = m.active := by
        have hhops := hmeets.hops
        rw [Store.ancestor?] at hhops
        split at hhops <;> cases hhops
        rfl
      exact .inr (.inr ⟨rfl, rfl, rfl, hassigns, p, hextends.programs p hp, ctx, os, hinitial⟩)

theorem assignment_to_undefined_global_ends_run :
    let p : Program := [.expression (.assign ⟨1, ⟨.identifier, "x", 1⟩⟩ (.literal .null))]
    let start := session .unbounded (fun _ => 0) []
    let result := start.runWithin 9 (.reading fun _ => 0) "x = null;"
    start.accepted? "x = null;" = some p ∧
      result.1.halt = some (.fault ⟨.identifier, "x", 1⟩ (.undefinedVariable "x")) ∧
      result.2.machine.store = (start.ready p).store := by
  intro p start result
  have haccepted : start.accepted? "x = null;" = some p := by cbv
  have hpasses : p.Passes (.reading fun _ => 0) 9 (start.ready p) _ (start.ready p) :=
    .first (.step .value (.step (.write rfl) .self))
  obtain ⟨frame, hwritten, ⟨hbound, -⟩ | ⟨-, -, -, hended⟩ | ⟨hd, -⟩⟩ :=
    assignment_overwrites_or_precedes_declaration haccepted hpasses
  · cases hwritten
    exact absurd hbound (by decide)
  · exact ⟨haccepted, hended⟩
  · cases hd

/-- The assignment in `var x = (x = null);` makes the local variable. -/
theorem assignment_binds_in_own_initial_value :
    ∃ ref value v m, Passes .unbounded (fun _ => 0) [(9, "\x7b var x = (x = null); \x7d")]
      (.write ref value v) m ∧ ¬m.AssignsNothingNew ref v := by
  have haccepted : (session .unbounded (fun _ => 0) []).accepted? "\x7b var x = (x = null); \x7d" =
      some [.block [.var ⟨.identifier, "x", 1⟩ (some (.grouping
        (.assign ⟨1, ⟨.identifier, "x", 1⟩⟩ (.literal .null))))]] := by
    cbv
  refine ⟨_, _, _, _, .inl ⟨_, haccepted, .first (.step (.block rfl) (.step .first (.step .initial
    (.step .grouping (.step (.write rfl) .self)))))⟩, ?_⟩
  rintro (⟨frame, hwritten, hbound, -⟩ | hrefused)
  · cases hwritten
    exact absurd hbound (by decide)
  · cases hrefused

end History

end Treewalk
