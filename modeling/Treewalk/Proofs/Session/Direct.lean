import Treewalk.Proofs.Direct.Itself
import Treewalk.Proofs.Direct.Reading
import Treewalk.Proofs.Direct.Scopes
import Treewalk.Proofs.Direct.Simulation
import Treewalk.Proofs.Session.Bounded

/-! Sessions with nodes and without. A text that is run with nodes for its loops with three clauses is
run as the one in which these are blocks and loops with one clause: the same is reported, printed and
displayed. -/

namespace Treewalk

open Treewalk.Action

/-- Actions that mirror each other end alike. -/
theorem Action.Mirrored.ending {W : Setting} {S : Seating} {π : Layers} {x x' : Action Unit}
    {m m' : Machine} {Q : Seating → Unit → Unit → Prop} (h : Mirrored W S π x x' m m' Q) :
    (x'.ending m').1 = (x.ending m).1 ∧ ∃ S', (x.ending m).2.Mirrors W S' π (x'.ending m').2 := by
  unfold Mirrored at h
  unfold Action.ending
  generalize x m = result, x' m' = result' at h ⊢
  split at h
  · obtain ⟨S', hlater, -⟩ := h
    exact ⟨rfl, S', hlater.mirrors⟩
  · obtain ⟨rfl, S', hlater⟩ := h
    exact ⟨rfl, S', hlater.mirrors⟩
  · exact h.elim

namespace Program

variable {W : Setting} {S : Seating} {m m' : Machine} {host : Host} {p p' : Program}

section
variable (hhost : host.AnswersNumbers) (hdeaf : host.IgnoresArguments) (depth : Nat)
  (hm : m.Mirrors W S [] m') (hp : Stmt.AllUnfold W.Lies [] p p')
  (hspelled : Stmt.AllSpelled Token.IsName p')
include hhost hdeaf hm hp hspelled

/-- What a program unfolds to runs as the program does, outside of all local scopes. -/
theorem mirrored_execute : Mirrored W S [] (Direct.executeProgram host depth p)
    (executeProgram host depth p') m m' fun _ _ _ => True := by
  induction p generalizing p' S m m' with
  | nil =>
    cases hp
    exact .pure hm trivial
  | cons s rest ih =>
    obtain _ | ⟨hs, hrest⟩ := hp
    refine ((unrolls W hhost hdeaf depth).statement hm hs hspelled.1).bind ?_
    intro S₁ _ _ m₁ m₁' _ hlater _
    exact ih hlater.mirrors hrest hspelled.2

theorem mirrored_interpret : Mirrored W S [] (Direct.interpret host depth p)
    (interpret host depth p') m m' fun _ _ _ => True :=
  (mirrored_execute hhost hdeaf depth hm hp hspelled).bind fun _ _ _ _ _ _ hlater _ =>
    mirrored_flush hlater.mirrors

end

/-- Every occurrence that was given a number has its place in what a program unfolds to, and what is
found in the program differs by the scopes that are added there. -/
theorem exists_places {i j : NodeId} (h : Stmt.AllUnfold Anywhere [] p p')
    (hfresh : Fresh (Stmt.allIds p') i j) :
    ∃ φ : NodeId → Layers, (∀ id < i, φ id = []) ∧
      Stmt.AllUnfold (fun π id => φ id = π) [] p p' ∧
      p'.findings = (Direct.allFindings .outermost p).map (.shift φ) := by
  obtain ⟨L, hL, hplaced⟩ := h.placing
  have hnodup : (L.map Prod.fst).Nodup := hL ▸ hfresh.nodup
  have hp : Stmt.AllUnfold (fun π id => L.layers id = π) [] p p' :=
    hplaced.mono fun _ _ => Placing.layers_of_places hnodup
  refine ⟨L.layers, fun id hid => Placing.layers_of_notMem fun hmem => ?_, hp, ?_⟩
  · rw [hL] at hmem
    exact absurd hid (Nat.not_lt_of_le (hfresh.bounds id hmem).1)
  · exact hp.findings_shift ⟨.nil, rfl, rfl⟩

end Program

namespace Session

/-- A text is read with nodes and without, or it has the same faults. -/
inductive Unfoldings : Except (List Diagnostic) Program → Except (List Diagnostic) Program → Prop
  | ok {p p'} : Stmt.AllUnfold Anywhere [] p p' → Unfoldings (.ok p) (.ok p')
  | error {faults} : Unfoldings (.error faults) (.error faults)

/-- With nodes, a text is read as without, and the same numbers are spent. -/
theorem parseDirect_unfoldings (s : Session) (source : String) :
    Unfoldings (s.parseDirect source).1 (s.parse source).1 ∧
      (s.parseDirect source).2 = (s.parse source).2 := by
  obtain ⟨hfaults, hnext, hprogram⟩ :=
    parseWith_node (Source.tokens source) (Source.endMark source) s.nextId
  unfold parseDirect parse
  dsimp only
  rw [hfaults, hnext]
  refine ⟨?_, rfl⟩
  split
  · exact .ok hprogram
  · exact .error

/-- A program with nodes in which nothing is wrong is run, and what is seen of the run is how it
ended. -/
theorem runDirectWithin_ending {s : Session} {source : String} {p : Program} (depth : Nat)
    (host : Host) (hparse : (s.parseDirect source).1 = .ok p)
    (hclean : misuses (Direct.allFindings .outermost p) = []) :
    let ending := (Direct.interpret host depth p).ending
      { s.machine with
        distances := s.machine.distances.record (Direct.allFindings .outermost p) }
    s.runDirectWithin depth host source =
      (⟨[], ending.1⟩, ⟨ending.2, (s.parseDirect source).2.nextId⟩) := by
  have hmachine : (s.parseDirect source).2.machine = s.machine := rfl
  unfold runDirectWithin Action.ending
  cases hall : s.parseDirect source with
  | mk result s' =>
    rw [hall] at hparse hmachine
    obtain rfl : result = .ok p := hparse
    dsimp only
    rw [hclean, ← hmachine]
    unfold perform adopt EStateM.run
    dsimp only
    cases Direct.interpret host depth p { s'.machine with
      distances := s'.machine.distances.record (Direct.allFindings .outermost p) } <;> rfl

end Session

namespace History

/-- Between two runs of a session, a program with nodes runs as what it unfolds to. -/
theorem mirrored_ready (sink : Sink) (time : Nat → Float) (h : History) (depth : Nat)
    {source : String} {p p' : Program}
    (hparse : ((h.session sink time).parse source).1 = .ok p')
    (hprogram : Stmt.AllUnfold Anywhere [] p p') :
    let s := h.session sink time
    let m : Machine := { s.machine with
      distances := s.machine.distances.record (Direct.allFindings .outermost p) }
    ∃ W S, Mirrored W S [] (Direct.interpret (.reading time) depth p)
      (interpret (.reading time) depth p') m (s.ready p') fun _ _ _ => True := by
  intro s m
  obtain ⟨φ, hold, hplaced, hfindings⟩ :=
    Program.exists_places hprogram (Session.fresh_of_parse hparse)
  have hbetween := between sink time h
  have hknown (id : NodeId) : s.machine.distances[id]? =
      s.machine.distances[id]?.map (φ id).lift := by
    cases hd : s.machine.distances[id]? with
    | none => rfl
    | some d =>
      rw [hbetween.sound.distances] at hd
      rw [hold id (hbetween.known id (Option.isSome_iff_exists.mpr ⟨d, hd⟩))]
      rfl
  have hrecord (id : NodeId) : (s.machine.distances.record p'.findings)[id]? =
      m.distances[id]?.map (φ id).lift := by
    rw [hfindings]
    exact Distances.record_shift hknown _ id
  have hsettled (q : Program) (hq : q ∈ programs sink time h) (id : NodeId)
      (hid : id ∈ Stmt.allIds q) : (s.ready p').distances[id]? = m.distances[id]? := by
    refine (hrecord id).trans ?_
    rw [hold id (hbetween.spent q hq id hid)]
    exact Option.map_id'
  refine ⟨⟨m.distances, (s.ready p').distances, s.machine.store.frames.size⟩,
    ⟨id, s.machine.store, s.machine.store⟩, ?_⟩
  refine Program.mirrored_interpret (Host.answersNumbers_reading time)
    (Host.ignoresArguments_reading time) depth ?_ ?_ (Session.reads_of_parse hparse).2.spelled_names
  · exact hbetween.sound.mirrors_self hbetween.accepted hbetween.active hsettled
  · exact hplaced.mono fun π id hπ => hπ ▸ hrecord id

/-- Loops with three clauses may be read as nodes. Such a node opens one scope and one frame, in
which its first clause is run; then, again and again, its condition is evaluated there, its body is
run, and its last clause is evaluated there, until the condition fails or the body returns. After
every history of a session, each text has the same outcome if its loops with three clauses are such
nodes as if they are blocks and loops with one clause: the same is reported, be it that the text is
rejected, that it is run to its end, or that it halts with some fault, and the same is printed and
displayed. -/
theorem unfolding_preserves_meaning (sink : Sink) (time : Nat → Float) (h : History) (depth : Nat)
    (source : String) :
    let s := h.session sink time
    let direct := s.runDirectWithin depth (.reading time) source
    let unfolded := s.runWithin depth (.reading time) source
    direct.1 = unfolded.1 ∧ direct.2.machine.sink = unfolded.2.machine.sink ∧
      direct.2.display = unfolded.2.display := by
  intro s direct unfolded
  obtain ⟨hreadings, hsession⟩ := s.parseDirect_unfoldings source
  cases hdirect : s.parseDirect source with
  | mk result s₁ =>
    cases hparse : s.parse source with
    | mk result' s₁' =>
      rw [hdirect, hparse] at hreadings hsession
      obtain rfl : s₁ = s₁' := hsession
      cases hreadings with
      | error => simp [direct, unfolded, Session.runDirectWithin, Session.runWithin, hdirect, hparse]
      | @ok p p' hprogram =>
        have hparse₁ : (s.parse source).1 = .ok p' := by rw [hparse]
        have hdirect₁ : (s.parseDirect source).1 = .ok p := by rw [hdirect]
        obtain ⟨φ, -, -, hfindings⟩ :=
          Program.exists_places hprogram (Session.fresh_of_parse hparse₁)
        have hmisuses : misuses (Program.findings p') = misuses (Direct.allFindings .outermost p) := by
          rw [hfindings, misuses_map_shift]
        cases hclean : misuses (Direct.allFindings .outermost p) with
        | cons d rest =>
          simp [direct, unfolded, Session.runDirectWithin, Session.runWithin, hdirect, hparse,
            hmisuses, hclean]
        | nil =>
          rw [hclean] at hmisuses
          have haccepted := Session.accepted?_eq_some_iff.mpr ⟨hparse₁, hmisuses⟩
          obtain ⟨W, S, hmirrored⟩ := mirrored_ready sink time h depth hparse₁ hprogram
          obtain ⟨hhalt, S', hmachines⟩ := hmirrored.ending
          have hreport : unfolded.1 = _ :=
            Session.report_runWithin haccepted (.reading time) depth
          have hsession : unfolded.2 = _ :=
            (Session.runWithin_ending depth (.reading time) haccepted).2
          have hrun : direct = _ :=
            Session.runDirectWithin_ending depth (.reading time) hdirect₁ hclean
          rw [hrun, hreport, hsession]
          exact ⟨congrArg (Report.mk []) hhalt.symm, hmachines.sink.symm, hmachines.display.symm⟩

-- The last clause is run after the body, and ends the loop.
example : ((Session.initial .unbounded).runDirectWithin 20 (.clock 0)
    "for (var go = true; go; go = false) print go;").2.machine.sink.written =
      "true\n".toUTF8 := by cbv

end History

end Treewalk
