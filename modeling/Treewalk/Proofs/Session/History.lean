import Treewalk.Proofs.Evaluation.Moments
import Treewalk.Proofs.Run

/-! Histories of sessions: source texts that were run one after the other, the programs that were
accepted among them, and the moments that the machine went through. -/

namespace Treewalk

/-- Source texts that were run, each to a depth, the latest one first. -/
abbrev History := List (Nat × String)

/-- The program that a session makes of a source text, if it accepts the text. -/
def Session.accepted? (s : Session) (source : String) : Option Program :=
  match (s.parse source).1 with
  | .error _ => none
  | .ok program =>
    match misuses program.findings with
    | [] => some program
    | _ :: _ => none

/-- The machine before the first statement of a program that was accepted. -/
def Session.ready (s : Session) (program : Program) : Machine :=
  (s.adopt program.findings).machine

/-- The moments of the run of a program. A top-level statement follows the one before it however
that one is completed. -/
inductive Program.Passes (host : Host) (depth : Nat) : Program → Machine → Task → Machine → Prop
  | first {s rest m t m'} : Task.Within host depth (.statement s) m t m' →
    Passes host depth (s :: rest) m t m'
  | rest {s rest m c m' t m''} : execute host depth s m = .ok c m' →
    Passes host depth rest m' t m'' → Passes host depth (s :: rest) m t m''

/-- The moments of the run of a program, with the depth that is left at each. -/
inductive Program.Reaches (host : Host) (depth : Nat) :
    Program → Machine → Nat → Task → Machine → Prop
  | first {s rest m k t m'} : Task.Reaches host depth (.statement s) m k t m' →
    Reaches host depth (s :: rest) m k t m'
  | rest {s rest m c m' k t m''} : execute host depth s m = .ok c m' →
    Reaches host depth rest m' k t m'' → Reaches host depth (s :: rest) m k t m''

section
variable {host : Host} {depth k : Nat} {p : Program} {t : Task} {m m' : Machine}

theorem Program.Reaches.passes (h : Reaches host depth p m k t m') : Passes host depth p m t m' := by
  induction h with
  | first hreaches => exact .first hreaches.within
  | rest hrun _ ih => exact .rest hrun ih

theorem Program.Passes.reaches (h : Passes host depth p m t m') :
    ∃ k, Reaches host depth p m k t m' := by
  induction h with
  | first hwithin =>
    obtain ⟨k, hreaches⟩ := hwithin.reaches
    exact ⟨k, .first hreaches⟩
  | rest hrun _ ih =>
    obtain ⟨k, hreaches⟩ := ih
    exact ⟨k, .rest hrun hreaches⟩

end

namespace History

section
variable (sink : Sink) (time : Nat → Float)

/-- The session after a history that began with an empty one. -/
def session : History → Session
  | [] => .initial sink
  | (depth, source) :: earlier =>
    ((session earlier).runWithin depth (.reading time) source).2

/-- The programs that were accepted. -/
def programs : History → List Program
  | [] => []
  | (_, source) :: earlier =>
    ((session sink time earlier).accepted? source).toList ++ programs earlier

/-- The distances that were found in them. -/
def distances : History → Distances
  | [] => ∅
  | (_, source) :: earlier =>
    ((session sink time earlier).accepted? source).elim (distances earlier) fun program =>
      (distances earlier).record program.findings

/-- The machine does a task at some moment of one of the runs. -/
def Passes : History → Task → Machine → Prop
  | [], _, _ => False
  | (depth, source) :: earlier, t, m =>
    (∃ program, (session sink time earlier).accepted? source = some program ∧
      Program.Passes (.reading time) depth program ((session sink time earlier).ready program) t m) ∨
    Passes earlier t m

/-- A frame was made at some moment, for what a scope is opened for. -/
def Made (h : History) (f : FrameId) (o : Opening) : Prop :=
  ∃ t m, h.Passes sink time t m ∧ t.Makes m o ∧ m.store.frames.size = f

/-- The machine does a task at some moment of one of the runs, with this depth left. -/
def Reaches : History → Nat → Task → Machine → Prop
  | [], _, _, _ => False
  | (depth, source) :: earlier, k, t, m =>
    (∃ program, (session sink time earlier).accepted? source = some program ∧
      Program.Reaches (.reading time) depth program ((session sink time earlier).ready program)
        k t m) ∨
    Reaches earlier k t m

/-- A frame was made at some moment, for what a scope is opened for, and there was the depth for it. -/
def Created (h : History) (f : FrameId) (o : Opening) : Prop :=
  ∃ k t m, h.Reaches sink time k t m ∧ t.MakesWithin k m o ∧ m.store.frames.size = f

end

section
variable {sink : Sink} {time : Nat → Float} {h : History} {k : Nat} {t : Task} {m : Machine}

theorem Reaches.passes (hreaches : h.Reaches sink time k t m) : h.Passes sink time t m := by
  induction h with
  | nil => exact hreaches
  | cons run earlier ih =>
    obtain ⟨program, haccepted, hreaches⟩ | hreaches := hreaches
    · exact .inl ⟨program, haccepted, hreaches.passes⟩
    · exact .inr (ih hreaches)

theorem Passes.reaches (hpasses : h.Passes sink time t m) : ∃ k, h.Reaches sink time k t m := by
  induction h with
  | nil => exact hpasses.elim
  | cons run earlier ih =>
    obtain ⟨program, haccepted, hpasses⟩ | hpasses := hpasses
    · obtain ⟨k, hreaches⟩ := hpasses.reaches
      exact ⟨k, .inl ⟨program, haccepted, hreaches⟩⟩
    · obtain ⟨k, hreaches⟩ := ih hpasses
      exact ⟨k, .inr hreaches⟩

theorem Created.made {f : FrameId} {o : Opening} (hcreated : h.Created sink time f o) :
    h.Made sink time f o := by
  obtain ⟨k, t, m, hreaches, hmakes, hsize⟩ := hcreated
  exact ⟨t, m, hreaches.passes, hmakes.makes, hsize⟩

end

end History

namespace Session

variable {s : Session} {depth : Nat} {host : Host} {source : String} {program : Program}

/-- A text that is not accepted leaves the machine as it is. -/
theorem runWithin_of_rejected (h : s.accepted? source = none) :
    (s.runWithin depth host source).1.halt = none ∧
      (s.runWithin depth host source).2 = (s.parse source).2 := by
  unfold accepted? at h
  unfold runWithin
  cases hparse : s.parse source with
  | mk result s' =>
    rw [hparse] at h
    cases result with
    | error faults => exact ⟨rfl, rfl⟩
    | ok program =>
      dsimp only at h ⊢
      split at h
      · cases h
      · next hmisuses => simp [hmisuses]

/-- A text that is accepted is run. -/
theorem runWithin_of_accepted (depth : Nat) (host : Host)
    (h : s.accepted? source = some program) :
    match interpret host depth program (s.ready program) with
    | .ok _ m => (s.runWithin depth host source).1.halt = none ∧
      (s.runWithin depth host source).2 = ⟨m, (s.parse source).2.nextId⟩
    | .error halt m => (s.runWithin depth host source).1.halt = some halt ∧
      (s.runWithin depth host source).2 = ⟨m, (s.parse source).2.nextId⟩ := by
  have hmachine : (s.parse source).2.machine = s.machine := rfl
  unfold accepted? at h
  unfold runWithin
  cases hparse : s.parse source with
  | mk result s' =>
    rw [hparse] at h hmachine
    cases result with
    | error faults => cases h
    | ok program' =>
      dsimp only at h hmachine ⊢
      split at h
      · next hmisuses =>
        cases h
        have hready : s.ready program = (s'.adopt program.findings).machine := by
          simp [ready, adopt, hmachine]
        rw [hmisuses, hready]
        dsimp only
        unfold executeWithin perform EStateM.run
        cases hrun : interpret host depth program (s'.adopt program.findings).machine with
        | ok u m => simp [adopt]
        | error halt m => simp [adopt]
      · cases h

/-- A text that is accepted has neither a lexical fault nor one of the grammar, and no misuse. -/
theorem of_accepted? (h : s.accepted? source = some program) :
    let parsed := Treewalk.parse (Source.tokens source) (Source.endMark source) s.nextId
    parsed.faults = [] ∧ parsed.program = program ∧ (s.parse source).2.nextId = parsed.nextId ∧
      misuses program.findings = [] := by
  unfold accepted? parse at h
  dsimp only at h ⊢
  split at h
  · cases h
  · next program' hparse =>
    split at h
    · next hmisuses =>
      cases h
      split at hparse
      · next hfaults =>
        cases hparse
        simp only [List.isEmpty_iff, List.append_eq_nil_iff] at hfaults
        exact ⟨hfaults.2, rfl, rfl, hmisuses⟩
      · cases hparse
    · cases h

end Session

end Treewalk
