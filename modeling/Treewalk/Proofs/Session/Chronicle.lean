import Treewalk.Proofs.Evaluation.Lawful
import Treewalk.Proofs.Session.Calls

/-! Chronicles. A chronicle of a session lists the changes that its store has undergone, over all of
its runs: each of them is made by what some run did at some moment, and the store of every moment is one
of the stages. -/

namespace Treewalk

theorem Action.store_ending (x : Action Unit) (m : Machine) :
    (x.ending m).2.store = x.storeAfter m := by
  unfold ending storeAfter
  cases x m <;> rfl

namespace Program

/-- What is done to the store while a program runs. -/
def Doings (host : Host) (depth : Nat) (p : Program) (m : Machine) (s : Store) (c : Change) : Prop :=
  ∃ k t m', Reaches host depth p m k t m' ∧ t.Does k m' s c ∧ m'.store.Grows s

/-- What is seen while a program runs. -/
def Views (host : Host) (depth : Nat) (p : Program) (m : Machine) : Sights := fun s c? =>
  ∃ k t m', Reaches host depth p m k t m' ∧ t.Shows k m' s c?

/-- The run of a program has its story. -/
theorem story (host : Host) (depth : Nat) (p : Program) (m : Machine) :
    (executeProgram host depth p).Story m (Doings host depth p m) (Views host depth p m) := by
  induction p generalizing m with
  | nil => exact .still rfl fun s c? ⟨_, _, _, hreaches, _⟩ => nomatch hreaches
  | cons s rest ih =>
    have hfirst : (execute host depth s).Story m (Doings host depth (s :: rest) m)
        (Task.Views host depth (.statement s) m) :=
      (Task.story host depth (.statement s) m).allow fun _ _ ⟨k, t, m', hreaches, hdoes⟩ =>
        ⟨k, t, m', .first hreaches, hdoes⟩
    have hrest (c : Completion) (m' : Machine) (hrun : execute host depth s m = .ok c m') :
        (executeProgram host depth rest).Story m' (Doings host depth (s :: rest) m)
          (Views host depth rest m') :=
      (ih m').allow fun _ _ ⟨k, t, m'', hreaches, hdoes⟩ => ⟨k, t, m'', .rest hrun hreaches, hdoes⟩
    refine (hfirst.bind fun c m' hrun _ => hrest c m' hrun).weaken ?_
    rintro r c? ⟨k, t, m', hreaches, hshows⟩
    cases hreaches with
    | first hreaches => exact .inl ⟨k, t, m', hreaches, hshows⟩
    | rest hrun hreaches => exact .inr ⟨_, _, hrun, k, t, m', hreaches, hshows⟩

theorem story_interpret (host : Host) (depth : Nat) (p : Program) (m : Machine) :
    (interpret host depth p).Story m (Doings host depth p m) (Views host depth p m) :=
  ((story host depth p m).bind fun _ _ _ _ => Action.still_flush.story).weaken fun _ _ => .inl

end Program

namespace History

section
variable (sink : Sink) (time : Nat → Float) (h : History)

/-- What is done to the store during a history. -/
def Doings (s : Store) (c : Change) : Prop :=
  ∃ k t m, h.Reaches sink time k t m ∧ t.Does k m s c ∧ m.store.Grows s

/-- What is seen during a history. -/
def Views : Sights := fun s c? => ∃ k t m, h.Reaches sink time k t m ∧ t.Shows k m s c?

/-- The store before the first run. -/
abbrev start : Store := (Machine.initial sink).store

/-- The changes that the store of a session has undergone. -/
def Chronicle (cs : List Change) : Prop :=
  (start sink).Told (h.session sink time).machine.store (h.Doings sink time) (h.Views sink time) cs

end

variable {sink : Sink} {time : Nat → Float} {h earlier : History} {cs : List Change} {depth : Nat}
  {source : String} {program : Program} {s : Store} {c : Change} {c? : Option Change}

theorem Doings.later (hdone : Doings sink time earlier s c) :
    Doings sink time ((depth, source) :: earlier) s c := by
  obtain ⟨k, t, m, hreaches, hdoes⟩ := hdone
  exact ⟨k, t, m, .inr hreaches, hdoes⟩

/-- What is done by the latest run is done during the history. -/
theorem Doings.latest (haccepted : (session sink time earlier).accepted? source = some program)
    (hdone : program.Doings (.reading time) depth ((session sink time earlier).ready program) s c) :
    Doings sink time ((depth, source) :: earlier) s c := by
  obtain ⟨k, t, m, hreaches, hdoes⟩ := hdone
  exact ⟨k, t, m, .inl ⟨program, haccepted, hreaches⟩, hdoes⟩

/-- What is seen during a history is seen in the latest run or before it. -/
theorem Views.cases (hseen : Views sink time ((depth, source) :: earlier) s c?) :
    Views sink time earlier s c? ∨
      ∃ program, (session sink time earlier).accepted? source = some program ∧
        program.Views (.reading time) depth ((session sink time earlier).ready program) s c? := by
  obtain ⟨k, t, m, ⟨program, haccepted, hreaches⟩ | hreaches, hshows⟩ := hseen
  · exact .inr ⟨program, haccepted, k, t, m, hreaches, hshows⟩
  · exact .inl ⟨k, t, m, hreaches, hshows⟩

theorem chronicle_nil : Chronicle sink time [] [] := by
  refine ⟨rfl, trivial, fun s c? hseen => ?_⟩
  obtain ⟨k, t, m, hreaches, -⟩ := hseen
  exact hreaches.elim

/-- Every session has its chronicle. -/
theorem exists_chronicle (sink : Sink) (time : Nat → Float) (h : History) :
    ∃ cs, h.Chronicle sink time cs := by
  induction h with
  | nil => exact ⟨[], chronicle_nil⟩
  | cons run earlier ih =>
    obtain ⟨depth, source⟩ := run
    obtain ⟨cs, hcs⟩ := ih
    have hbefore : (start sink).Told (session sink time earlier).machine.store
        (Doings sink time ((depth, source) :: earlier)) (Views sink time earlier) cs :=
      hcs.allow fun _ _ => Doings.later
    cases haccepted : (session sink time earlier).accepted? source with
    | none =>
      have hsession : (session sink time ((depth, source) :: earlier)).machine.store =
          (session sink time earlier).machine.store := by
        rw [session, (Session.runWithin_of_rejected haccepted).2]
        rfl
      refine ⟨cs, ?_⟩
      rw [Chronicle, hsession]
      refine hbefore.weaken fun s c? hseen => ?_
      obtain hseen | ⟨program, hsome, -⟩ := hseen.cases
      · exact hseen
      · cases haccepted.symm.trans hsome
    | some program =>
      obtain ⟨later, hlater⟩ :=
        Program.story_interpret (.reading time) depth program ((session sink time earlier).ready program)
      have hsession : (session sink time ((depth, source) :: earlier)).machine.store =
          (interpret (.reading time) depth program).storeAfter
            ((session sink time earlier).ready program) := by
        rw [session, (Session.runWithin_ending depth (.reading time) haccepted).2, Action.store_ending]
      refine ⟨cs ++ later, ?_⟩
      rw [Chronicle, hsession]
      refine (hbefore.append (hlater.allow fun _ _ => Doings.latest haccepted)).weaken
        fun s c? hseen => ?_
      obtain hseen | ⟨program', hsome, hseen⟩ := hseen.cases
      · exact .inl hseen
      · cases haccepted.symm.trans hsome
        exact .inr hseen

end History

end Treewalk
