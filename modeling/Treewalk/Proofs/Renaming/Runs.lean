import Mathlib
import Treewalk.Proofs.Renaming.Acceptance
import Treewalk.Proofs.Renaming.Texts
import Treewalk.Proofs.Session.Twins
import Treewalk.Proofs.Twins.Itself

/-! Runs of a renamed program. A program and a renamed one, run by the same session, print the same
and end the same way: a local variable is found under its new name wherever it was found before. -/

namespace Treewalk

variable {R : Renaming}

namespace Renaming

theorem reflexive_disguise (R : Renaming) : R.disguise.Reflexive :=
  ⟨fun _ => rfl, fun id => ⟨R.distances[id]?, rfl, rfl⟩⟩

end Renaming

/-- Where a program halts, the renamed one halts for the same cause. It does so at the same token,
unless a class has as its parent what is no class, under a name that was changed. -/
inductive Halt.Renamed (R : Renaming) : Halt → Halt → Prop
  | same {halt} : Halt.Renamed R halt halt
  | parentNotClass {t} :
    Halt.Renamed R (.fault t .parentNotClass) (.fault (R.token t) .parentNotClass)

theorem Halt.Twin.renamed {halt halt' : Halt} (h : halt.Twin R.disguise halt') :
    halt.Renamed R halt' := by
  cases h with
  | fault ht =>
    cases ht
    exact .same
  | @parentNotClass chosen t t' hname =>
    obtain ⟨u, hu, rfl⟩ := hname
    cases hu
    cases chosen with
    | false => exact .same
    | true => exact .parentNotClass
  | sink => exact .same
  | exhausted => exact .same

/-- What fits a sound machine finds the local names that it is about. -/
theorem Task.Fitting.clear {W : World} {t : Task} {m : Machine} (hW : W.Accepted) (hm : m.Sound W)
    (h : t.Fitting W m) : t.Clear R.disguise m := by
  unfold Clear
  split
  · obtain ⟨underway, hat⟩ := h
    exact .inl fun d hd => hat.value?_variable hW hm hd
  · obtain ⟨underway, hat⟩ := h
    have hthis : _ = "this" := hat.spelled hW
    rw [Disguise.Keeps, hthis]
    exact Renaming.name_of_spelling .thisWord
  · obtain ⟨⟨underway, hat⟩, -⟩ := h
    exact .inl fun d hd => hat.target?_assigned hW hm hd
  · trivial

namespace History

variable {sink : Sink} {time : Nat → Float} {h : History} {depth : Nat} {source : String}
  {program program' : Program}

/-- The distances that a program is run with are the ones that were found in it. -/
theorem Starting.suits (hstarting : Starting sink time depth source h program)
    (haccepted : (h.session sink time).accepted? source = some program)
    (hdistances : R.distances = ((h.session sink time).ready program).distances)
    (hnew : ∀ t ∈ Source.tokens source, t.lexeme ≠ R.new) : R.Suits program where
  resolved := by
    rw [hdistances, hstarting.sound.distances]
    exact hstarting.accepted.resolved program hstarting.mem
  unused := by
    obtain ⟨-, hreads⟩ := Session.reads_of_parse (Session.parse_of_accepted? haccepted)
    exact hreads.spelled fun t ht => ⟨Source.proper_of_mem_tokens ht, fun _ => hnew t ht⟩

theorem Starting.alike_interpret (hstarting : Starting sink time depth source h program)
    (hdistances : R.distances = ((h.session sink time).ready program).distances)
    (hlike : Stmt.AllLike R.disguise none program program') :
    Action.Alike R.disguise (fun _ => none) (interpret (.reading time) depth program)
      (interpret (.reading time) depth program') ((h.session sink time).ready program)
      ((h.session sink time).ready program) fun _ _ _ _ => True := by
  have htwin : ((h.session sink time).ready program).Twin R.disguise (fun _ => none)
      ((h.session sink time).ready program) := by
    refine hstarting.sound.twin_self R.reflexive_disguise hstarting.active ?_
    rintro id _ d ⟨rfl, hd⟩
    rw [← hdistances]
    exact ⟨hd, hd⟩
  refine Program.alike_interpret (Host.answersNumbers_reading time)
    (Host.ignoresArguments_reading time) htwin rfl hlike fun t m hpasses => ?_
  obtain ⟨hm, ht⟩ := hpasses.fitting hstarting.accepted (Host.answersNumbers_reading time)
    hstarting.mem .program hstarting.sound hstarting.active hstarting.covered
  exact ht.clear hstarting.accepted hm

end History

namespace Session

/-- Local names are arbitrary. After any calls, take a text that a session accepts and a name that
is not reserved and does not occur in the text. Let the program be renamed: in a local scope that
declares a variable or a parameter `old`, this declaration and all occurrences that it was resolved
for are given the new name. Then the text can be rewritten, with the new name in some places of
`old`, so that it is accepted as the renamed program; the same is found in it, so that all
occurrences have the distances that they had. To run this text is to print the same, to display the
same of the globals, and to end the same way. -/
theorem renamed_program_runs_alike (time : Nat → Float) (sink : Sink) (calls : List Call)
    (depth : Nat) (source : String) (program program' : Program) (R : Renaming) :
    let host := Host.reading time
    let s := (initial sink).after host calls
    let original := s.runWithin depth host source
    s.accepted? source = some program → R.distances = (s.ready program).distances →
      Source.Name R.new → (∀ t ∈ Source.tokens source, t.lexeme ≠ R.new) →
      Stmt.AllRenamed R none program program' →
      ∃ source', (Source.tokens source').map R.undo = Source.tokens source ∧
        s.accepted? source' = some program' ∧ program'.findings = program.findings ∧
        let renamed := s.runWithin depth host source'
        renamed.2.machine.sink = original.2.machine.sink ∧ renamed.2.display = original.2.display ∧
          Option.Rel (Halt.Renamed R) original.1.halt renamed.1.halt := by
  intro host s original haccepted hdistances hname hnew hrenamed
  obtain ⟨h, hs⟩ := exists_history sink time calls
  have hstarting : History.Starting sink time depth source h program :=
    (History.between sink time h).starting (hs ▸ haccepted)
  have hsuits := hstarting.suits (hs ▸ haccepted) (hs ▸ hdistances) hnew
  obtain ⟨hfindings, hlike⟩ := Program.findings_renamed hsuits hrenamed
  have halike := hstarting.alike_interpret (hs ▸ hdistances) hlike
  rw [← hs] at halike
  obtain ⟨hhalt, K, hfollows⟩ := halike.ending
  -- the renamed program is written down
  obtain ⟨hparse, hmisuses⟩ := accepted?_eq_some_iff.mp haccepted
  obtain ⟨hfaults, hreads⟩ := reads_of_parse hparse
  obtain ⟨source', hundo, hfaults', hreads'⟩ := Renaming.exists_text hname hnew hreads hrenamed
  have haccepted' : s.accepted? source' = some program' :=
    accepted?_eq_some_iff.mpr ⟨(parse_of_reads (hfaults'.trans hfaults) hreads').1,
      hfindings ▸ hmisuses⟩
  have hready : s.ready program' = s.ready program := by
    unfold ready
    rw [hfindings]
  refine ⟨source', hundo, haccepted', hfindings, ?_⟩
  intro renamed
  obtain ⟨horiginal, hafter⟩ := runWithin_ending depth host haccepted
  obtain ⟨horiginal', hafter'⟩ := runWithin_ending depth host haccepted'
  rw [hready] at horiginal' hafter'
  rw [show original.2 = _ from hafter, show renamed.2 = _ from hafter',
    show original.1.halt = _ from horiginal, show renamed.1.halt = _ from horiginal']
  exact ⟨hfollows.twin.sink, hfollows.twin.display, hhalt.imp fun _ _ => Halt.Twin.renamed⟩

/-- A variable of a block is renamed. -/
theorem renamed_program_runs_alike_at_variable :
    let a : Token := ⟨.identifier, "a", 1⟩
    let b : Token := ⟨.identifier, "b", 1⟩
    let program (x : Token) : Program :=
      [.block [.var x (some (.literal (.bool true))), .print (.variable ⟨0, x⟩)]]
    let s := initial .unbounded
    let source := "\x7b var a = true; print a; \x7d"
    s.accepted? source = some (program a) ∧ ∃ source', s.accepted? source' = some (program b) ∧
      (s.runWithin 9 (.reading fun _ => 0) source').2.machine.sink =
        (s.runWithin 9 (.reading fun _ => 0) source).2.machine.sink := by
  intro a b program s source
  have haccepted : s.accepted? source = some (program a) := by cbv
  let R : Renaming := ⟨"a", "b", (s.ready (program a)).distances, by decide, by decide⟩
  have hplace : R.distances[0]? = some 0 := by cbv
  have hnew : ∀ t ∈ Source.tokens source, t.lexeme ≠ R.new := by
    have htokens : (Source.tokens source).map Token.lexeme =
        ["\x7b", "var", "a", "=", "true", ";", "print", "a", ";", "\x7d"] := by
      cbv
    intro t ht heq
    have hmem := List.mem_map_of_mem (f := Token.lexeme) ht
    rw [htokens, heq] at hmem
    revert hmem
    decide
  have hrenamed : Stmt.AllRenamed R none (program a) (program b) := by
    have hdeclared : R.declared (some 0) a = b := rfl
    have hreference : R.reference (some 0) ⟨0, a⟩ = ⟨0, b⟩ := by
      rw [Renaming.reference, if_pos ⟨rfl, hplace⟩]
      rfl
    have hopens : R.Opens [] [.var a (some (.literal (.bool true))), .print (.variable ⟨0, a⟩)] none
        (some 0) :=
      .inr ⟨rfl, rfl, .inr ⟨a, _, List.mem_cons_self, rfl⟩⟩
    refine .cons (.block hopens (.cons ?_ (.cons ?_ .nil))) .nil
    · exact hdeclared ▸ .var
    · exact hreference ▸ .print
  have hname : Source.Name R.new := by cbv
  have hrun :=
    renamed_program_runs_alike (fun _ => 0) .unbounded [] 9 source (program a) (program b) R
  have hs : initial .unbounded = s := rfl
  simp only [after, hs] at hrun
  obtain ⟨source', -, haccepted', -, hsink, -⟩ := hrun haccepted rfl hname hnew hrenamed
  exact ⟨haccepted, source', haccepted', hsink⟩

end Session

end Treewalk
