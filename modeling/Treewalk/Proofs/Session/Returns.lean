import Treewalk.Proofs.Evaluation.Courses
import Treewalk.Proofs.Resolution.Correctness
import Treewalk.Proofs.Session.Soundness

/-! Returns. In an accepted program no `return` stands outside of functions, so that no top-level
statement gives back anything; and a `return` in a function ends the call. -/

namespace Treewalk

/-- The statements of a task stand in no function of the program. -/
def Task.Outside (program : Program) : Task → Prop
  | statement s | loop _ s => Free s
  | statements ss => ∀ s ∈ ss, Free s
  | _ => True
where
  Free (s : Stmt) : Prop := ∃ os, Stands program os (.statement s) ∧
    Enclosure.innermostFunction? os = none

section
variable {host : Host} {n k : Nat} {t t' : Task} {m m' : Machine} {program : Program}

/-- What a task outside of functions runs is outside of functions. -/
theorem Task.Outside.start (h : t.Outside program) (ht : t.Runs) (hstart : Starts host n t m t' m')
    (ht' : t'.Runs) : t'.Outside program := by
  cases hstart with
  | @block ss =>
    obtain ⟨os, hstands, hos⟩ := h
    intro s hs
    obtain ⟨before, after, rfl⟩ := List.append_of_mem hs
    exact ⟨_, hstands.block, hos⟩
  | whenTrue =>
    obtain ⟨os, hstands, hos⟩ := h
    exact ⟨os, hstands.whenTrue, hos⟩
  | whenFalse =>
    obtain ⟨os, hstands, hos⟩ := h
    exact ⟨os, hstands.whenFalse, hos⟩
  | loop =>
    obtain ⟨os, hstands, hos⟩ := h
    exact ⟨os, hstands.loopBody, hos⟩
  | first => exact h _ List.mem_cons_self
  | rest => exact fun s hs => h s (List.mem_cons_of_mem _ hs)
  | loopBody | again => exact h
  | body => exact ht.elim
  | _ => exact ht'.elim

theorem Task.Follows.outside (h : Follows host n t m k t' m') (ht : t.Outside program) :
    t'.Outside program := by
  induction h with
  | self => exact ht
  | step hruns hstart hruns' _ ih => exact ih (ht.start hruns hstart hruns')

/-- Outside of functions nothing is given back. -/
theorem Task.Outside.returned? (h : t.Outside program) (hscoped : program.WellScoped) :
    t.returned? host n m = none := by
  have hcourse := Task.course_concludes host n t m
  cases hreturned : t.returned? host n m with
  | none => rfl
  | some v =>
    rw [hreturned] at hcourse
    obtain ⟨before, last, m', heq, hreturns, -⟩ := hcourse
    obtain ⟨⟨keyword, value, hs⟩, -⟩ := Begun.returns_iff.mp hreturns
    have hlast : last ∈ Task.course host n m t := by simp [heq]
    obtain ⟨os, hstands, hos⟩ := (Task.mem_course.mp hlast).outside h
    rw [hs] at hstands
    exact absurd hos (hscoped.returns hstands)

/-- A call gives back what its body returned, if the function is not an initializer. -/
theorem invoke_of_returned {f : Closure} (hf : f.isInitializer = false) {paren : Token}
    {args : List Value} {v : Value}
    (h : Task.returned? host n (m.inNew (argumentBindings f.decl.params args) f.frame)
      (.statements f.decl.body) = some v) :
    ∃ m', invoke host (n + 1) f paren args m = .ok v m' := by
  rw [Task.returned?] at h
  rw [invoke_eq hf]
  cases hrun : executeAll host n f.decl.body
      (m.inNew (argumentBindings f.decl.params args) f.frame) with
  | error halt m' => simp [hrun, returnedValue?] at h
  | ok c m' =>
    cases c with
    | normal => simp [hrun, returnedValue?] at h
    | returned w =>
      obtain rfl : w = v := by simpa [hrun, returnedValue?] using h
      exact ⟨_, rfl⟩

/-- A call whose body did not return gives back `null`, if the function is not an initializer. -/
theorem null_of_invoke {f : Closure} (hf : f.isInitializer = false) {paren : Token}
    {args : List Value} {v : Value}
    (h : Task.returned? host n (m.inNew (argumentBindings f.decl.params args) f.frame)
      (.statements f.decl.body) = none)
    (hrun : invoke host (n + 1) f paren args m = .ok v m') : v = .null := by
  rw [Task.returned?] at h
  rw [invoke_eq hf] at hrun
  cases hbody : executeAll host n f.decl.body
      (m.inNew (argumentBindings f.decl.params args) f.frame) with
  | error halt m' => simp [hbody] at hrun
  | ok c m' =>
    cases c with
    | normal =>
      rw [hbody] at hrun
      cases hrun
      rfl
    | returned w => simp [hbody, returnedValue?] at h

end

theorem Session.wellScoped_of_accepted? {s : Session} {source : String} {program : Program}
    (h : s.accepted? source = some program) : program.WellScoped := by
  obtain ⟨hfresh, hspelled, hclean⟩ := fresh_of_accepted? h
  exact Program.wellScoped_of_resolved
    (Program.resolved_record hfresh (misuses_eq_nil_iff.mpr hclean)) hspelled

/-- A `return` ends the call that it is in, and nothing else. No top-level statement of an accepted
program gives back anything; and where the body of a function is run, no statement of that body is
begun after a `return` in it that completed, and the call gives back the value of that `return`, or
`null` if there is none, unless the function is an initializer. -/
theorem Session.returns_end_calls {s : Session} {source : String} {program : Program}
    (h : s.accepted? source = some program) :
    (∀ host depth st m v m', st ∈ program →
      Treewalk.execute host depth st m ≠ .ok (.returned v) m') ∧
    ∀ (host : Host) (depth : Nat) (f : Closure) (paren : Token) (args : List Value) (m : Machine),
      let body := Task.course host depth
        (m.inNew (argumentBindings f.decl.params args) f.frame) (.statements f.decl.body)
      (∀ before x after v m', body = before ++ x :: after → x.Returns host v m' →
        after = [] ∧
          (f.isInitializer = false → ∃ m'', invoke host (depth + 1) f paren args m = .ok v m'')) ∧
      ∀ v m', f.isInitializer = false → invoke host (depth + 1) f paren args m = .ok v m' →
        (∀ x ∈ body, ∀ v m, ¬x.Returns host v m) → v = .null := by
  refine ⟨fun host depth st m v m' hst hrun => ?_, fun host depth f paren args m => ⟨?_, ?_⟩⟩
  · have houtside : Task.Outside program (.statement st) := ⟨[], .program hst, rfl⟩
    have hreturned : returnedValue? (Treewalk.execute host depth st m) = none :=
      houtside.returned? (wellScoped_of_accepted? h)
    rw [hrun] at hreturned
    cases hreturned
  · intro before x after v m' hbody hreturns
    obtain ⟨hafter, hreturned⟩ := (Task.course_concludes host depth _ _).last hbody hreturns
    exact ⟨hafter, fun hf => invoke_of_returned hf hreturned⟩
  · intro v m' hf hrun hnone
    refine null_of_invoke hf ?_ hrun
    have hcourse := Task.course_concludes host depth (.statements f.decl.body)
      (m.inNew (argumentBindings f.decl.params args) f.frame)
    cases hreturned : Task.returned? host depth
        (m.inNew (argumentBindings f.decl.params args) f.frame) (.statements f.decl.body) with
    | none => rfl
    | some w =>
      rw [hreturned] at hcourse
      obtain ⟨before, last, m'', heq, hlast, -⟩ := hcourse
      exact absurd hlast (hnone last (by simp [heq]) w m'')

/-- A function that returns before its second statement gives back `null`. -/
theorem Session.returns_end_calls_early :
    let s := initial .unbounded
    let source := "func f() \x7b return; f(); \x7d"
    let token (kind : Kind) (text : String) : Token := ⟨kind, text, 1⟩
    let name := token .identifier "f"
    let decl : FunctionDecl := ⟨name, [], [.giveBack (token (.keyword .returnWord) "return") none,
      .expression (.call (.variable ⟨0, name⟩) (token (.punct .rightParen) ")") [])]⟩
    s.accepted? source = some [.function decl] ∧
      ∃ m, invoke (.reading fun _ => 0) 4 ⟨1, decl, 0, false⟩ name [] s.machine = .ok .null m := by
  intro s source token name decl
  have haccepted : s.accepted? source = some [.function decl] := by cbv
  refine ⟨haccepted, ?_⟩
  have hcalls := (returns_end_calls haccepted).2 (.reading fun _ => 0) 3 ⟨1, decl, 0, false⟩ name []
    s.machine
  exact (hcalls.1 [] _ [] _ _ rfl .bare).2 rfl

end Treewalk
