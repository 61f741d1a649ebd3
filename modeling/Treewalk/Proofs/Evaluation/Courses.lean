import Treewalk.Proofs.Evaluation.Moments
import Treewalk.Proofs.Run

/-! Courses of statements. The course of a task is the list of the statements that are begun in it, in
the order in which they are begun, those inside blocks, branches and loops with them but not those
of functions that are called on the way. A `return` that completes is the last of its course, and the
value that it gives back is what the task completes with. -/

namespace Treewalk

/-- A statement that is begun, with the depth that is left for it and the machine then. -/
structure Begun where
  depth : Nat
  statement : Stmt
  machine : Machine

/-- A `return` completes and gives back a value: the value of its expression, or else `null`. -/
inductive Begun.Returns (host : Host) : Begun → Value → Machine → Prop
  | bare {n keyword m} : Returns host ⟨n + 1, .giveBack keyword none, m⟩ .null m
  | value {n keyword e m v m'} : evaluate host n e m = .ok v m' →
    Returns host ⟨n + 1, .giveBack keyword (some e), m⟩ v m'

/-- A `return` completes whenever its execution does, and with the same value. -/
theorem Begun.returns_iff {host : Host} {x : Begun} {v : Value} {m : Machine} :
    x.Returns host v m ↔ (∃ keyword value, x.statement = .giveBack keyword value) ∧
      execute host x.depth x.statement x.machine = .ok (.returned v) m := by
  constructor
  · rintro (_ | hvalue)
    · exact ⟨⟨_, _, rfl⟩, by rw [execute]; rfl⟩
    · exact ⟨⟨_, _, rfl⟩, by rw [execute, bind_of_ok hvalue]; rfl⟩
  · rintro ⟨⟨keyword, value, hs⟩, hrun⟩
    obtain ⟨n, s, before⟩ := x
    dsimp only at hs hrun
    subst hs
    cases n with
    | zero => cases hrun
    | succ n =>
      cases value with
      | none =>
        rw [execute] at hrun
        cases hrun
        exact .bare
      | some e =>
        rw [execute] at hrun
        obtain ⟨a, r, hvalue, hrest⟩ := bind_eq_ok.mp hrun
        cases hrest
        exact .value hvalue

/-- The machine with a new frame, which is active. -/
def Machine.inNew (m : Machine) (bindings : Bindings) (enclosing : FrameId) : Machine :=
  let (frame, store) := m.store.addFrame bindings (some enclosing)
  { m with store, active := frame }

namespace Task

/-- The task runs statements. -/
def Runs : Task → Prop
  | statement _ | statements _ | loop .. => True
  | _ => False

/-- The tasks that run statements and are begun, one after the other, by a task that does so. -/
def parts (host : Host) (n : Nat) (m : Machine) : Task → List (Task × Machine)
  | statement (.block ss) => [(statements ss, m.inNew ∅ m.active)]
  | statement (.branch condition whenTrue whenFalse) =>
    match evaluate host n condition m with
    | .ok v m' =>
      if v.isTruthy then [(statement whenTrue, m')]
      else whenFalse.toList.map fun s => (statement s, m')
    | .error .. => []
  | statement (.loop condition body) => [(loop condition body, m)]
  | statements (s :: rest) =>
    (statement s, m) ::
      match execute host n s m with
      | .ok .normal m' => [(statements rest, m')]
      | _ => []
  | loop condition body =>
    match evaluate host n condition m with
    | .ok v m' =>
      if v.isTruthy then
        (statement body, m') ::
          match execute host n body m' with
          | .ok .normal m'' => [(loop condition body, m'')]
          | _ => []
      else []
    | .error .. => []
  | _ => []

/-- The statement that the task is. -/
def begun (n : Nat) (m : Machine) : Task → List Begun
  | statement s => [⟨n, s, m⟩]
  | _ => []

/-- The statements that are begun in a task, in the order in which they are begun. -/
def course (host : Host) : Nat → Machine → Task → List Begun
  | 0, m, t => t.begun 0 m
  | n + 1, m, t =>
    t.begun (n + 1) m ++ (t.parts host n m).flatMap fun part => course host n part.2 part.1

end Task

/-- The value that a result gives back, if it is that of a `return`. -/
def returnedValue? : EStateM.Result Halt Machine Completion → Option Value
  | .ok (.returned v) _ => some v
  | _ => none

/-- The value that a task gives back, if it runs statements and one of them returned. -/
def Task.returned? (host : Host) (n : Nat) (m : Machine) : Task → Option Value
  | statement s => returnedValue? (execute host n s m)
  | statements ss => returnedValue? (executeAll host n ss m)
  | loop condition body => returnedValue? (executeLoop host n condition body m)
  | _ => none

/-- A statement that runs no others and is no `return`. -/
def Stmt.Plain : Stmt → Prop
  | .block _ | .branch .. | .loop .. | .giveBack .. => False
  | _ => True

/-- What a course shows: either it ends with a `return` that gives back the value, and with the only
one that completed; or, without a value, none completed. -/
def Concludes (host : Host) (course : List Begun) : Option Value → Prop
  | some v => ∃ before last m, course = before ++ [last] ∧ last.Returns host v m ∧
    ∀ x ∈ before, ∀ v m, ¬x.Returns host v m
  | none => ∀ x ∈ course, ∀ v m, ¬x.Returns host v m

namespace Concludes

variable {host : Host} {c d : List Begun} {r : Option Value}

theorem nil : Concludes host [] none := by
  rintro x ⟨⟩

theorem append (hc : Concludes host c none) (hd : Concludes host d r) :
    Concludes host (c ++ d) r := by
  cases r with
  | none =>
    intro x hx
    obtain hx | hx := List.mem_append.mp hx
    · exact hc x hx
    · exact hd x hx
  | some v =>
    obtain ⟨before, last, m, rfl, hreturns, hbefore⟩ := hd
    refine ⟨c ++ before, last, m, by rw [List.append_assoc], hreturns, fun x hx => ?_⟩
    obtain hx | hx := List.mem_append.mp hx
    · exact hc x hx
    · exact hbefore x hx

/-- A statement that is no `return` shows nothing by itself. -/
theorem single {n : Nat} {s : Stmt} {m : Machine} (hs : ∀ keyword value, s ≠ .giveBack keyword value) :
    Concludes host [⟨n, s, m⟩] none := by
  intro x hx v m' hreturns
  obtain rfl := List.mem_singleton.mp hx
  obtain ⟨⟨keyword, value, heq⟩, -⟩ := Begun.returns_iff.mp hreturns
  exact hs keyword value heq

/-- Nothing comes after a `return` that completed. -/
theorem last (h : Concludes host c r) {before after : List Begun} {x : Begun} {v : Value}
    {m : Machine} (hc : c = before ++ x :: after) (hx : x.Returns host v m) :
    after = [] ∧ r = some v := by
  cases r with
  | none => exact absurd hx (h x (by simp [hc]) v m)
  | some w =>
    obtain ⟨before', last, m', rfl, hlast, hbefore⟩ := h
    rcases List.eq_nil_or_concat' after with rfl | ⟨after, y, rfl⟩
    · obtain ⟨-, heq⟩ := List.append_inj' hc rfl
      cases heq
      obtain ⟨-, hrun⟩ := Begun.returns_iff.mp hx
      obtain ⟨-, hrun'⟩ := Begun.returns_iff.mp hlast
      cases hrun.symm.trans hrun'
      exact ⟨rfl, rfl⟩
    · rw [← List.cons_append, ← List.append_assoc] at hc
      obtain ⟨rfl, -⟩ := List.append_inj' hc rfl
      exact absurd hx (hbefore x (by simp) v m)

end Concludes

section
variable {host : Host} {n : Nat} {m : Machine}

/-- An action that never gives back a value. -/
def Quiet (x : Action Completion) : Prop := ∀ m, returnedValue? (x m) = none

theorem Quiet.normal : Quiet (return .normal) := fun _ => rfl

theorem Quiet.bind {α : Type} {f : α → Action Completion} (x : Action α) (hf : ∀ a, Quiet (f a)) :
    Quiet (x >>= f) := by
  intro m
  cases hx : x m with
  | ok a m' => rw [bind_of_ok hx, hf a m']
  | error halt m' => rw [bind_of_error hx]; rfl

/-- A frame that statements run in does not change what they give back. -/
theorem returnedValue?_inFrame (frame : FrameId) (x : Action Completion) :
    returnedValue? (Action.inFrame frame x m) = returnedValue? (x { m with active := frame }) := by
  unfold Action.inFrame
  dsimp only
  cases x { m with active := frame } with
  | ok c m' => cases c <;> rfl
  | error halt m' => rfl

/-- A statement that runs no others and is no `return` gives back nothing. -/
theorem quiet_execute {s : Stmt} (hs : s.Plain) : Quiet (execute host (n + 1) s) := by
  cases s with
  | expression value =>
    rw [execute]
    exact .bind _ fun _ => .normal
  | print value =>
    rw [execute]
    exact .bind _ fun _ => .bind _ fun _ => .normal
  | var name initial =>
    cases initial with
    | none =>
      rw [execute]
      exact .bind _ fun _ => .normal
    | some e =>
      rw [execute]
      exact .bind _ fun _ => .bind _ fun _ => .normal
  | function decl =>
    rw [execute]
    exact .bind _ fun _ => .bind _ fun _ => .bind _ fun _ => .normal
  | classDecl name parent methods =>
    rw [execute]
    exact .bind _ fun _ => .normal
  | block | branch | loop | giveBack => exact hs.elim

namespace Task

/-- The course of a task shows what the task gives back, if the courses of its parts do. -/
def Shown (host : Host) (n : Nat) : Prop :=
  ∀ t m, Concludes host (course host n m t) (returned? host n m t)

theorem concludes_giveBack {keyword : Token} {value : Option Expr} :
    Concludes host (course host (n + 1) m (statement (.giveBack keyword value)))
      (returned? host (n + 1) m (statement (.giveBack keyword value))) := by
  show Concludes host [⟨n + 1, .giveBack keyword value, m⟩] (returnedValue? _)
  cases hrun : execute host (n + 1) (.giveBack keyword value) m with
  | error halt m' =>
    intro x hx v m'' hreturns
    obtain rfl := List.mem_singleton.mp hx
    cases hrun.symm.trans (Begun.returns_iff.mp hreturns).2
  | ok c m' =>
    obtain ⟨v, rfl⟩ : ∃ v, c = .returned v := by
      cases value with
      | none =>
        rw [execute] at hrun
        cases hrun
        exact ⟨_, rfl⟩
      | some e =>
        rw [execute] at hrun
        obtain ⟨a, r, -, hrest⟩ := bind_eq_ok.mp hrun
        cases hrest
        exact ⟨_, rfl⟩
    exact ⟨[], _, m', rfl, Begun.returns_iff.mpr ⟨⟨_, _, rfl⟩, hrun⟩, nofun⟩

theorem concludes_plain {s : Stmt} (hs : s.Plain) :
    Concludes host (course host (n + 1) m (statement s)) (returned? host (n + 1) m (statement s)) := by
  rw [returned?, quiet_execute hs m]
  cases s with
  | block | branch | loop | giveBack => exact hs.elim
  | _ => exact Concludes.single (by simp)

theorem concludes_block (ih : Shown host n) (ss : List Stmt) :
    Concludes host (course host (n + 1) m (statement (.block ss)))
      (returned? host (n + 1) m (statement (.block ss))) := by
  have hreturned : returned? host (n + 1) m (statement (.block ss)) =
      returned? host n (m.inNew ∅ m.active) (statements ss) := by
    show returnedValue? (execute host (n + 1) (.block ss) m) = _
    rw [execute]
    exact returnedValue?_inFrame _ _
  rw [hreturned]
  refine (Concludes.single (by simp)).append ?_
  rw [parts, List.flatMap_singleton]
  exact ih _ _

theorem concludes_branch (ih : Shown host n) (e : Expr) (whenTrue : Stmt) (whenFalse : Option Stmt) :
    Concludes host (course host (n + 1) m (statement (.branch e whenTrue whenFalse)))
      (returned? host (n + 1) m (statement (.branch e whenTrue whenFalse))) := by
  refine (Concludes.single (by simp)).append ?_
  rw [parts, returned?, execute.eq_def]
  dsimp only
  cases hvalue : evaluate host n e m with
  | error halt m' =>
    rw [bind_of_error hvalue]
    exact .nil
  | ok v m' =>
    rw [bind_of_ok hvalue]
    dsimp only
    by_cases hv : v.isTruthy = true
    · rw [if_pos hv, if_pos hv, List.flatMap_singleton]
      exact ih (statement whenTrue) m'
    · rw [if_neg hv, if_neg hv]
      cases whenFalse with
      | none => exact .nil
      | some s =>
        rw [Option.toList_some, List.map_singleton, List.flatMap_singleton]
        exact ih (statement s) m'

theorem course_statements (ss : List Stmt) : course host (n + 1) m (statements ss) =
    (parts host n m (statements ss)).flatMap fun part => course host n part.2 part.1 := rfl

theorem course_loop (e : Expr) (body : Stmt) : course host (n + 1) m (loop e body) =
    (parts host n m (loop e body)).flatMap fun part => course host n part.2 part.1 := rfl

theorem concludes_statements (ih : Shown host n) (ss : List Stmt) :
    Concludes host (course host (n + 1) m (statements ss))
      (returned? host (n + 1) m (statements ss)) := by
  cases ss with
  | nil =>
    show Concludes host [] (returnedValue? (executeAll host (n + 1) [] m))
    rw [executeAll]
    exact .nil
  | cons s rest =>
    have hfirst := ih (statement s) m
    rw [returned?] at hfirst
    rw [course_statements, parts, List.flatMap_cons, returned?, executeAll]
    cases hrun : execute host n s m with
    | error halt m' =>
      rw [hrun] at hfirst
      rw [bind_of_error hrun]
      exact hfirst.append .nil
    | ok c m' =>
      rw [hrun] at hfirst
      rw [bind_of_ok hrun]
      cases c with
      | normal =>
        refine hfirst.append ?_
        dsimp only
        rw [List.flatMap_singleton]
        exact ih (statements rest) m'
      | returned v =>
        dsimp only
        rw [List.flatMap_nil, List.append_nil]
        exact hfirst

theorem concludes_loop (ih : Shown host n) (e : Expr) (body : Stmt) :
    Concludes host (course host (n + 1) m (loop e body))
      (returned? host (n + 1) m (loop e body)) := by
  rw [course_loop, parts, returned?, executeLoop]
  cases hvalue : evaluate host n e m with
  | error halt m' =>
    rw [bind_of_error hvalue]
    exact .nil
  | ok v m' =>
    rw [bind_of_ok hvalue]
    dsimp only
    by_cases hv : v.isTruthy = true
    · have hbody := ih (statement body) m'
      rw [returned?] at hbody
      rw [if_pos hv, if_pos hv, List.flatMap_cons]
      cases hrun : execute host n body m' with
      | error halt m'' =>
        rw [hrun] at hbody
        rw [bind_of_error hrun]
        exact hbody.append .nil
      | ok c m'' =>
        rw [hrun] at hbody
        rw [bind_of_ok hrun]
        cases c with
        | normal =>
          refine hbody.append ?_
          dsimp only
          rw [List.flatMap_singleton]
          exact ih (loop e body) m''
        | returned v =>
          dsimp only
          rw [List.flatMap_nil, List.append_nil]
          exact hbody
    · rw [if_neg hv, if_neg hv]
      exact .nil

/-- The course of a task that runs statements shows what the task gives back. -/
theorem course_concludes (host : Host) (n : Nat) : Shown host n := by
  induction n with
  | zero =>
    intro t m
    cases t with
    | statement s =>
      intro x hx v m' hreturns
      obtain rfl := List.mem_singleton.mp hx
      cases hreturns
    | _ => exact .nil
  | succ n ih =>
    intro t m
    match t with
    | statement s =>
      cases s with
      | giveBack keyword value => exact concludes_giveBack
      | block ss => exact concludes_block ih ss
      | branch e whenTrue whenFalse => exact concludes_branch ih e whenTrue whenFalse
      | loop e body =>
        refine (Concludes.single (by simp)).append ?_
        rw [parts, List.flatMap_singleton, returned?, execute]
        exact ih (loop e body) m
      | _ => exact concludes_plain trivial
    | statements ss => exact concludes_statements ih ss
    | loop e body => exact concludes_loop ih e body
    | expression _ | expressions _ | call _ _ _ | invoke _ _ _ | bind _ _ | write _ _ _ => exact .nil

/-- Each part of a task is a task that it begins. -/
theorem starts_of_mem_parts {t t' : Task} {m' : Machine} (h : (t', m') ∈ parts host n m t) :
    Starts host n t m t' m' ∧ t'.Runs := by
  cases t with
  | statement s =>
    cases s with
    | block ss =>
      obtain ⟨rfl, rfl⟩ := Prod.mk.inj (List.mem_singleton.mp h)
      exact ⟨.block rfl, trivial⟩
    | loop e body =>
      obtain ⟨rfl, rfl⟩ := Prod.mk.inj (List.mem_singleton.mp h)
      exact ⟨.loop, trivial⟩
    | branch e whenTrue whenFalse =>
      rw [parts] at h
      cases hvalue : evaluate host n e m with
      | error => simp [hvalue] at h
      | ok v m₁ =>
        cases hv : v.isTruthy with
        | true =>
          simp only [hvalue, hv, if_true, List.mem_singleton, Prod.mk.injEq] at h
          obtain ⟨rfl, rfl⟩ := h
          exact ⟨.whenTrue hvalue hv, trivial⟩
        | false =>
          cases whenFalse with
          | none => simp [hvalue, hv] at h
          | some s =>
            simp [hvalue, hv] at h
            obtain ⟨rfl, rfl⟩ := h
            exact ⟨.whenFalse hvalue hv, trivial⟩
    | _ => cases h
  | statements ss =>
    cases ss with
    | nil => cases h
    | cons s rest =>
      rw [parts] at h
      obtain h | h := List.mem_cons.mp h
      · obtain ⟨rfl, rfl⟩ := Prod.mk.inj h
        exact ⟨.first, trivial⟩
      · split at h
        · next hrun =>
          obtain ⟨rfl, rfl⟩ := Prod.mk.inj (List.mem_singleton.mp h)
          exact ⟨.rest hrun, trivial⟩
        · cases h
  | loop e body =>
    rw [parts] at h
    cases hvalue : evaluate host n e m with
    | error => simp [hvalue] at h
    | ok v m₁ =>
      cases hv : v.isTruthy with
      | false => simp [hvalue, hv] at h
      | true =>
        simp only [hvalue, hv, if_true] at h
        obtain h | h := List.mem_cons.mp h
        · obtain ⟨rfl, rfl⟩ := Prod.mk.inj h
          exact ⟨.loopBody hvalue hv, trivial⟩
        · split at h
          · next hrun =>
            obtain ⟨rfl, rfl⟩ := Prod.mk.inj (List.mem_singleton.mp h)
            exact ⟨.again hvalue hv hrun, trivial⟩
          · cases h
  | _ => cases h

/-- The parts of a task are the tasks that it begins, those that evaluate expressions left out. -/
theorem mem_parts {t t' : Task} {m' : Machine} (ht : t.Runs) :
    (t', m') ∈ parts host n m t ↔ Starts host n t m t' m' ∧ t'.Runs := by
  refine ⟨starts_of_mem_parts, ?_⟩
  rintro ⟨hstart, ht'⟩
  cases hstart with
  | block hframe =>
    cases hframe
    exact List.mem_singleton_self _
  | loop => exact List.mem_singleton_self _
  | whenTrue hvalue hv => simp [parts, hvalue, hv]
  | whenFalse hvalue hv => simp [parts, hvalue, hv]
  | first => exact List.mem_cons_self
  | rest hrun => simp [parts, hrun]
  | loopBody hvalue hv => simp [parts, hvalue, hv]
  | again hvalue hv hrun => simp [parts, hvalue, hv, hrun]
  | body => exact ht.elim
  | _ => exact ht'.elim

/-- The tasks that run statements within such a task, those of functions that are called left out. -/
inductive Follows (host : Host) : Nat → Task → Machine → Nat → Task → Machine → Prop
  | self {n t m} : Follows host n t m n t m
  | step {n t m t₁ m₁ k t₂ m₂} : t.Runs → Starts host n t m t₁ m₁ → t₁.Runs →
    Follows host n t₁ m₁ k t₂ m₂ → Follows host (n + 1) t m k t₂ m₂

theorem runs_of_mem_parts {t t' : Task} {m' : Machine} (h : (t', m') ∈ parts host n m t) : t.Runs := by
  cases t with
  | statement | statements | loop => trivial
  | _ => cases h

theorem mem_begun {t : Task} {k : Nat} {s : Stmt} {m' : Machine} :
    ⟨k, s, m'⟩ ∈ t.begun n m ↔ t = statement s ∧ n = k ∧ m = m' := by
  cases t with
  | statement s' =>
    simp only [begun, List.mem_singleton, Begun.mk.injEq, statement.injEq]
    constructor
    · rintro ⟨rfl, rfl, rfl⟩
      exact ⟨rfl, rfl, rfl⟩
    · rintro ⟨rfl, rfl, rfl⟩
      exact ⟨rfl, rfl, rfl⟩
  | _ => simp [begun]

/-- The course of a task is made of the statements that are run within it. -/
theorem mem_course {t : Task} {k : Nat} {s : Stmt} {m' : Machine} :
    ⟨k, s, m'⟩ ∈ course host n m t ↔ Follows host n t m k (statement s) m' := by
  induction n generalizing t m with
  | zero =>
    rw [course, mem_begun]
    constructor
    · rintro ⟨rfl, rfl, rfl⟩
      exact .self
    · rintro ⟨⟩
      exact ⟨rfl, rfl, rfl⟩
  | succ n ih =>
    rw [course, List.mem_append, mem_begun, List.mem_flatMap]
    constructor
    · rintro (⟨rfl, rfl, rfl⟩ | ⟨⟨t₁, m₁⟩, hpart, hrest⟩)
      · exact .self
      · have ht := runs_of_mem_parts hpart
        obtain ⟨hstart, ht₁⟩ := (mem_parts ht).mp hpart
        exact .step ht hstart ht₁ (ih.mp hrest)
    · intro h
      cases h with
      | self => exact .inl ⟨rfl, rfl, rfl⟩
      | step ht hstart ht₁ hrest =>
        exact .inr ⟨_, (mem_parts ht).mpr ⟨hstart, ht₁⟩, ih.mpr hrest⟩

end Task

theorem newFrame_eq (bindings : Bindings) (enclosing : FrameId) :
    Action.newFrame bindings enclosing m = .ok (m.inNew bindings enclosing).active
      { m.inNew bindings enclosing with active := m.active } := rfl

theorem inFrame_eq (bindings : Bindings) (enclosing : FrameId) (x : Action Completion) :
    Action.inFrame (m.inNew bindings enclosing).active x
        { m.inNew bindings enclosing with active := m.active } =
      match x (m.inNew bindings enclosing) with
      | .ok c m' => .ok c { m' with active := m.active }
      | .error halt m' => .error halt { m' with active := m.active } := by
  unfold Action.inFrame
  generalize x (m.inNew bindings enclosing) = result
  cases result <;> rfl

/-- A call gives back what its body completes with, if the function is not an initializer. -/
theorem invoke_eq {f : Closure} (hf : f.isInitializer = false) (paren : Token) (args : List Value) :
    invoke host (n + 1) f paren args m =
      match executeAll host n f.decl.body
        (m.inNew (argumentBindings f.decl.params args) f.frame) with
      | .ok c m' => .ok c.value { m' with active := m.active }
      | .error halt m' => .error halt { m' with active := m.active } := by
  have hbody := inFrame_eq (m := m) (argumentBindings f.decl.params args) f.frame
    (executeAll host n f.decl.body)
  rw [invoke, bind_of_ok (newFrame_eq _ _)]
  cases hrun : executeAll host n f.decl.body
      (m.inNew (argumentBindings f.decl.params args) f.frame) with
  | ok c m' =>
    rw [hrun] at hbody
    rw [bind_of_ok hbody, if_neg (by simp [hf])]
    rfl
  | error halt m' =>
    rw [hrun] at hbody
    rw [bind_of_error hbody]
end

end Treewalk
