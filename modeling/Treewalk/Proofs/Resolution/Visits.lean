import Treewalk.Proofs.Trees.Numbering
import Treewalk.Proofs.Trees.Spelling
import Treewalk.Resolution

/-! The walk of resolution. `Visits program node ctx openings` says that resolution comes to `node`
with the surroundings `ctx`, whose scopes were opened for `openings`, innermost first. What is found
in a node that is visited is found in the program. -/

namespace Treewalk

/-- What a scope is opened for: a block, the parameters and the body of a function, the receiver of
the methods of a class, the parent of a class. -/
inductive Opening
  | block (body : List Stmt)
  | function (decl : FunctionDecl)
  | receiver (methods : List FunctionDecl)
  | parent (ref : Reference) (methods : List FunctionDecl)

/-- A part of a program that resolution comes to. An expression may be part of a declaration that is
under way: the initial value of the name, or the parent of the class. -/
inductive Node
  | expression (underway : Option String) (e : Expr)
  | statement (s : Stmt)
  | statements (ss : List Stmt)
  | function (kind : FunctionContext) (decl : FunctionDecl)

namespace Node

/-- What is found in a node. -/
def findings (ctx : Context) : Node → List Finding
  | expression underway e => e.findings ctx underway
  | statement s => s.findings ctx
  | statements ss => Stmt.allFindings ctx ss
  | function kind decl => decl.findings ctx kind

/-- The numbers of the occurrences in a node. -/
def ids : Node → List NodeId
  | expression _ e => e.ids
  | statement s => s.ids
  | statements ss => Stmt.allIds ss
  | function _ decl => decl.ids

/-- The tokens inside a node are of the right classes. -/
def Spelled (N : Token → Prop) : Node → Prop
  | expression _ e => e.Spelled N
  | statement s => s.Spelled N
  | statements ss => Stmt.AllSpelled N ss
  | function _ decl => decl.Spelled N

/-- The name whose declaration the node is part of. -/
def underway : Node → Option String
  | expression underway _ => underway
  | _ => none

end Node

/-- The expressions directly inside an expression. -/
def Expr.children : Expr → List Expr
  | .literal _ | .variable _ | .this _ | .parent _ _ => []
  | .unary _ e | .grouping e | .assign _ e | .get e _ => [e]
  | .binary left _ right | .logical left _ right => [left, right]
  | .call callee _ arguments => callee :: arguments
  | .set object _ value => [object, value]

/-- The walk of resolution through a program. -/
inductive Visits (program : Program) : Node → Context → List Opening → Prop
  | program : Visits program (.statements program) .outermost []
  | first {s rest ctx os} : Visits program (.statements (s :: rest)) ctx os →
    Visits program (.statement s) ctx os
  | rest {s rest ctx os} : Visits program (.statements (s :: rest)) ctx os →
    Visits program (.statements rest) (ctx.after s) os
  | value {e ctx os} : Visits program (.statement (.expression e)) ctx os →
    Visits program (.expression none e) ctx os
  | printed {e ctx os} : Visits program (.statement (.print e)) ctx os →
    Visits program (.expression none e) ctx os
  | initial {name e ctx os} : Visits program (.statement (.var name (some e))) ctx os →
    Visits program (.expression (some name.lexeme) e) (ctx.declare name.lexeme) os
  | block {body ctx os} : Visits program (.statement (.block body)) ctx os →
    Visits program (.statements body) ctx.enter (.block body :: os)
  | condition {e s other ctx os} : Visits program (.statement (.branch e s other)) ctx os →
    Visits program (.expression none e) ctx os
  | whenTrue {e s other ctx os} : Visits program (.statement (.branch e s other)) ctx os →
    Visits program (.statement s) ctx os
  | whenFalse {e s other ctx os} : Visits program (.statement (.branch e s (some other))) ctx os →
    Visits program (.statement other) ctx os
  | loopCondition {e s ctx os} : Visits program (.statement (.loop e s)) ctx os →
    Visits program (.expression none e) ctx os
  | loopBody {e s ctx os} : Visits program (.statement (.loop e s)) ctx os →
    Visits program (.statement s) ctx os
  | function {decl ctx os} : Visits program (.statement (.function decl)) ctx os →
    Visits program (.function .function decl) (ctx.define decl.name.lexeme) os
  | body {kind decl ctx os} : Visits program (.function kind decl) ctx os →
    Visits program (.statements decl.body) (ctx.body kind decl.params) (.function decl :: os)
  | givenBack {word e ctx os} : Visits program (.statement (.giveBack word (some e))) ctx os →
    Visits program (.expression none e) ctx os
  | heritage {name ref methods ctx os} :
    Visits program (.statement (.classDecl name (some ref) methods)) ctx os →
    Visits program (.expression (some name.lexeme) (.variable ref)) (ctx.define name.lexeme) os
  | method {name methods decl ctx os} :
    Visits program (.statement (.classDecl name none methods)) ctx os → decl ∈ methods →
    Visits program (.function (.ofMethod decl.name) decl)
      ((ctx.define name.lexeme).methods none) (.receiver methods :: os)
  | inheritingMethod {name ref methods decl ctx os} :
    Visits program (.statement (.classDecl name (some ref) methods)) ctx os → decl ∈ methods →
    Visits program (.function (.ofMethod decl.name) decl)
      ((ctx.define name.lexeme).methods (some ref))
      (.receiver methods :: .parent ref methods :: os)
  | inside {underway e e' ctx os} : Visits program (.expression underway e) ctx os →
    e' ∈ e.children → Visits program (.expression underway e') ctx os

theorem Program.after_outermost (s : Stmt) : Context.outermost.after s = .outermost := by
  unfold Context.after
  cases s.declared? <;> rfl

/-- The occurrences to which findings give a distance. -/
def located (findings : List Finding) : List NodeId :=
  findings.filterMap fun
    | .distance id _ => some id
    | .fault .. => none

/-- There are misuses if a fault was found. -/
theorem misuses_eq_nil_iff {fs : List Finding} :
    misuses fs = [] ↔ ∀ token fault, .fault token fault ∉ fs := by
  rw [misuses, List.filterMap_eq_nil_iff]
  constructor
  · intro h token fault hmem
    cases h _ hmem
  · intro h f hf
    cases f with
    | distance => rfl
    | fault token fault => exact absurd hf (h token fault)

@[simp] theorem located_nil : located [] = [] := rfl

@[simp] theorem located_append (fs gs : List Finding) :
    located (fs ++ gs) = located fs ++ located gs := by
  simp [located]

theorem mem_located {fs : List Finding} {id : NodeId} {d : Nat} (h : .distance id d ∈ fs) :
    id ∈ located fs :=
  List.mem_filterMap.mpr ⟨_, h, rfl⟩

@[simp] theorem located_duplicate (ctx : Context) (name : Token) :
    located (name.duplicate ctx) = [] := by
  unfold Token.duplicate
  split <;> rfl

theorem located_locate (ctx : Context) (ref : Reference) :
    (located (ref.locate ctx)).Sublist [ref.id] := by
  unfold Reference.locate
  split
  · exact List.Sublist.refl _
  · exact List.nil_sublist _

theorem located_read (ctx : Context) (pending : Option String) (ref : Reference) :
    (located (ref.read ctx pending)).Sublist [ref.id] := by
  unfold Reference.read
  rw [located_append]
  refine List.Sublist.trans ?_ (located_locate ctx ref)
  split <;> split <;> simp [located]

mutual

/-- An occurrence is given at most one distance, and no other number is. -/
theorem Expr.located_findings (ctx : Context) (pending : Option String) :
    (e : Expr) → (located (e.findings ctx pending)).Sublist e.ids
  | .literal _ => List.Sublist.refl _
  | .unary _ operand => by
    rw [Expr.findings, Expr.ids]
    exact operand.located_findings ctx pending
  | .binary left _ right => by
    rw [Expr.findings, Expr.ids, located_append]
    exact (left.located_findings ctx pending).append (right.located_findings ctx pending)
  | .logical left _ right => by
    rw [Expr.findings, Expr.ids, located_append]
    exact (left.located_findings ctx pending).append (right.located_findings ctx pending)
  | .grouping inner => by
    rw [Expr.findings, Expr.ids]
    exact inner.located_findings ctx pending
  | .variable target => by
    rw [Expr.findings, Expr.ids]
    exact located_read ctx pending target
  | .assign target value => by
    rw [Expr.findings, Expr.ids, located_append]
    exact (value.located_findings ctx pending).append (located_locate ctx target)
  | .call callee _ arguments => by
    rw [Expr.findings, Expr.ids, located_append]
    exact (callee.located_findings ctx pending).append
      (Expr.located_allFindings ctx pending arguments)
  | .get object _ => by
    rw [Expr.findings, Expr.ids]
    exact object.located_findings ctx pending
  | .set object _ value => by
    rw [Expr.findings, Expr.ids, located_append]
    exact (value.located_findings ctx pending).append (object.located_findings ctx pending)
  | .this receiver => by
    rw [Expr.findings, Expr.ids]
    split
    · exact List.nil_sublist _
    · exact located_locate ctx receiver
  | .parent keyword _ => by
    rw [Expr.findings, Expr.ids, located_append]
    refine List.Sublist.trans ?_ (located_locate ctx keyword)
    split <;> exact List.Sublist.refl _

theorem Expr.located_allFindings (ctx : Context) (pending : Option String) :
    (es : List Expr) → (located (Expr.allFindings ctx pending es)).Sublist (Expr.allIds es)
  | [] => List.Sublist.refl _
  | e :: rest => by
    rw [Expr.allFindings, Expr.allIds, located_append]
    exact (e.located_findings ctx pending).append (Expr.located_allFindings ctx pending rest)

end

theorem located_parameterFindings (ctx : Context) (params : List Token) :
    located (parameterFindings ctx params) = [] := by
  induction params generalizing ctx with
  | nil => rfl
  | cons p rest ih => simp [parameterFindings, ih]

theorem located_parentFindings (ctx : Context) (name : Token) (ref : Reference) :
    (located (parentFindings ctx name ref)).Sublist [ref.id] := by
  unfold parentFindings
  rw [located_append]
  refine List.Sublist.trans ?_ (located_read ctx none ref)
  split <;> exact List.Sublist.refl _

mutual

theorem Stmt.located_findings (ctx : Context) :
    (s : Stmt) → (located (s.findings ctx)).Sublist s.ids
  | .expression value => by
    rw [Stmt.findings, Stmt.ids]
    exact value.located_findings ctx none
  | .print value => by
    rw [Stmt.findings, Stmt.ids]
    exact value.located_findings ctx none
  | .var name none => by
    rw [Stmt.findings, located_duplicate]
    exact List.nil_sublist _
  | .var name (some initial) => by
    rw [Stmt.findings, Stmt.ids, located_append, located_duplicate]
    exact initial.located_findings _ _
  | .block body => by
    rw [Stmt.findings, Stmt.ids]
    exact Stmt.located_allFindings ctx.enter body
  | .branch condition whenTrue none => by
    rw [Stmt.findings, Stmt.ids, located_append]
    exact (condition.located_findings ctx none).append (whenTrue.located_findings ctx)
  | .branch condition whenTrue (some whenFalse) => by
    rw [Stmt.findings, Stmt.ids, located_append, located_append]
    exact ((condition.located_findings ctx none).append (whenTrue.located_findings ctx)).append
      (whenFalse.located_findings ctx)
  | .loop condition body => by
    rw [Stmt.findings, Stmt.ids, located_append]
    exact (condition.located_findings ctx none).append (body.located_findings ctx)
  | .function decl => by
    rw [Stmt.findings, Stmt.ids, located_append, located_duplicate]
    exact decl.located_findings _ _
  | .giveBack keyword none => by
    unfold Stmt.findings
    rw [located_append]
    split <;> exact List.nil_sublist _
  | .giveBack keyword (some value) => by
    unfold Stmt.findings
    rw [Stmt.ids, located_append, located_append]
    refine List.Sublist.trans ?_ (value.located_findings ctx none)
    split <;> split <;> exact List.Sublist.refl _
  | .classDecl name none methods => by
    unfold Stmt.findings Stmt.ids
    dsimp only
    rw [located_append, located_append, located_duplicate]
    exact FunctionDecl.located_methodFindings _ methods
  | .classDecl name (some ref) methods => by
    unfold Stmt.findings Stmt.ids
    dsimp only
    rw [located_append, located_append, located_duplicate]
    exact (located_parentFindings _ name ref).append (FunctionDecl.located_methodFindings _ methods)

theorem Stmt.located_allFindings (ctx : Context) :
    (ss : List Stmt) → (located (Stmt.allFindings ctx ss)).Sublist (Stmt.allIds ss)
  | [] => List.Sublist.refl _
  | s :: rest => by
    rw [Stmt.allFindings, Stmt.allIds, located_append]
    exact (s.located_findings ctx).append (Stmt.located_allFindings _ rest)

theorem FunctionDecl.located_findings (ctx : Context) (kind : FunctionContext) :
    (decl : FunctionDecl) → (located (decl.findings ctx kind)).Sublist decl.ids
  | ⟨_, params, body⟩ => by
    rw [FunctionDecl.findings, FunctionDecl.ids, located_append, located_parameterFindings]
    exact Stmt.located_allFindings _ body

theorem FunctionDecl.located_methodFindings (ctx : Context) :
    (decls : List FunctionDecl) →
      (located (FunctionDecl.methodFindings ctx decls)).Sublist (FunctionDecl.allIds decls)
  | [] => List.Sublist.refl _
  | decl :: rest => by
    rw [FunctionDecl.methodFindings, FunctionDecl.allIds, located_append]
    exact (decl.located_findings ctx _).append (FunctionDecl.located_methodFindings ctx rest)

end

/-- What is recorded of an occurrence is what was found, or else what was known. -/
theorem Distances.record_eq_some {D : Distances} {fs : List Finding} (hnodup : (located fs).Nodup)
    {id : NodeId} {d : Nat} :
    (D.record fs)[id]? = some d ↔
      .distance id d ∈ fs ∨ id ∉ located fs ∧ D[id]? = some d := by
  induction fs generalizing D with
  | nil => simp [Distances.record]
  | cons finding rest ih =>
    cases finding with
    | fault token fault =>
      have hrest := @ih D (by simpa [located] using hnodup)
      rw [show D.record (.fault token fault :: rest) = D.record rest from rfl, hrest]
      simp [located]
    | distance id' d' =>
      have hlocated : located (.distance id' d' :: rest) = id' :: located rest := rfl
      rw [hlocated] at hnodup
      obtain ⟨hnew, hnodup⟩ := List.nodup_cons.mp hnodup
      have hrest := @ih (D.insert id' d') hnodup
      rw [show D.record (.distance id' d' :: rest) = Distances.record (D.insert id' d') rest from rfl,
        hrest, hlocated, Std.TreeMap.getElem?_insert]
      by_cases heq : id' = id
      · subst heq
        have hnot : .distance id' d ∉ rest := fun hmem => hnew (mem_located hmem)
        simp [hnot, hnew, eq_comm]
      · have hne : id ≠ id' := Ne.symm heq
        simp [heq, hne]

/-- The distances `D` of the occurrences `ids` are those that were found, and nothing else was
found. -/
structure Resolved (D : Distances) (ids : List NodeId) (findings : List Finding) : Prop where
  nodup : ids.Nodup
  recorded : ∀ id ∈ ids, ∀ d, D[id]? = some d ↔ .distance id d ∈ findings
  accepted : ∀ token fault, .fault token fault ∉ findings

namespace Resolved

variable {D : Distances} {ids others : List NodeId} {fs gs : List Finding}

theorem left (h : Resolved D (ids ++ others) (fs ++ gs)) (hgs : (located gs).Sublist others) :
    Resolved D ids fs := by
  obtain ⟨hids, -, hdisjoint⟩ := List.nodup_append.mp h.nodup
  refine ⟨hids, fun id hid d => ?_, fun token fault hmem => ?_⟩
  · rw [h.recorded id (List.mem_append_left _ hid), List.mem_append]
    constructor
    · rintro (hmem | hmem)
      · exact hmem
      · exact absurd rfl (hdisjoint id hid id (hgs.subset (mem_located hmem)))
    · exact .inl
  · exact h.accepted token fault (List.mem_append_left _ hmem)

theorem right (h : Resolved D (ids ++ others) (fs ++ gs)) (hfs : (located fs).Sublist ids) :
    Resolved D others gs := by
  obtain ⟨-, hothers, hdisjoint⟩ := List.nodup_append.mp h.nodup
  refine ⟨hothers, fun id hid d => ?_, fun token fault hmem => ?_⟩
  · rw [h.recorded id (List.mem_append_right _ hid), List.mem_append]
    constructor
    · rintro (hmem | hmem)
      · exact absurd rfl (hdisjoint id (hfs.subset (mem_located hmem)) id hid)
      · exact hmem
    · exact .inr
  · exact h.accepted token fault (List.mem_append_right _ hmem)

/-- What gives no distance may be left out. -/
theorem behind (h : Resolved D ids (fs ++ gs)) (hfs : located fs = []) : Resolved D ids gs :=
  Resolved.right (show Resolved D ([] ++ ids) (fs ++ gs) from h) (by rw [hfs])

/-- A fault that would have been found did not come up. -/
theorem of_fault {p : Prop} [Decidable p] {token : Token} {fault : ResolveFault}
    (h : Resolved D ids ((if p then [.fault token fault] else []) ++ gs)) : ¬p ∧ Resolved D ids gs := by
  by_cases hp : p
  · rw [if_pos hp] at h
    exact absurd List.mem_cons_self (h.accepted token fault)
  · rw [if_neg hp] at h
    exact ⟨hp, h⟩

end Resolved

end Treewalk
