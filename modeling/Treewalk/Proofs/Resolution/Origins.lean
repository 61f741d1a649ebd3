import Treewalk.Proofs.Resolution.Visits

/-! Where findings come from. Every finding of a program is made at one node that resolution comes
to: a distance at an occurrence of a name, a fault at the expression, statement or function that is
wrong. -/

namespace Treewalk

/-- The occurrence of a name that an expression is, apart from those inside it. -/
def Expr.reference? : Expr → Option Reference
  | .variable ref | .assign ref _ | .this ref | .parent ref _ => some ref
  | _ => none

/-- What is found at an expression itself, and not inside it. -/
def Expr.ownFindings (ctx : Context) (underway : Option String) : Expr → List Finding
  | .variable target => target.read ctx underway
  | .assign target _ => target.locate ctx
  | .this receiver => (Expr.this receiver).findings ctx underway
  | .parent keyword method => (Expr.parent keyword method).findings ctx underway
  | _ => []

/-- What is found at a statement itself, and not inside it. -/
def Stmt.ownFindings (ctx : Context) : Stmt → List Finding
  | .var name _ => name.duplicate ctx
  | .function decl => decl.name.duplicate ctx
  | .giveBack keyword value =>
    (if ctx.function = .topLevel then [.fault keyword .topLevelReturn] else []) ++
      if value.isSome ∧ ctx.function = .initializer then [.fault keyword .initializerReturn] else []
  | .classDecl name parent _ =>
    name.duplicate ctx ++
      match parent with
      | some ref =>
        if ref.name.lexeme = name.lexeme then [.fault ref.name .selfInheritance] else []
      | none => []
  | _ => []

/-- What is found at a node itself. -/
def Node.ownFindings (ctx : Context) : Node → List Finding
  | expression underway e => e.ownFindings ctx underway
  | statement s => s.ownFindings ctx
  | statements _ => []
  | function _ decl => parameterFindings ctx.enter decl.params

/-- A finding is made at a node that resolution comes to. -/
def Finding.MadeIn (program : Program) (f : Finding) : Prop :=
  ∃ node ctx openings, Visits program node ctx openings ∧ f ∈ node.ownFindings ctx

/-- A name that is read while nothing is under way is wrong in fewer cases. -/
theorem Reference.read_none_subset (ctx : Context) (underway : Option String) (ref : Reference) :
    ref.read ctx none ⊆ ref.read ctx underway := by
  unfold Reference.read
  cases ctx.scopes with
  | nil => exact List.subset_append_right _ _
  | cons => exact List.Subset.refl _

section
variable {program : Program} {ctx : Context} {openings : List Opening} {underway : Option String}
  {f : Finding}

mutual

theorem Expr.madeIn : (e : Expr) → Visits program (.expression underway e) ctx openings →
    f ∈ e.findings ctx underway → f.MadeIn program
  | .literal _, _, hf => by cases hf
  | .unary _ operand, h, hf => by
    rw [Expr.findings] at hf
    exact operand.madeIn (h.inside (by simp [Expr.children])) hf
  | .binary left _ right, h, hf => by
    rw [Expr.findings, List.mem_append] at hf
    obtain hf | hf := hf
    · exact left.madeIn (h.inside (by simp [Expr.children])) hf
    · exact right.madeIn (h.inside (by simp [Expr.children])) hf
  | .logical left _ right, h, hf => by
    rw [Expr.findings, List.mem_append] at hf
    obtain hf | hf := hf
    · exact left.madeIn (h.inside (by simp [Expr.children])) hf
    · exact right.madeIn (h.inside (by simp [Expr.children])) hf
  | .grouping inner, h, hf => by
    rw [Expr.findings] at hf
    exact inner.madeIn (h.inside (by simp [Expr.children])) hf
  | .variable target, h, hf => by
    rw [Expr.findings] at hf
    exact ⟨_, ctx, openings, h, hf⟩
  | .assign target value, h, hf => by
    rw [Expr.findings, List.mem_append] at hf
    obtain hf | hf := hf
    · exact value.madeIn (h.inside (by simp [Expr.children])) hf
    · exact ⟨_, ctx, openings, h, hf⟩
  | .call callee _ arguments, h, hf => by
    rw [Expr.findings, List.mem_append] at hf
    obtain hf | hf := hf
    · exact callee.madeIn (h.inside (by simp [Expr.children])) hf
    · exact Expr.madeIn_all arguments
        (fun e he => h.inside (List.mem_cons_of_mem _ he)) hf
  | .get object _, h, hf => by
    rw [Expr.findings] at hf
    exact object.madeIn (h.inside (by simp [Expr.children])) hf
  | .set object _ value, h, hf => by
    rw [Expr.findings, List.mem_append] at hf
    obtain hf | hf := hf
    · exact value.madeIn (h.inside (by simp [Expr.children])) hf
    · exact object.madeIn (h.inside (by simp [Expr.children])) hf
  | .this _, h, hf => ⟨_, ctx, openings, h, hf⟩
  | .parent _ _, h, hf => ⟨_, ctx, openings, h, hf⟩

theorem Expr.madeIn_all : (es : List Expr) →
    (∀ e ∈ es, Visits program (.expression underway e) ctx openings) →
    f ∈ Expr.allFindings ctx underway es → f.MadeIn program
  | [], _, hf => by cases hf
  | e :: rest, h, hf => by
    rw [Expr.allFindings, List.mem_append] at hf
    obtain hf | hf := hf
    · exact e.madeIn (h e List.mem_cons_self) hf
    · exact Expr.madeIn_all rest (fun e he => h e (List.mem_cons_of_mem _ he)) hf

end

/-- What is found in the parent of a class is found at the class or where the parent is read. -/
theorem madeIn_parentFindings {name : Token} {ref : Reference} {methods : List FunctionDecl}
    (h : Visits program (.statement (.classDecl name (some ref) methods)) ctx openings)
    (hf : f ∈ parentFindings (ctx.define name.lexeme) name ref) : f.MadeIn program := by
  rw [parentFindings, List.mem_append] at hf
  obtain hf | hf := hf
  · exact ⟨_, ctx, openings, h, List.mem_append_right _ hf⟩
  · exact ⟨_, _, openings, h.heritage, Reference.read_none_subset _ _ ref hf⟩

mutual

theorem Stmt.madeIn {ctx : Context} {openings : List Opening} : (s : Stmt) →
    Visits program (.statement s) ctx openings → f ∈ s.findings ctx → f.MadeIn program
  | .expression value, h, hf => by
    rw [Stmt.findings] at hf
    exact value.madeIn h.value hf
  | .print value, h, hf => by
    rw [Stmt.findings] at hf
    exact value.madeIn h.printed hf
  | .var name none, h, hf => by
    rw [Stmt.findings] at hf
    exact ⟨_, ctx, openings, h, hf⟩
  | .var name (some initial), h, hf => by
    rw [Stmt.findings, List.mem_append] at hf
    obtain hf | hf := hf
    · exact ⟨_, ctx, openings, h, hf⟩
    · exact initial.madeIn h.initial hf
  | .block body, h, hf => by
    rw [Stmt.findings] at hf
    exact Stmt.madeIn_all body h.block hf
  | .branch condition whenTrue none, h, hf => by
    rw [Stmt.findings, List.mem_append] at hf
    obtain hf | hf := hf
    · exact condition.madeIn h.condition hf
    · exact whenTrue.madeIn h.whenTrue hf
  | .branch condition whenTrue (some whenFalse), h, hf => by
    rw [Stmt.findings, List.mem_append, List.mem_append] at hf
    obtain (hf | hf) | hf := hf
    · exact condition.madeIn h.condition hf
    · exact whenTrue.madeIn h.whenTrue hf
    · exact whenFalse.madeIn h.whenFalse hf
  | .loop condition body, h, hf => by
    rw [Stmt.findings, List.mem_append] at hf
    obtain hf | hf := hf
    · exact condition.madeIn h.loopCondition hf
    · exact body.madeIn h.loopBody hf
  | .function decl, h, hf => by
    rw [Stmt.findings, List.mem_append] at hf
    obtain hf | hf := hf
    · exact ⟨_, ctx, openings, h, hf⟩
    · exact decl.madeIn h.function hf
  | .giveBack keyword none, h, hf => by
    unfold Stmt.findings at hf
    rw [List.append_nil] at hf
    exact ⟨_, ctx, openings, h, List.mem_append_left _ hf⟩
  | .giveBack keyword (some value), h, hf => by
    unfold Stmt.findings at hf
    rw [List.mem_append, List.mem_append] at hf
    obtain hf | hf | hf := hf
    · exact ⟨_, ctx, openings, h, List.mem_append_left _ hf⟩
    · refine ⟨_, ctx, openings, h, List.mem_append_right _ ?_⟩
      simpa using hf
    · exact value.madeIn h.givenBack hf
  | .classDecl name none methods, h, hf => by
    unfold Stmt.findings at hf
    dsimp only at hf
    rw [List.append_nil, List.mem_append] at hf
    obtain hf | hf := hf
    · exact ⟨_, ctx, openings, h, List.mem_append_left _ hf⟩
    · exact FunctionDecl.madeIn_methods methods (fun _ hdecl => h.method hdecl) hf
  | .classDecl name (some ref) methods, h, hf => by
    unfold Stmt.findings at hf
    dsimp only at hf
    rw [List.mem_append, List.mem_append] at hf
    obtain (hf | hf) | hf := hf
    · exact ⟨_, ctx, openings, h, List.mem_append_left _ hf⟩
    · exact madeIn_parentFindings h hf
    · exact FunctionDecl.madeIn_methods methods (fun _ hdecl => h.inheritingMethod hdecl) hf

theorem Stmt.madeIn_all {ctx : Context} {openings : List Opening} : (ss : List Stmt) →
    Visits program (.statements ss) ctx openings → f ∈ Stmt.allFindings ctx ss → f.MadeIn program
  | [], _, hf => by cases hf
  | s :: rest, h, hf => by
    rw [Stmt.allFindings, List.mem_append] at hf
    obtain hf | hf := hf
    · exact s.madeIn h.first hf
    · exact Stmt.madeIn_all rest h.rest hf

theorem FunctionDecl.madeIn {ctx : Context} {openings : List Opening} {kind : FunctionContext} :
    (decl : FunctionDecl) → Visits program (.function kind decl) ctx openings →
    f ∈ decl.findings ctx kind → f.MadeIn program
  | ⟨name, params, body⟩, h, hf => by
    rw [FunctionDecl.findings, List.mem_append] at hf
    obtain hf | hf := hf
    · exact ⟨_, ctx, openings, h, hf⟩
    · exact Stmt.madeIn_all body h.body hf

theorem FunctionDecl.madeIn_methods {ctx : Context} {openings : List Opening} :
    (decls : List FunctionDecl) →
    (∀ decl ∈ decls, Visits program (.function (.ofMethod decl.name) decl) ctx openings) →
    f ∈ FunctionDecl.methodFindings ctx decls → f.MadeIn program
  | [], _, hf => by cases hf
  | decl :: rest, h, hf => by
    rw [FunctionDecl.methodFindings, List.mem_append] at hf
    obtain hf | hf := hf
    · exact decl.madeIn (h decl List.mem_cons_self) hf
    · exact FunctionDecl.madeIn_methods rest (fun d hd => h d (List.mem_cons_of_mem _ hd)) hf

end

/-- Every finding of a program is made at a node that resolution comes to. -/
theorem Program.madeIn (hf : f ∈ program.findings) : f.MadeIn program :=
  Stmt.madeIn_all program .program hf

end

theorem Reference.mem_locate {ctx : Context} {ref : Reference} {f : Finding} :
    f ∈ ref.locate ctx ↔ ∃ d, ctx.distance? ref.name.lexeme = some d ∧ f = .distance ref.id d := by
  unfold Reference.locate
  cases ctx.distance? ref.name.lexeme <;> simp

theorem Reference.distance_mem_read {ctx : Context} {underway : Option String} {ref : Reference}
    {id : NodeId} {d : Nat} (h : .distance id d ∈ ref.read ctx underway) :
    .distance id d ∈ ref.locate ctx := by
  unfold Reference.read at h
  obtain h | h := List.mem_append.mp h
  · split at h <;> split at h <;> simp at h
  · exact h

/-- A distance that is found at an expression is that of the name that occurs there. -/
theorem Expr.ownFindings_distance {e : Expr} {ctx : Context} {underway : Option String}
    {id : NodeId} {d : Nat} (h : .distance id d ∈ e.ownFindings ctx underway) :
    ∃ ref, e.reference? = some ref ∧ .distance id d ∈ ref.locate ctx := by
  cases e with
  | «variable» target => exact ⟨target, rfl, Reference.distance_mem_read h⟩
  | assign target value => exact ⟨target, rfl, h⟩
  | this receiver =>
    refine ⟨receiver, rfl, ?_⟩
    rw [Expr.ownFindings, Expr.findings] at h
    split at h
    · simp at h
    · exact h
  | parent keyword method =>
    refine ⟨keyword, rfl, ?_⟩
    rw [Expr.ownFindings, Expr.findings] at h
    obtain h | h := List.mem_append.mp h
    · split at h <;> simp at h
    · exact h
  | _ => cases h

/-- Nothing but faults is found at a statement itself. -/
theorem Stmt.located_ownFindings (ctx : Context) (s : Stmt) : located (s.ownFindings ctx) = [] := by
  cases s with
  | var | function => exact located_duplicate _ _
  | giveBack =>
    unfold Stmt.ownFindings
    rw [located_append]
    split <;> split <;> rfl
  | classDecl name parent methods =>
    unfold Stmt.ownFindings
    rw [located_append, located_duplicate, List.nil_append]
    cases parent with
    | none => rfl
    | some ref =>
      dsimp only
      split <;> rfl
  | _ => rfl

/-- A distance that is found at a node is that of a name that occurs there. -/
theorem Node.ownFindings_distance {node : Node} {ctx : Context} {id : NodeId} {d : Nat}
    (h : .distance id d ∈ node.ownFindings ctx) :
    ∃ underway e ref, node = .expression underway e ∧ e.reference? = some ref ∧ ref.id = id ∧
      ctx.distance? ref.name.lexeme = some d := by
  cases node with
  | expression underway e =>
    obtain ⟨ref, href, hlocate⟩ := Expr.ownFindings_distance h
    obtain ⟨d', hd, heq⟩ := Reference.mem_locate.mp hlocate
    cases heq
    exact ⟨underway, e, ref, rfl, href, rfl, hd⟩
  | statement s =>
    have hlocated := mem_located h
    rw [Node.ownFindings, Stmt.located_ownFindings] at hlocated
    cases hlocated
  | statements ss => cases h
  | function kind decl =>
    have hlocated := mem_located h
    rw [Node.ownFindings, located_parameterFindings] at hlocated
    cases hlocated

end Treewalk
