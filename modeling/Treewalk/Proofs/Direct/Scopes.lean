import Treewalk.Proofs.Direct.Trees
import Treewalk.Proofs.Resolution.Visits

/-! Resolving programs with nodes. The same misuses are found as without nodes, and the same
occurrences are given distances. The distances differ by the scopes that are added between the
occurrence and the declaration that it means. -/

namespace Treewalk

/-- The scopes around a place with nodes, and those without. A scope that is added declares nothing,
and it is opened when no declaration is under way. -/
inductive Layers.Pads : Layers → List Scope → List Scope → Prop
  | nil {scopes} : Pads [] scopes scopes
  | shared {π scopes scopes'} (scope : Scope) : Pads π scopes scopes' →
    Pads (.shared :: π) (scope :: scopes) (scope :: scopes')
  | added {π scopes scopes'} {scope : Scope} : (∀ name : String, scope[name]? ≠ some false) →
    Pads π (scope :: scopes) scopes' → Pads (.added :: π) (scope :: scopes) (∅ :: scopes')

/-- The surroundings of a place with nodes, and those without. -/
structure Context.Pads (π : Layers) (ctx ctx' : Context) : Prop where
  scopes : π.Pads ctx.scopes ctx'.scopes
  function : ctx'.function = ctx.function
  classContext : ctx'.classContext = ctx.classContext

theorem Layers.Pads.findIdx? {π : Layers} {scopes scopes' : List Scope} (h : π.Pads scopes scopes')
    (name : String) : scopes'.findIdx? (·.contains name) =
      (scopes.findIdx? (·.contains name)).map π.lift := by
  induction h with
  | nil => simp [Layers.lift]
  | shared scope _ ih =>
    rw [List.findIdx?_cons, List.findIdx?_cons, ih]
    split
    · rfl
    · rw [Option.map_map, Option.map_map]
      rfl
  | added _ _ ih =>
    rw [List.findIdx?_cons, ih, Std.TreeMap.contains_emptyc]
    simp only [Bool.false_eq_true, if_false, Option.map_map]
    rfl

namespace Context.Pads

variable {π : Layers} {ctx ctx' : Context}

/-- As many scopes lie between as the added ones make it. -/
theorem distance? (h : ctx.Pads π ctx') (name : String) :
    ctx'.distance? name = (ctx.distance? name).map π.lift :=
  h.scopes.findIdx? name

theorem outermost_iff (h : ctx.Pads π ctx') : ctx'.scopes = [] ↔ ctx.scopes = [] := by
  have hscopes := h.scopes
  generalize ctx.scopes = scopes, ctx'.scopes = scopes' at hscopes ⊢
  cases hscopes <;> simp

theorem isPending (h : ctx.Pads π ctx') (name : String) :
    ctx'.isPending name = ctx.isPending name := by
  have hscopes := h.scopes
  unfold Context.isPending
  generalize ctx.scopes = scopes, ctx'.scopes = scopes' at hscopes ⊢
  cases hscopes with
  | nil => rfl
  | shared => rfl
  | added hsettled _ => simpa using hsettled name

theorem declaresHere (h : ctx.Pads π ctx') (hπ : π.Declares) (name : String) :
    ctx'.declaresHere name = ctx.declaresHere name := by
  have hscopes := h.scopes
  unfold Context.declaresHere
  generalize ctx.scopes = scopes, ctx'.scopes = scopes' at hscopes ⊢
  cases hscopes with
  | nil => rfl
  | shared => rfl
  | added => exact hπ.elim

theorem duplicate (h : ctx.Pads π ctx') (hπ : π.Declares) (name : Token) :
    name.duplicate ctx' = name.duplicate ctx := by
  rw [Token.duplicate, h.declaresHere hπ, Token.duplicate]

theorem enter (h : ctx.Pads π ctx') : ctx.enter.Pads (.shared :: π) ctx'.enter :=
  ⟨.shared ∅ h.scopes, h.function, h.classContext⟩

theorem bind (h : ctx.Pads π ctx') (name : String) :
    (ctx.bind name).Pads (.shared :: π) (ctx'.bind name) :=
  ⟨.shared _ h.scopes, h.function, h.classContext⟩

theorem declare (h : ctx.Pads π ctx') (hπ : π.Declares) (name : String) :
    (ctx.declare name).Pads π (ctx'.declare name) := by
  obtain ⟨scopes, _, _⟩ := ctx
  obtain ⟨scopes', _, _⟩ := ctx'
  obtain ⟨hscopes, rfl, rfl⟩ := h
  cases hscopes with
  | @nil scopes => cases scopes <;> exact ⟨.nil, rfl, rfl⟩
  | shared scope hscopes => exact ⟨.shared _ hscopes, rfl, rfl⟩
  | added => exact hπ.elim

theorem define (h : ctx.Pads π ctx') (hπ : π.Declares) (name : String) :
    (ctx.define name).Pads π (ctx'.define name) := by
  obtain ⟨scopes, _, _⟩ := ctx
  obtain ⟨scopes', _, _⟩ := ctx'
  obtain ⟨hscopes, rfl, rfl⟩ := h
  cases hscopes with
  | @nil scopes => cases scopes <;> exact ⟨.nil, rfl, rfl⟩
  | shared scope hscopes => exact ⟨.shared _ hscopes, rfl, rfl⟩
  | added => exact hπ.elim

theorem body (h : ctx.Pads π ctx') (kind : FunctionContext) (params : List Token) :
    (ctx.body kind params).Pads (.shared :: π) (ctx'.body kind params) := by
  have hfold (inner inner' : Context) (hinner : inner.Pads (.shared :: π) inner') :
      (params.foldl (fun ctx p => ctx.define p.lexeme) inner).Pads (.shared :: π)
        (params.foldl (fun ctx p => ctx.define p.lexeme) inner') := by
    induction params generalizing inner inner' with
    | nil => exact hinner
    | cons p rest ih => exact ih _ _ (hinner.define trivial p.lexeme)
  exact hfold _ _ ⟨h.enter.scopes, rfl, h.classContext⟩

theorem methods (h : ctx.Pads π ctx') (parent : Option Reference) :
    (ctx.methods parent).Pads (.ofMethods parent π) (ctx'.methods parent) := by
  cases parent with
  | none => exact ⟨(h.bind "this").scopes, h.function, rfl⟩
  | some _ => exact ⟨((h.bind "parent").bind "this").scopes, h.function, rfl⟩

/-- Behind a statement and behind what it unfolds to the same names are declared. -/
theorem after {r : Layers → NodeId → Prop} {s s' : Stmt} (h : ctx.Pads π ctx')
    (hs : s.Unfolds r π s') : (ctx.after s).Pads π (ctx'.after s') := by
  unfold Context.after
  rw [hs.declared?]
  cases hs with
  | var hπ _ => exact h.define hπ _
  | function hπ _ => exact h.define hπ _
  | classDecl hπ _ _ => exact h.define hπ _
  | _ => exact h

theorem afterAll {r : Layers → NodeId → Prop} {ss ss' : List Stmt} (h : ctx.Pads π ctx')
    (hss : Stmt.AllUnfold r π ss ss') :
    (ss.foldl Context.after ctx).Pads π (ss'.foldl Context.after ctx') := by
  induction ss generalizing ss' ctx ctx' with
  | nil =>
    cases hss
    exact h
  | cons s rest ih =>
    obtain _ | ⟨hs, hrest⟩ := hss
    rw [List.foldl_cons, List.foldl_cons]
    exact ih (h.after hs) hrest

end Context.Pads

/-- No declaration is under way in the innermost scope, which is a local one. -/
def Context.Settled (ctx : Context) : Prop :=
  ∃ scope outer, ctx.scopes = scope :: outer ∧ ∀ name : String, scope[name]? ≠ some false

namespace Context.Settled

theorem enter (ctx : Context) : ctx.enter.Settled := ⟨∅, ctx.scopes, rfl, by simp⟩

theorem after {ctx : Context} (h : ctx.Settled) (s : Stmt) : (ctx.after s).Settled := by
  unfold Context.after
  cases s.declared? with
  | none => exact h
  | some name =>
    obtain ⟨scope, outer, hscopes, hsettled⟩ := h
    refine ⟨scope.insert name.lexeme true, outer, by simp [Context.define, hscopes], fun other => ?_⟩
    rw [Std.TreeMap.getElem?_insert]
    split
    · simp
    · exact hsettled other

theorem afterAll {ctx : Context} (h : ctx.Settled) (ss : List Stmt) :
    (ss.foldl Context.after ctx).Settled := by
  induction ss generalizing ctx with
  | nil => exact h
  | cons s rest ih => exact ih (h.after s)

/-- A scope is added. -/
theorem added {π : Layers} {ctx ctx' : Context} (h : ctx.Settled) (hctx : ctx.Pads π ctx') :
    ctx.Pads (.added :: π) ctx'.enter := by
  obtain ⟨scope, outer, hscopes, hsettled⟩ := h
  refine ⟨?_, hctx.function, hctx.classContext⟩
  have hpads := hctx.scopes
  rw [hscopes] at hpads ⊢
  exact .added hsettled hpads

end Context.Settled

/-- The finding without nodes, `φ` telling the scopes around each occurrence. -/
def Finding.shift (φ : NodeId → Layers) : Finding → Finding
  | .distance id d => .distance id ((φ id).lift d)
  | .fault token found => .fault token found

section
variable {φ : NodeId → Layers} {π : Layers} {ctx ctx' : Context}

theorem Reference.locate_shift {ref : Reference} (h : ctx.Pads π ctx') (href : φ ref.id = π) :
    ref.locate ctx' = (ref.locate ctx).map (.shift φ) := by
  unfold Reference.locate
  rw [h.distance?]
  cases ctx.distance? ref.name.lexeme with
  | none => rfl
  | some d => simp [Finding.shift, href]

theorem Reference.read_shift {ref : Reference} (h : ctx.Pads π ctx') (href : φ ref.id = π)
    (pending : Option String) : ref.read ctx' pending = (ref.read ctx pending).map (.shift φ) := by
  have houtermost := h.outermost_iff
  unfold Reference.read
  dsimp only
  rw [h.isPending, ref.locate_shift h href, List.map_append]
  congr 1
  cases hscopes : ctx.scopes <;> cases hscopes' : ctx'.scopes
  · dsimp only
    split <;> rfl
  · simp [hscopes, hscopes'] at houtermost
  · simp [hscopes, hscopes'] at houtermost
  · dsimp only
    split <;> rfl

mutual

/-- The same is found in an expression. -/
theorem Expr.findings_shift (h : ctx.Pads π ctx') (pending : Option String) :
    (e : Expr) → (∀ id ∈ e.ids, φ id = π) →
      e.findings ctx' pending = (e.findings ctx pending).map (.shift φ)
  | .literal _, _ => rfl
  | .unary _ operand, hids => operand.findings_shift h pending hids
  | .binary left _ right, hids => by
    rw [Expr.ids, List.forall_mem_append] at hids
    rw [Expr.findings, Expr.findings, left.findings_shift h pending hids.1,
      right.findings_shift h pending hids.2, List.map_append]
  | .logical left _ right, hids => by
    rw [Expr.ids, List.forall_mem_append] at hids
    rw [Expr.findings, Expr.findings, left.findings_shift h pending hids.1,
      right.findings_shift h pending hids.2, List.map_append]
  | .grouping inner, hids => inner.findings_shift h pending hids
  | .variable target, hids => target.read_shift h (hids _ List.mem_cons_self) pending
  | .assign target value, hids => by
    rw [Expr.ids, List.forall_mem_append] at hids
    rw [Expr.findings, Expr.findings, value.findings_shift h pending hids.1,
      target.locate_shift h (hids.2 _ List.mem_cons_self), List.map_append]
  | .call callee _ arguments, hids => by
    rw [Expr.ids, List.forall_mem_append] at hids
    rw [Expr.findings, Expr.findings, callee.findings_shift h pending hids.1,
      Expr.allFindings_shift h pending arguments hids.2, List.map_append]
  | .get object _, hids => object.findings_shift h pending hids
  | .set object _ value, hids => by
    rw [Expr.ids, List.forall_mem_append] at hids
    rw [Expr.findings, Expr.findings, value.findings_shift h pending hids.1,
      object.findings_shift h pending hids.2, List.map_append]
  | .this receiver, hids => by
    rw [Expr.findings, Expr.findings, h.classContext]
    split
    · rfl
    · exact receiver.locate_shift h (hids _ List.mem_cons_self)
  | .parent keyword _, hids => by
    rw [Expr.findings, Expr.findings, h.classContext,
      keyword.locate_shift h (hids _ List.mem_cons_self), List.map_append]
    congr 1
    split <;> rfl

theorem Expr.allFindings_shift (h : ctx.Pads π ctx') (pending : Option String) :
    (es : List Expr) → (∀ id ∈ Expr.allIds es, φ id = π) →
      Expr.allFindings ctx' pending es = (Expr.allFindings ctx pending es).map (.shift φ)
  | [], _ => rfl
  | e :: rest, hids => by
    rw [Expr.allIds, List.forall_mem_append] at hids
    rw [Expr.allFindings, Expr.allFindings, e.findings_shift h pending hids.1,
      Expr.allFindings_shift h pending rest hids.2, List.map_append]

end

/-- The same is found in an expression that may be missing. -/
theorem Expr.elim_findings_shift (h : ctx.Pads π ctx') (e : Option Expr)
    (hids : ∀ id ∈ Expr.allIds e.toList, φ id = π) :
    e.elim [] (·.findings ctx' none) = (e.elim [] (·.findings ctx none)).map (.shift φ) := by
  cases e with
  | none => rfl
  | some e => exact e.findings_shift h none (by simpa [Expr.allIds] using hids)

theorem parameterFindings_pads (h : ctx.Pads π ctx') (hπ : π.Declares) (params : List Token) :
    parameterFindings ctx' params = parameterFindings ctx params := by
  induction params generalizing ctx ctx' with
  | nil => rfl
  | cons p rest ih =>
    rw [parameterFindings, h.duplicate hπ, ih (h.define hπ p.lexeme), parameterFindings]

/-- A list of misuses is not changed. -/
theorem map_shift_of_located {fs : List Finding} (h : located fs = []) :
    fs.map (.shift φ) = fs := by
  induction fs with
  | nil => rfl
  | cons f rest ih =>
    cases f with
    | distance => cases h
    | fault => exact congrArg (_ :: ·) (ih h)

theorem parentFindings_shift {ref : Reference} (h : ctx.Pads π ctx') (href : φ ref.id = π)
    (name : Token) :
    parentFindings ctx' name ref = (parentFindings ctx name ref).map (.shift φ) := by
  unfold parentFindings
  rw [ref.read_shift h href, List.map_append]
  congr 1
  split <;> rfl

end

theorem Stmt.allFindings_append (ctx : Context) (ss us : List Stmt) :
    Stmt.allFindings ctx (ss ++ us) =
      Stmt.allFindings ctx ss ++ Stmt.allFindings (ss.foldl .after ctx) us := by
  induction ss generalizing ctx with
  | nil => rfl
  | cons s rest ih => simp [Stmt.allFindings, ih]

/-- What is found in the tree for a loop with three clauses, whose body declares nothing. -/
theorem Stmt.findings_counting (ctx : Context) (initial : Option Stmt)
    (condition step : Option Expr) {body : Stmt} (hbody : ∀ e ∈ step, body.declared? = none) :
    (Stmt.counting initial condition step body).findings ctx =
      let around := initial.toList.foldl .after ctx.enter
      let inner := match step with
        | some _ => around.enter
        | none => around
      Stmt.allFindings ctx.enter initial.toList ++ condition.elim [] (·.findings around none) ++
        body.findings inner ++ step.elim [] (·.findings inner none) := by
  have hafter (ctx : Context) (e : Expr) (he : e ∈ step) : ctx.after body = ctx := by
    simp [Context.after, hbody e he]
  unfold Stmt.counting
  rw [Stmt.findings, Stmt.allFindings_append]
  cases step with
  | none => cases condition <;> simp [Stmt.allFindings, Stmt.findings, Expr.findings]
  | some e => cases condition <;> simp [Stmt.allFindings, Stmt.findings, Expr.findings, hafter _ e rfl]

/-- The body of a loop with a last clause declares nothing. -/
theorem Stmt.Unfolds.declared?_of_added {r : Layers → NodeId → Prop} {π : Layers} {s s' : Stmt}
    (h : s.Unfolds r (.added :: π) s') : s'.declared? = none := by
  cases h with
  | var hπ _ => exact hπ.elim
  | function hπ _ => exact hπ.elim
  | classDecl hπ _ _ => exact hπ.elim
  | _ => rfl

section
variable {φ : NodeId → Layers}

mutual

/-- What is found in a statement with nodes is found in what it unfolds to. -/
theorem Stmt.Unfolds.findings_shift {π : Layers} {ctx ctx' : Context} {s s' : Stmt}
    (h : ctx.Pads π ctx') : s.Unfolds (fun π id => φ id = π) π s' →
      s'.findings ctx' = (Direct.findings ctx s).map (.shift φ)
  | .expression (e := e) he => by
    rw [Direct.findings_expression]
    exact e.findings_shift h none he
  | .print (e := e) he => by
    rw [Direct.findings_print]
    exact e.findings_shift h none he
  | .var (x := x) (e := none) hπ _ => by
    rw [Direct.findings_var, Stmt.findings, Stmt.findings, h.duplicate hπ,
      map_shift_of_located (located_duplicate _ _)]
  | .var (x := x) (e := some e) hπ he => by
    rw [Direct.findings_var, Stmt.findings, Stmt.findings, List.map_append, h.duplicate hπ,
      map_shift_of_located (located_duplicate _ _),
      e.findings_shift (h.declare hπ x.lexeme) _ (by simpa [Expr.allIds] using he)]
  | .block hss => by
    rw [Direct.findings_block, Stmt.findings]
    exact hss.findings_shift h.enter
  | .branch (e := e) he hs => by
    rw [Direct.findings_branch, Stmt.findings, List.map_append, e.findings_shift h none he,
      hs.findings_shift h]
  | .branchElse (e := e) he hs ho => by
    rw [Direct.findings_branchElse, Stmt.findings, List.map_append, List.map_append,
      e.findings_shift h none he, hs.findings_shift h, ho.findings_shift h]
  | .loop (e := e) hbody he hs => by
    rw [Direct.findings_loop ctx hbody, Stmt.findings, List.map_append, e.findings_shift h none he,
      hs.findings_shift h]
  | .counting (c := ⟨initial, condition, none, body⟩) hinitial hcondition hbody _ => by
    have haround := h.enter.afterAll hinitial
    rw [Direct.findings_node, Stmt.findings_counting _ _ _ _ (by simp)]
    simp only [List.map_append, Option.elim_none, List.map_nil]
    rw [hinitial.findings_shift h.enter, Expr.elim_findings_shift haround condition hcondition,
      hbody.findings_shift haround]
  | .counting (c := ⟨initial, condition, some e, body⟩) hinitial hcondition hbody hstep => by
    have haround := h.enter.afterAll hinitial
    -- the last clause comes with a scope around the body
    have hadded := ((Context.Settled.enter ctx).afterAll initial.toList).added haround
    rw [Direct.findings_node, Stmt.findings_counting _ _ _ _ fun _ _ => hbody.declared?_of_added]
    simp only [List.map_append, Option.elim_some]
    rw [hinitial.findings_shift h.enter, Expr.elim_findings_shift haround condition hcondition,
      hbody.findings_shift hadded, e.findings_shift hadded none (by simpa [Expr.allIds] using hstep)]
  | .function hπ hdecl => by
    rw [Direct.findings_function, Stmt.findings, List.map_append, hdecl.name, h.duplicate hπ,
      map_shift_of_located (located_duplicate _ _), hdecl.findings_shift (h.define hπ _)]
  | .giveBack (e := none) _ => by
    rw [Direct.findings_giveBack, Stmt.findings, Stmt.findings, h.function]
    split <;> rfl
  | .giveBack (e := some e) he => by
    have he : ∀ id ∈ e.ids, φ id = π := by simpa [Expr.allIds] using he
    rw [Direct.findings_giveBack, Stmt.findings, Stmt.findings, h.function]
    rw [e.findings_shift h none he]
    split <;> split <;> simp [Finding.shift]
  | @Stmt.Unfolds.classDecl _ _ x none _ _ hπ _ hmethods => by
    rw [Direct.findings_classDecl, Stmt.findings]
    simp only [List.map_append, List.map_nil]
    rw [h.duplicate hπ, map_shift_of_located (located_duplicate _ _),
      hmethods.findings_shift ((h.define hπ x.lexeme).methods none)]
  | @Stmt.Unfolds.classDecl _ _ x (some ref) _ _ hπ hparent hmethods => by
    rw [Direct.findings_classDecl, Stmt.findings]
    simp only [List.map_append]
    rw [h.duplicate hπ, map_shift_of_located (located_duplicate _ _),
      parentFindings_shift (h.define hπ x.lexeme) (hparent ref.id List.mem_cons_self),
      hmethods.findings_shift ((h.define hπ x.lexeme).methods (some ref))]

theorem Stmt.AllUnfold.findings_shift {π : Layers} {ctx ctx' : Context} {ss ss' : List Stmt}
    (h : ctx.Pads π ctx') : Stmt.AllUnfold (fun π id => φ id = π) π ss ss' →
      Stmt.allFindings ctx' ss' = (Direct.allFindings ctx ss).map (.shift φ)
  | .nil => by rw [Direct.allFindings]; rfl
  | .cons hs hrest => by
    rw [Direct.allFindings, Stmt.allFindings, List.map_append, hs.findings_shift h,
      hrest.findings_shift (h.after hs)]

theorem FunctionDecl.Unfolds.findings_shift {π : Layers} {ctx ctx' : Context}
    {kind : FunctionContext} {decl decl' : FunctionDecl} (h : ctx.Pads π ctx') :
    decl.Unfolds (fun π id => φ id = π) π decl' →
      decl'.findings ctx' kind = (Direct.functionFindings ctx kind decl).map (.shift φ)
  | .mk hbody => by
    rw [Direct.functionFindings, FunctionDecl.findings, List.map_append,
      hbody.findings_shift (h.body kind _), parameterFindings_pads h.enter trivial,
      map_shift_of_located (located_parameterFindings _ _)]

theorem FunctionDecl.AllUnfold.findings_shift {π : Layers} {ctx ctx' : Context}
    {decls decls' : List FunctionDecl} (h : ctx.Pads π ctx') :
    FunctionDecl.AllUnfold (fun π id => φ id = π) π decls decls' →
      FunctionDecl.methodFindings ctx' decls' = (Direct.methodFindings ctx decls).map (.shift φ)
  | .nil => by rw [Direct.methodFindings]; rfl
  | .cons hdecl hrest => by
    rw [Direct.methodFindings, FunctionDecl.methodFindings, List.map_append,
      hdecl.name, hdecl.findings_shift h, hrest.findings_shift h]

end

/-- The misuses are the same. -/
theorem misuses_map_shift (fs : List Finding) : misuses (fs.map (.shift φ)) = misuses fs := by
  unfold misuses
  rw [List.filterMap_map]
  congr 1
  funext f
  cases f <;> rfl

/-- What is recorded of every occurrence differs by the scopes that are added. -/
theorem Distances.record_shift {D D' : Distances} (h : ∀ id, D'[id]? = D[id]?.map (φ id).lift)
    (fs : List Finding) (id : NodeId) :
    (D'.record (fs.map (.shift φ)))[id]? = (D.record fs)[id]?.map (φ id).lift := by
  induction fs generalizing D D' with
  | nil => exact h id
  | cons f rest ih =>
    cases f with
    | fault => exact ih h
    | distance id' d =>
      refine @ih (D.insert id' d) (D'.insert id' ((φ id').lift d)) fun other => ?_
      rw [Std.TreeMap.getElem?_insert, Std.TreeMap.getElem?_insert, h other]
      by_cases heq : id' = other
      · subst heq
        simp
      · simp [heq]

end

end Treewalk
