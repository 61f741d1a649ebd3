import Mathlib
import Treewalk.Proofs.Grammar.Counting
import Treewalk.Proofs.Grammar.Parsing
import Treewalk.Proofs.Resolution.Enclosures
import Treewalk.Proofs.Resolution.Occurrences
import Treewalk.Proofs.Resolution.Origins

/-! Correctness of resolution. Nothing is wrong with a program exactly if it is well scoped, as its
text shows; and an occurrence of a name has a distance exactly if its name is in force in one of the
local scopes around it, the distance being the number of scopes inside the nearest such one. -/

namespace Treewalk

/-- `e'` is `e` or stands inside it. -/
inductive Expr.Contains (e : Expr) : Expr → Prop
  | self : Contains e e
  | inside {e' e''} : Contains e e' → e'' ∈ e'.children → Contains e e''

open Enclosure in
/-- The names of a program are used as they should be. -/
structure Program.WellScoped (program : Program) : Prop where
  returns {os keyword value} : Stands program os (.statement (.giveBack keyword value)) →
    innermostFunction? os ≠ none
  initializers {os keyword value name} :
    Stands program os (.statement (.giveBack keyword (some value))) →
    innermostFunction? os = some (true, name) → name.lexeme ≠ initializerName
  receivers {os ref} : Stands program os (.expression (.this ref)) → innermostClass? os ≠ none
  parents {os ref method} : Stands program os (.expression (.parent ref method)) →
    ∃ heritage, innermostClass? os = some (some heritage)
  blocks {os body} : Stands program os (.statement (.block body)) → (Stmt.names body).Nodup
  functions {os isMethod decl} : Stands program os (.function isMethod decl) →
    (decl.params.map (·.lexeme) ++ Stmt.names decl.body).Nodup
  initials {os name initial ref} : Stands program os (.statement (.var name (some initial))) →
    initial.Contains (.variable ref) → ref.name.lexeme ≠ name.lexeme
  heritages {os name ref methods} :
    Stands program os (.statement (.classDecl name (some ref) methods)) →
    ref.name.lexeme ≠ name.lexeme

/-- The occurrence `id` means a local name, and `d` scopes lie inside the nearest one where the name
is in force. -/
def Program.Binds (program : Program) (id : NodeId) (d : Nat) : Prop :=
  ∃ os e ref, Stands program os (.expression e) ∧ e.reference? = some ref ∧ ref.id = id ∧
    os.findIdx? (fun o => decide (ref.name.lexeme ∈ o.inForce)) = some d

theorem FunctionContext.within_eq_topLevel {f : Option (Bool × Token)} :
    within f = .topLevel ↔ f = none := by
  rcases f with _ | ⟨isMethod, name⟩
  · simp [within]
  · cases isMethod with
    | false => simp [within, ofFunction]
    | true =>
      simp only [within, ofFunction, ofMethod, if_true, reduceCtorEq, iff_false]
      split <;> simp

theorem FunctionContext.within_eq_initializer {f : Option (Bool × Token)} :
    within f = .initializer ↔ ∃ name, f = some (true, name) ∧ name.lexeme = initializerName := by
  rcases f with _ | ⟨isMethod, name⟩
  · simp [within]
  · cases isMethod <;> simp [within, ofFunction, ofMethod]

theorem Stmt.mem_names {ss : List Stmt} {name : String} :
    name ∈ names ss ↔ ∃ s ∈ ss, ∃ x, s.declared? = some x ∧ x.lexeme = name := by
  simp [names, List.mem_filterMap]

theorem Context.declaresHere_of_after {ctx : Context} {s : Stmt} {name : String}
    (h : (ctx.after s).declaresHere name) : ctx.declaresHere name ∨ name ∈ Stmt.names [s] := by
  unfold Context.after at h
  split at h
  · next x hx =>
    obtain ⟨-, rfl⟩ | h := Context.declaresHere_define.mp h
    · exact .inr (Stmt.mem_names_of_declared hx)
    · exact .inl h
  · exact .inl h

/-- Parameters are all right if no two have one name, and none is known before. -/
theorem parameterFindings_clean {ctx : Context} {params : List Token} (hctx : ctx.scopes ≠ []) :
    (∀ token fault, .fault token fault ∉ parameterFindings ctx params) ↔
      (params.map (·.lexeme)).Nodup ∧ ∀ p ∈ params, ctx.declaresHere p.lexeme = false := by
  induction params generalizing ctx with
  | nil => simp [parameterFindings]
  | cons p rest ih =>
    have hscopes : (ctx.define p.lexeme).scopes ≠ [] := by rwa [Ne, Context.scopes_define]
    have hdefine (q : Token) : (ctx.define p.lexeme).declaresHere q.lexeme = false ↔
        q.lexeme ≠ p.lexeme ∧ ctx.declaresHere q.lexeme = false := by
      rw [← Bool.not_eq_true, ← Bool.not_eq_true, Context.declaresHere_define, and_iff_right hctx,
        not_or, eq_comm (a := p.lexeme)]
    have hduplicate : (∀ token fault, Finding.fault token fault ∉ p.duplicate ctx) ↔
        ctx.declaresHere p.lexeme = false := by
      unfold Token.duplicate
      cases ctx.declaresHere p.lexeme <;> simp
    simp only [parameterFindings, List.mem_append, not_or, forall_and, hduplicate, ih hscopes,
      hdefine, List.map_cons, List.nodup_cons, List.forall_mem_cons, List.mem_map, not_exists,
      not_and]
    constructor
    · rintro ⟨hp, hnodup, hne, hrest⟩
      exact ⟨⟨hne, hnodup⟩, hp, hrest⟩
    · rintro ⟨⟨hne, hnodup⟩, hp, hrest⟩
      exact ⟨hp, hnodup, hne, hrest⟩

section
variable {program : Program} {D : Distances} {ctx : Context} {openings : List Opening}
  {ss : List Stmt} {name : String}

/-- Consecutive statements in a local scope of an accepted program declare different names, and none
that is known before them. -/
theorem Visits.distinct_names (h : Visits program (.statements ss) ctx openings)
    (hprogram : Resolved D (Stmt.allIds program) program.findings) (hctx : ctx.scopes ≠ []) :
    (Stmt.names ss).Nodup := by
  induction ss generalizing ctx with
  | nil => exact List.nodup_nil
  | cons s rest ih =>
    have hrest : (Stmt.names rest).Nodup := ih h.rest (by rwa [Ne, Context.scopes_after])
    rw [Stmt.names_cons, List.nodup_append]
    refine ⟨?_, hrest, ?_⟩
    · cases hs : s.declared? <;> simp [Stmt.names, hs]
    · intro x hx y hy
      obtain ⟨_, hmem, t, ht, rfl⟩ := Stmt.mem_names.mp hx
      obtain rfl := List.mem_singleton.mp hmem
      obtain ⟨s', hs', u, hu, rfl⟩ := Stmt.mem_names.mp hy
      have hhere := Context.declaresHere_after_declared hctx ht
      exact (h.rest.declared_ne hprogram hhere hs' hu).symm

/-- The parameters of a function of an accepted program and the names that its body declares are
different. -/
theorem Visits.distinct_parameters {kind : FunctionContext} {decl : FunctionDecl}
    (h : Visits program (.function kind decl) ctx openings)
    (hprogram : Resolved D (Stmt.allIds program) program.findings) :
    (decl.params.map (·.lexeme) ++ Stmt.names decl.body).Nodup := by
  have hresolved := (h.resolved hprogram).accepted
  obtain ⟨name, params, body⟩ := decl
  have hparams : (params.map (·.lexeme)).Nodup := by
    have henter : ctx.enter.scopes ≠ [] := List.cons_ne_nil _ _
    refine ((parameterFindings_clean henter).mp ?_).1
    intro token fault hmem
    exact hresolved token fault (List.mem_append_left _ hmem)
  refine List.nodup_append.mpr
    ⟨hparams, h.body.distinct_names hprogram (Context.body_scopes_ne_nil _ _), ?_⟩
  intro x hx y hy
  obtain ⟨p, hp, rfl⟩ := List.mem_map.mp hx
  obtain ⟨s, hs, u, hu, rfl⟩ := Stmt.mem_names.mp hy
  exact (h.body.declared_ne hprogram (Context.declaresHere_body hp) hs hu).symm

/-- The initial value of a variable does not read it. -/
theorem Visits.ownInitializer {underway : Option String} {ref : Reference}
    (h : Visits program (.expression underway (.variable ref)) ctx openings)
    (hprogram : Resolved D (Stmt.allIds program) program.findings) :
    underway ≠ some ref.name.lexeme := by
  rintro rfl
  obtain hscope | ⟨_, heq, hne⟩ := h.incomplete hprogram
  · refine (h.resolved hprogram).accepted ref.name .ownInitializer (List.mem_append_left _ ?_)
    cases hscopes : ctx.scopes with
    | nil => simp
    | cons scope outer => simp [Context.isPending, hscopes, hscope scope (by rw [hscopes]; rfl)]
  · cases heq
    exact hne rfl

theorem Expr.Contains.visited {underway : Option String} {e e' : Expr} (h : e.Contains e')
    (hvisits : Visits program (.expression underway e) ctx openings) :
    Visits program (.expression underway e') ctx openings := by
  induction h with
  | self => exact hvisits
  | inside _ he ih => exact ih.inside he

/-- An accepted program is well scoped. -/
theorem Program.wellScoped_of_resolved {N : Token → Prop}
    (hprogram : Resolved D (Stmt.allIds program) program.findings)
    (hspelled : Stmt.AllSpelled N program) : program.WellScoped where
  returns {os keyword value} hstands hnone := by
    obtain ⟨ctx, openings, hvisits, hagrees⟩ := hstands.visited hspelled
    have hclean := (hvisits.resolved hprogram).accepted keyword .topLevelReturn
    have hfunction : ctx.function = .topLevel := by
      have hagree := hagrees.function
      rwa [hnone] at hagree
    refine hclean ?_
    rw [Node.findings]
    unfold Stmt.findings
    rw [if_pos hfunction]
    exact List.mem_append_left _ List.mem_cons_self
  initializers {os keyword value name} hstands hsome heq := by
    obtain ⟨ctx, openings, hvisits, hagrees⟩ := hstands.visited hspelled
    have hclean := (hvisits.resolved hprogram).accepted keyword .initializerReturn
    have hfunction : ctx.function = .initializer := by
      have hagree := hagrees.function
      rw [hsome] at hagree
      exact hagree.trans (if_pos heq)
    refine hclean ?_
    rw [Node.findings]
    unfold Stmt.findings
    rw [if_pos hfunction]
    exact List.mem_append_right _ (List.mem_append_left _ List.mem_cons_self)
  receivers {os ref} hstands hnone := by
    obtain ⟨underway, ctx, openings, hvisits, hagrees⟩ := hstands.visited hspelled
    have hclean := (hvisits.resolved hprogram).accepted ref.name .thisOutsideClass
    have hclass := hagrees.classContext
    rw [hnone] at hclass
    refine hclean ?_
    rw [Node.findings, Expr.findings, hclass]
    exact List.mem_cons_self
  parents {os ref method} hstands := by
    obtain ⟨underway, ctx, openings, hvisits, hagrees⟩ := hstands.visited hspelled
    have hclean := (hvisits.resolved hprogram).accepted ref.name
    have hclass := hagrees.classContext
    rw [Node.findings, Expr.findings, hclass] at hclean
    cases hinnermost : Enclosure.innermostClass? os with
    | none =>
      rw [hinnermost] at hclean
      exact absurd List.mem_cons_self (hclean .parentOutsideClass)
    | some heritage =>
      cases heritage with
      | none =>
        rw [hinnermost] at hclean
        exact absurd List.mem_cons_self (hclean .parentWithoutParent)
      | some heritage => exact ⟨heritage, rfl⟩
  blocks hstands := by
    obtain ⟨ctx, openings, hvisits, -⟩ := hstands.visited hspelled
    exact hvisits.block.distinct_names hprogram (List.cons_ne_nil _ _)
  functions hstands := by
    obtain ⟨ctx, openings, hvisits, -⟩ := hstands.visited hspelled
    exact hvisits.distinct_parameters hprogram
  initials hstands hcontains heq := by
    obtain ⟨ctx, openings, hvisits, -⟩ := hstands.visited hspelled
    exact (hcontains.visited hvisits.initial).ownInitializer hprogram (congrArg some heq.symm)
  heritages hstands := by
    obtain ⟨ctx, openings, hvisits, -⟩ := hstands.visited hspelled
    exact (hvisits.resolved hprogram).parentClass.heritage.1

/-- An occurrence of a name in an accepted program has the distance of the name. -/
theorem Visits.distance_of_reference {underway : Option String} {e : Expr} {ref : Reference}
    (h : Visits program (.expression underway e) ctx openings)
    (hprogram : Resolved D (Stmt.allIds program) program.findings)
    (hspelled : Stmt.AllSpelled Token.IsName program) (href : e.reference? = some ref) :
    D[ref.id]? = ctx.distance? ref.name.lexeme := by
  cases e with
  | «variable» target =>
    cases href
    exact (h.read hprogram).1
  | assign target value =>
    cases href
    exact h.assigned hprogram
  | this receiver =>
    cases href
    obtain ⟨hname, d, hd, hdistance⟩ := h.this hprogram hspelled
    rw [hd, hname, hdistance]
  | parent keyword method =>
    cases href
    obtain ⟨hname, k, _, hd, hdistance, -⟩ := h.parent hprogram hspelled
    rw [hd, hname, hdistance]
  | _ => cases href

/-- Where resolution comes to, the names to be declared are new. -/
def Node.Distinct (ctx : Context) : Node → Prop
  | statement s => ∀ x, s.declared? = some x → ctx.declaresHere x.lexeme = false
  | statements ss => ctx.scopes = [] ∨
    (Stmt.names ss).Nodup ∧ ∀ name ∈ Stmt.names ss, ctx.declaresHere name = false
  | _ => True

/-- In a well-scoped program every name that is declared in a local scope is new there. -/
theorem Visits.distinct {N : Token → Prop} {node : Node} (h : Visits program node ctx openings)
    (hspelled : Stmt.AllSpelled N program) (hscoped : program.WellScoped) : node.Distinct ctx := by
  induction h with
  | program => exact .inl rfl
  | @first s rest ctx _ _ ih =>
    intro x hx
    obtain hctx | ⟨-, hnew⟩ := ih
    · rw [Context.declaresHere, hctx]
    · exact hnew _ (Stmt.mem_names.mpr ⟨s, List.mem_cons_self, x, hx, rfl⟩)
  | @rest s rest ctx _ _ ih =>
    obtain hctx | ⟨hnodup, hnew⟩ := ih
    · exact .inl ((Context.scopes_after s).mpr hctx)
    · rw [Stmt.names_cons] at hnodup hnew
      obtain ⟨-, hrest, hdisjoint⟩ := List.nodup_append.mp hnodup
      refine .inr ⟨hrest, fun name hname => eq_false_of_ne_true fun hhere => ?_⟩
      obtain hbefore | hs := Context.declaresHere_of_after hhere
      · rw [hnew name (List.mem_append_right _ hname)] at hbefore
        cases hbefore
      · exact hdisjoint name hs name hname rfl
  | block h ih =>
    obtain ⟨os, hstands, -⟩ := h.placed hspelled
    exact .inr ⟨hscoped.blocks hstands, by simp [Context.declaresHere, Context.enter]⟩
  | whenTrue h =>
    intro x hx
    cases (h.spelled hspelled).whenTrue.symm.trans hx
  | whenFalse h =>
    intro x hx
    cases (h.spelled hspelled).2.2.2.symm.trans hx
  | loopBody h =>
    intro x hx
    cases (h.spelled hspelled).2.2.symm.trans hx
  | @body kind decl ctx _ h ih =>
    obtain ⟨os, isMethod, hstands, -⟩ := h.placed hspelled
    obtain ⟨-, hnodup, hdisjoint⟩ := List.nodup_append.mp (hscoped.functions hstands)
    refine .inr ⟨hnodup, fun name hname => eq_false_of_ne_true fun hhere => ?_⟩
    obtain ⟨scope, hbody, hscope⟩ := ctx.body_eq_cons kind decl.params
    rw [hbody] at hhere
    exact hdisjoint name ((hscope name).mp hhere) name hname rfl
  | _ => trivial

/-- A name that is under way is that of a variable whose initial value is read, or that of a class
whose parent is read. -/
theorem Visits.underway {N : Token → Prop} {e : Expr}
    (h : Visits program (.expression (some name) e) ctx openings)
    (hspelled : Stmt.AllSpelled N program) :
    (∃ os x initial, Stands program os (.statement (.var x (some initial))) ∧ x.lexeme = name ∧
      initial.Contains e ∧ ctx.Agrees os openings) ∨
    ∃ os x ref methods, Stands program os (.statement (.classDecl x (some ref) methods)) ∧
      x.lexeme = name ∧ e = .variable ref := by
  generalize hnode : Node.expression (some name) e = node at h
  induction h generalizing name e with
  | initial h ih =>
    cases hnode
    obtain ⟨os, hstands, hagrees⟩ := h.placed hspelled
    exact .inl ⟨os, _, _, hstands, rfl, .self, Context.Agrees.declare hagrees⟩
  | heritage h ih =>
    cases hnode
    obtain ⟨os, hstands, -⟩ := h.placed hspelled
    exact .inr ⟨os, _, _, _, hstands, rfl, rfl⟩
  | inside _ he ih =>
    cases hnode
    obtain ⟨os, x, initial, hstands, hx, hcontains, hagrees⟩ | ⟨_, _, _, _, _, _, rfl⟩ := ih rfl
    · exact .inl ⟨os, x, initial, hstands, hx, hcontains.inside he, hagrees⟩
    · cases he
  | _ => cases hnode

/-- A name that is read wrongly is under way. -/
theorem Reference.underway_of_fault {underway : Option String} {ref : Reference} {token : Token}
    {fault : ResolveFault} (hregular : ctx.Regular underway)
    (h : .fault token fault ∈ ref.read ctx underway) : underway = some ref.name.lexeme := by
  unfold Reference.read at h
  obtain h | h := List.mem_append.mp h
  · cases hscopes : ctx.scopes with
    | nil =>
      simp only [hscopes, List.mem_ite_nil_right, beq_iff_eq] at h
      exact h.1
    | cons scope outer =>
      simp only [hscopes, Context.isPending, List.mem_ite_nil_right, beq_iff_eq] at h
      exact hregular.pending scope (by rw [hscopes]; rfl) _ h.1
  · obtain ⟨d, -, heq⟩ := Reference.mem_locate.mp h
    cases heq

theorem Reference.fault_notMem_locate {ref : Reference} {token : Token} {fault : ResolveFault} :
    .fault token fault ∉ ref.locate ctx := by
  intro h
  obtain ⟨d, -, heq⟩ := Reference.mem_locate.mp h
  cases heq

section
variable {token : Token} {fault : ResolveFault}

/-- Nothing is wrong at an expression of a well-scoped program. -/
theorem Visits.clean_expression {underway : Option String} {e : Expr}
    (h : Visits program (.expression underway e) ctx openings)
    (hspelled : Stmt.AllSpelled Token.IsName program) (hscoped : program.WellScoped) :
    .fault token fault ∉ e.ownFindings ctx underway := by
  intro hfault
  obtain ⟨os, hstands, hagrees⟩ := h.placed hspelled
  have hclass := hagrees.classContext
  cases e with
  | «variable» ref =>
    obtain rfl := Reference.underway_of_fault (h.regular hspelled) hfault
    obtain ⟨_, _, _, hstands, hx, hcontains, -⟩ | ⟨_, _, _, _, hstands, hx, heq⟩ :=
      h.underway hspelled
    · exact hscoped.initials hstands hcontains hx.symm
    · cases heq
      exact hscoped.heritages hstands hx.symm
  | assign ref value => exact Reference.fault_notMem_locate hfault
  | this ref =>
    rw [Expr.ownFindings, Expr.findings] at hfault
    cases hinnermost : Enclosure.innermostClass? os with
    | none => exact hscoped.receivers hstands hinnermost
    | some heritage =>
      rw [hclass, hinnermost] at hfault
      cases heritage <;> exact Reference.fault_notMem_locate hfault
  | parent ref method =>
    obtain ⟨heritage, hinnermost⟩ := hscoped.parents hstands
    rw [Expr.ownFindings, Expr.findings, hclass, hinnermost] at hfault
    exact Reference.fault_notMem_locate hfault
  | _ => cases hfault

/-- Nothing is wrong at a statement of a well-scoped program. -/
theorem Visits.clean_statement {N : Token → Prop} {s : Stmt}
    (h : Visits program (.statement s) ctx openings)
    (hspelled : Stmt.AllSpelled N program) (hscoped : program.WellScoped) :
    .fault token fault ∉ s.ownFindings ctx := by
  intro hfault
  obtain ⟨os, hstands, hagrees⟩ := h.placed hspelled
  have hnew := h.distinct hspelled hscoped
  have hduplicate (x : Token) (hx : s.declared? = some x) : x.duplicate ctx = [] := by
    rw [Token.duplicate, hnew x hx]
    rfl
  cases s with
  | var x initial | function x =>
    rw [Stmt.ownFindings, hduplicate _ rfl] at hfault
    cases hfault
  | giveBack keyword value =>
    have hfunction : ctx.function = .within (Enclosure.innermostFunction? os) := hagrees.function
    obtain hfault | hfault := List.mem_append.mp hfault
    · obtain ⟨htop, -⟩ := List.mem_ite_nil_right.mp hfault
      exact hscoped.returns hstands (FunctionContext.within_eq_topLevel.mp (hfunction ▸ htop))
    · obtain ⟨⟨hvalue, hinitializer⟩, -⟩ := List.mem_ite_nil_right.mp hfault
      obtain ⟨value, rfl⟩ := Option.isSome_iff_exists.mp hvalue
      obtain ⟨name, hinnermost, hname⟩ :=
        FunctionContext.within_eq_initializer.mp (hfunction ▸ hinitializer)
      exact hscoped.initializers hstands hinnermost hname
  | classDecl x parent methods =>
    obtain hfault | hfault := List.mem_append.mp hfault
    · rw [hduplicate x rfl] at hfault
      cases hfault
    · cases parent with
      | none => cases hfault
      | some ref => exact hscoped.heritages hstands (List.mem_ite_nil_right.mp hfault).1
  | _ => cases hfault

/-- Nothing is wrong with a well-scoped program. -/
theorem Program.clean_of_wellScoped (hspelled : Stmt.AllSpelled Token.IsName program)
    (hscoped : program.WellScoped) : .fault token fault ∉ program.findings := by
  intro hmem
  obtain ⟨node, ctx, openings, hvisits, hfault⟩ := Program.madeIn hmem
  cases node with
  | expression underway e => exact hvisits.clean_expression hspelled hscoped hfault
  | statement s => exact hvisits.clean_statement hspelled hscoped hfault
  | statements ss => cases hfault
  | function kind decl =>
    obtain ⟨os, isMethod, hstands, -⟩ := hvisits.placed hspelled
    have hparams := (List.nodup_append.mp (hscoped.functions hstands)).1
    have henter : ctx.enter.scopes ≠ [] := List.cons_ne_nil _ _
    refine (parameterFindings_clean henter).mpr ?_ _ _ hfault
    exact ⟨hparams, by simp [Context.declaresHere, Context.enter]⟩

end

end

/-- The distances of a program on its own are those that were found. -/
theorem Program.record_eq_some {program : Program} {first last : NodeId}
    (hfresh : Fresh (Stmt.allIds program) first last) {id : NodeId} {d : Nat} :
    (Distances.record ∅ program.findings)[id]? = some d ↔ .distance id d ∈ program.findings := by
  have hlocated : (located program.findings).Sublist (Stmt.allIds program) :=
    Stmt.located_allFindings _ program
  rw [Distances.record_eq_some (hlocated.nodup hfresh.nodup)]
  simp

theorem Program.resolved_record {program : Program} {first last : NodeId}
    (hfresh : Fresh (Stmt.allIds program) first last) (haccepted : misuses program.findings = []) :
    Resolved (Distances.record ∅ program.findings) (Stmt.allIds program) program.findings where
  nodup := hfresh.nodup
  recorded _ _ _ := Program.record_eq_some hfresh
  accepted _ _ := misuses_eq_nil_iff.mp haccepted _ _

/-- A distance is found only where the name of an occurrence is in force. -/
theorem Program.binds_of_distance {N : Token → Prop} {program : Program} {id : NodeId} {d : Nat}
    (hspelled : Stmt.AllSpelled N program) (h : .distance id d ∈ program.findings) :
    program.Binds id d := by
  obtain ⟨node, ctx, openings, hvisits, hown⟩ := Program.madeIn h
  obtain ⟨underway, e, ref, rfl, href, hid, hd⟩ := Node.ownFindings_distance hown
  obtain ⟨os, hstands, hagrees⟩ := hvisits.placed hspelled
  exact ⟨os, e, ref, hstands, href, hid, hagrees.distance? _ ▸ hd⟩

/-- Resolution accepts exactly the well-scoped programs among those that can be read, and then gives
an occurrence of a name a distance exactly if its name is in force in a local scope around it: the
number of scopes inside the nearest such one. -/
theorem Program.resolution_correct {source : String} {first : NodeId} {program : Program}
    (hfaults : (parse (Source.tokens source) (Source.endMark source) first).faults = [])
    (hprogram : (parse (Source.tokens source) (Source.endMark source) first).program = program) :
    (misuses program.findings = [] ↔ program.WellScoped) ∧
      (misuses program.findings = [] → ∀ id d,
        (Distances.record ∅ program.findings)[id]? = some d ↔ program.Binds id d) := by
  subst hprogram
  have hread := reads_of_parse hfaults
  have hspelled := hread.spelled_names
  have hresolved (h : misuses (Program.findings _) = []) := Program.resolved_record hread.numbered h
  refine ⟨⟨fun h => Program.wellScoped_of_resolved (hresolved h) hspelled, fun h => ?_⟩, ?_⟩
  · exact misuses_eq_nil_iff.mpr fun _ _ => Program.clean_of_wellScoped hspelled h
  · intro h id d
    constructor
    · intro hd
      exact Program.binds_of_distance hspelled ((Program.record_eq_some hread.numbered).mp hd)
    · rintro ⟨os, e, ref, hstands, href, rfl, hd⟩
      obtain ⟨underway, ctx, openings, hvisits, hagrees⟩ := hstands.visited hspelled
      rw [hvisits.distance_of_reference (hresolved h) hspelled href, hagrees.distance?, hd]

/-- The parameter of a function is one scope away from the block in its body. -/
theorem Program.resolution_correct_block :
    let source := "func f(a) \x7b \x7b print a; \x7d \x7d"
    let name (text : String) : Token := ⟨.identifier, text, 1⟩
    let program : Program :=
      [.function ⟨name "f", [name "a"], [.block [.print (.variable ⟨0, name "a"⟩)]]⟩]
    (parse (Source.tokens source) (Source.endMark source) 0).program = program ∧
      program.WellScoped ∧ program.Binds 0 1 := by
  intro source name program
  have hparse : parse (Source.tokens source) (Source.endMark source) 0 = ⟨program, [], 1⟩ := by cbv
  have hfaults := congrArg (·.faults) hparse
  have hprogram := congrArg (·.program) hparse
  have hclean : misuses program.findings = [] := by cbv
  obtain ⟨haccepted, hdistances⟩ := Program.resolution_correct hfaults hprogram
  exact ⟨hprogram, haccepted.mp hclean, (hdistances hclean 0 1).mp (by cbv)⟩

end Treewalk
