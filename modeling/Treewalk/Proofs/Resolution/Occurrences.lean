import Treewalk.Proofs.Resolution.Sites

/-! Occurrences in an accepted program. The distance of an occurrence is the one of its name, `this`
and `parent` have a distance wherever they stand, no name is read while it is under way, and no scope
but the global one declares a name twice. -/

namespace Treewalk

namespace Context

variable {ctx : Context} {underway : Option String} {name : String} {d : Nat}

/-- The scope at the distance of a name declares it. -/
theorem scope_of_distance? (h : ctx.distance? name = some d) :
    ∃ scope, ctx.scopes[d]? = some scope ∧ scope.contains name := by
  obtain ⟨hlt, hname, -⟩ := List.findIdx?_eq_some_iff_getElem.mp h
  exact ⟨ctx.scopes[d], List.getElem?_eq_getElem hlt, hname⟩

theorem Declares.distance? (h : ctx.Declares name) : ∃ d, ctx.distance? name = some d := by
  obtain ⟨scope, hscope, hname⟩ := h
  cases hd : ctx.distance? name with
  | some d => exact ⟨d, rfl⟩
  | none =>
    have hno := List.findIdx?_eq_none_iff.mp hd scope hscope
    rw [hname] at hno
    cases hno

/-- The scope directly inside the nearest one for `parent` is there for `this`. -/
theorem Regular.this_inside (h : ctx.Regular underway) (hd : ctx.distance? "parent" = some d) :
    ∃ k scope, d = k + 1 ∧ ctx.scopes[k]? = some scope ∧ scope.contains "this" := by
  obtain ⟨outer, houter, hparent⟩ := scope_of_distance? hd
  cases d with
  | zero =>
    refine absurd hparent (h.innermost outer ?_)
    rwa [List.head?_eq_getElem?]
  | succ k =>
    obtain ⟨hlt, rfl⟩ := List.getElem?_eq_some_iff.mp houter
    have hk : k < ctx.scopes.length := Nat.lt_of_succ_lt hlt
    refine ⟨k, ctx.scopes[k], rfl, List.getElem?_eq_getElem hk, ?_⟩
    exact List.isChain_iff_getElem.mp h.paired k hlt hparent

theorem declaresHere_define {n m : String} :
    (ctx.define n).declaresHere m ↔ ctx.scopes ≠ [] ∧ n = m ∨ ctx.declaresHere m := by
  obtain ⟨scopes, kind, classContext⟩ := ctx
  cases scopes <;> simp [define, declaresHere]

theorem declaresHere_after {s : Stmt} {m : String} (h : ctx.declaresHere m) :
    (ctx.after s).declaresHere m := by
  unfold after
  split
  · exact declaresHere_define.mpr (.inr h)
  · exact h

theorem declaresHere_after_declared {s : Stmt} {x : Token} (hscopes : ctx.scopes ≠ [])
    (hx : s.declared? = some x) : (ctx.after s).declaresHere x.lexeme := by
  unfold after
  rw [hx]
  exact declaresHere_define.mpr (.inl ⟨hscopes, rfl⟩)

theorem scopes_define (n : String) : (ctx.define n).scopes = [] ↔ ctx.scopes = [] := by
  obtain ⟨scopes, kind, classContext⟩ := ctx
  cases scopes <;> simp [define]

theorem scopes_after (s : Stmt) : (ctx.after s).scopes = [] ↔ ctx.scopes = [] := by
  unfold after
  split
  · exact scopes_define _
  · rfl

theorem body_scopes_ne_nil (kind : FunctionContext) (params : List Token) :
    (ctx.body kind params).scopes ≠ [] := by
  have hscopes : ({ ctx.enter with function := kind } : Context).scopes ≠ [] := by
    simp [Context.enter]
  unfold body
  generalize { ctx.enter with function := kind } = inner at hscopes
  induction params generalizing inner with
  | nil => exact hscopes
  | cons p rest ih => exact ih _ (by rwa [Ne, scopes_define])

/-- A function's body sees its parameters. -/
theorem declaresHere_body {kind : FunctionContext} {params : List Token} {p : Token}
    (hp : p ∈ params) : (ctx.body kind params).declaresHere p.lexeme := by
  have hlater (params : List Token) (inner : Context) (h : inner.declaresHere p.lexeme) :
      (params.foldl (fun ctx p => ctx.define p.lexeme) inner).declaresHere p.lexeme := by
    induction params generalizing inner with
    | nil => exact h
    | cons q rest ih => exact ih _ (declaresHere_define.mpr (.inr h))
  unfold body
  have hscopes : ({ ctx.enter with function := kind } : Context).scopes ≠ [] := by
    simp [Context.enter]
  generalize { ctx.enter with function := kind } = inner at hscopes
  induction params generalizing inner with
  | nil => cases hp
  | cons q rest ih =>
    obtain rfl | hp := List.mem_cons.mp hp
    · exact hlater rest _ (declaresHere_define.mpr (.inl ⟨hscopes, rfl⟩))
    · exact ih hp _ (by rwa [Ne, scopes_define])

end Context

namespace Resolved

variable {D : Distances} {ctx : Context} {pending : Option String} {ref : Reference}

/-- The distance of an occurrence is that of its name. -/
theorem distance (h : Resolved D [ref.id] (ref.locate ctx)) :
    D[ref.id]? = ctx.distance? ref.name.lexeme := by
  have hrecorded (d : Nat) := h.recorded ref.id (List.mem_singleton.mpr rfl) d
  unfold Reference.locate at hrecorded
  cases hd : ctx.distance? ref.name.lexeme with
  | some d => exact (hrecorded d).mpr (by simp [hd])
  | none =>
    rw [Option.eq_none_iff_forall_ne_some]
    intro d
    simp [hrecorded d, hd]

/-- An occurrence that is read is not one of a name under way. -/
theorem of_read (h : Resolved D [ref.id] (ref.read ctx pending)) :
    ctx.isPending ref.name.lexeme = false ∧ D[ref.id]? = ctx.distance? ref.name.lexeme := by
  unfold Reference.read at h
  obtain ⟨hown, hlocate⟩ := h.of_fault
  refine ⟨?_, hlocate.distance⟩
  cases hscopes : ctx.scopes with
  | nil => simp [Context.isPending, hscopes]
  | cons => simpa [hscopes] using hown

end Resolved

namespace Visits

variable {program : Program} {D : Distances} {ctx : Context} {os : List Opening}
  {underway : Option String} {ref : Reference} {method : Token} {e : Expr} {name : String}
  {s : Stmt} {ss : List Stmt} {x : Token}

/-- The innermost scope does not know a name that a statement adds to it. -/
theorem undeclared (h : Visits program (.statement s) ctx os)
    (hprogram : Resolved D (Stmt.allIds program) program.findings) (hx : s.declared? = some x) :
    ctx.declaresHere x.lexeme = false := by
  have hresolved := h.resolved hprogram
  suffices hduplicate : ∃ fs, s.findings ctx = x.duplicate ctx ++ fs by
    obtain ⟨fs, hfs⟩ := hduplicate
    rw [Node.findings, hfs] at hresolved
    exact eq_false_of_ne_true hresolved.of_fault.1
  cases s with
  | var y initial =>
    cases hx
    cases initial with
    | none => exact ⟨[], by rw [Stmt.findings, List.append_nil]⟩
    | some e => exact ⟨_, by rw [Stmt.findings]⟩
  | function decl =>
    cases hx
    exact ⟨_, by rw [Stmt.findings]⟩
  | classDecl y parent methods =>
    cases hx
    unfold Stmt.findings
    exact ⟨_, List.append_assoc _ _ _⟩
  | _ => cases hx

/-- Nothing adds a name that the innermost scope knows. -/
theorem declared_ne (h : Visits program (.statements ss) ctx os)
    (hprogram : Resolved D (Stmt.allIds program) program.findings) (hname : ctx.declaresHere name)
    (hs : s ∈ ss) (hx : s.declared? = some x) : x.lexeme ≠ name := by
  induction ss generalizing ctx with
  | nil => cases hs
  | cons s' rest ih =>
    obtain rfl | hs := List.mem_cons.mp hs
    · rintro rfl
      rw [h.first.undeclared hprogram hx] at hname
      cases hname
    · exact ih h.rest (Context.declaresHere_after hname) hs

/-- Where statements declare a variable in a local scope, they declare its name only once. -/
theorem declared_once {y : Token} {initial : Option Expr} (h : Visits program (.statements ss) ctx os)
    (hprogram : Resolved D (Stmt.allIds program) program.findings) (hscopes : ctx.scopes ≠ [])
    (hy : Stmt.var y initial ∈ ss) (hs : s ∈ ss) (hx : s.declared? = some x)
    (hname : x.lexeme = y.lexeme) : s = .var y initial := by
  induction ss generalizing ctx with
  | nil => cases hs
  | cons s' rest ih =>
    obtain rfl | hlater := List.mem_cons.mp hy
    · obtain rfl | hs := List.mem_cons.mp hs
      · rfl
      · have hhere := Context.declaresHere_after_declared (s := .var y initial) hscopes rfl
        exact absurd hname (h.rest.declared_ne hprogram hhere hs hx)
    · obtain rfl | hs := List.mem_cons.mp hs
      · have hhere := Context.declaresHere_after_declared hscopes hx
        have hne : (Stmt.var y initial).declared? = some y → y.lexeme ≠ x.lexeme :=
          h.rest.declared_ne hprogram hhere hlater
        exact absurd hname.symm (hne rfl)
      · refine ih h.rest ?_ hlater hs
        rwa [Ne, Context.scopes_after]

/-- A name under way stands incomplete in the innermost scope, or else it is that of a class whose
parent is read. -/
theorem incomplete (h : Visits program (.expression (some name) e) ctx os)
    (hprogram : Resolved D (Stmt.allIds program) program.findings) :
    (∀ scope ∈ ctx.scopes.head?, scope[name]? = some false) ∨
      ∃ ref, e = .variable ref ∧ ref.name.lexeme ≠ name := by
  generalize hnode : Node.expression (some name) e = node at h
  induction h generalizing name e with
  | @initial x e' ctx os h ih =>
    cases hnode
    left
    have hnew := h.undeclared hprogram rfl
    obtain ⟨scopes, kind, classContext⟩ := ctx
    cases scopes with
    | nil => rintro _ ⟨⟩
    | cons scope outer =>
      rintro _ ⟨⟩
      have hnot : x.lexeme ∉ scope := by
        rw [← Std.TreeMap.contains_iff_mem]
        exact ne_true_of_eq_false hnew
      rw [Std.TreeMap.getElem?_insertIfNew, if_pos ⟨by simp, hnot⟩]
  | @heritage x ref methods ctx os h ih =>
    cases hnode
    right
    exact ⟨ref, rfl, (h.resolved hprogram).parentClass.heritage.1⟩
  | inside _ he ih =>
    cases hnode
    obtain hscope | ⟨ref, rfl, -⟩ := ih rfl
    · exact .inl hscope
    · cases he
  | _ => cases hnode

/-- The name of a declaration is neither of the two that classes bind. -/
theorem ordinary (h : Visits program (.expression (some name) e) ctx os)
    (hprogram : Stmt.AllSpelled Token.IsName program) : name ≠ "this" ∧ name ≠ "parent" := by
  generalize hnode : Node.expression (some name) e = node at h
  induction h generalizing name e with
  | initial h ih =>
    cases hnode
    have hname := (h.spelled hprogram).1
    exact ⟨hname.ne_this, hname.ne_parent⟩
  | heritage h ih =>
    cases hnode
    have hname := (h.spelled hprogram).1
    exact ⟨hname.ne_this, hname.ne_parent⟩
  | inside _ _ ih =>
    cases hnode
    exact ih rfl
  | _ => cases hnode

/-- A variable that is read has the distance of its name, and its name is not under way in the
innermost scope. -/
theorem read (h : Visits program (.expression underway (.variable ref)) ctx os)
    (hprogram : Resolved D (Stmt.allIds program) program.findings) :
    D[ref.id]? = ctx.distance? ref.name.lexeme ∧
      ∀ d, ctx.distance? ref.name.lexeme = some d → d ≠ 0 ∨ underway ≠ some ref.name.lexeme := by
  have hresolved := h.resolved hprogram
  rw [Node.ids, Node.findings, Expr.ids, Expr.findings] at hresolved
  obtain ⟨hpending, hdistance⟩ := hresolved.of_read
  refine ⟨hdistance, fun d hd => ?_⟩
  by_contra hboth
  obtain ⟨rfl, rfl⟩ : d = 0 ∧ underway = some ref.name.lexeme := by
    simpa [not_or] using hboth
  obtain hscope | ⟨ref', heq, hne⟩ := h.incomplete hprogram
  · obtain ⟨scope, hzero, -⟩ := Context.scope_of_distance? hd
    unfold Context.isPending at hpending
    cases hscopes : ctx.scopes with
    | nil => simp [hscopes] at hzero
    | cons scope outer =>
      rw [hscopes] at hpending hscope
      simp [hscope scope rfl] at hpending
  · cases heq
    exact hne rfl

/-- A variable that is written to has the distance of its name. -/
theorem assigned {value : Expr} (h : Visits program (.expression underway (.assign ref value)) ctx os)
    (hprogram : Resolved D (Stmt.allIds program) program.findings) :
    D[ref.id]? = ctx.distance? ref.name.lexeme := by
  have hresolved := h.resolved hprogram
  rw [Node.ids, Node.findings, Expr.ids, Expr.findings] at hresolved
  exact (hresolved.right (value.located_findings ctx underway)).distance

/-- Wherever `this` stands it has a distance. -/
theorem this (h : Visits program (.expression underway (.this ref)) ctx os)
    (hprogram : Resolved D (Stmt.allIds program) program.findings)
    (hspelled : Stmt.AllSpelled Token.IsName program) :
    ref.name.lexeme = "this" ∧
      ∃ d, D[ref.id]? = some d ∧ ctx.distance? "this" = some d := by
  have hresolved := h.resolved hprogram
  rw [Node.ids, Node.findings, Expr.ids, Expr.findings] at hresolved
  have hname : ref.name.lexeme = "this" := h.spelled hspelled
  refine ⟨hname, ?_⟩
  cases hclass : ctx.classContext with
  | outside =>
    rw [hclass] at hresolved
    exact absurd List.mem_cons_self (hresolved.accepted ref.name .thisOutsideClass)
  | _ =>
    rw [hclass] at hresolved
    obtain ⟨d, hd⟩ := ((h.regular hspelled).receiver (by simp [hclass])).distance?
    exact ⟨d, by rw [hresolved.distance, hname, hd], hd⟩

/-- Wherever `parent` stands it has a distance, and the scope one step nearer declares `this`. -/
theorem parent (h : Visits program (.expression underway (.parent ref method)) ctx os)
    (hprogram : Resolved D (Stmt.allIds program) program.findings)
    (hspelled : Stmt.AllSpelled Token.IsName program) :
    ref.name.lexeme = "parent" ∧ ∃ k scope, D[ref.id]? = some (k + 1) ∧
      ctx.distance? "parent" = some (k + 1) ∧ ctx.scopes[k]? = some scope ∧
      scope.contains "this" := by
  have hresolved := h.resolved hprogram
  rw [Node.ids, Node.findings, Expr.ids, Expr.findings] at hresolved
  have hname : ref.name.lexeme = "parent" := h.spelled hspelled
  refine ⟨hname, ?_⟩
  cases hclass : ctx.classContext with
  | outside =>
    rw [hclass] at hresolved
    exact absurd List.mem_cons_self (hresolved.accepted ref.name .parentOutsideClass)
  | withoutParent =>
    rw [hclass] at hresolved
    exact absurd List.mem_cons_self (hresolved.accepted ref.name .parentWithoutParent)
  | withParent =>
    rw [hclass] at hresolved
    obtain ⟨d, hd⟩ := ((h.regular hspelled).parent hclass).distance?
    obtain ⟨k, scope, rfl, hscope, hthis⟩ := (h.regular hspelled).this_inside hd
    have hlocate : Resolved D [ref.id] (ref.locate ctx) := hresolved
    exact ⟨k, scope, by rw [hlocate.distance, hname, hd], hd, hscope, hthis⟩

/-- Directly around a method lies the scope for its receiver. -/
theorem receiver {kind : FunctionContext} {decl : FunctionDecl}
    (h : Visits program (.function kind decl) ctx os) (hkind : kind ≠ .function) :
    ∃ scope outer, ctx.scopes = scope :: outer ∧ scope.contains "this" := by
  cases h with
  | function => exact absurd rfl hkind
  | method => exact ⟨_, _, rfl, by simp⟩
  | inheritingMethod => exact ⟨_, _, rfl, by simp⟩

end Visits

end Treewalk
