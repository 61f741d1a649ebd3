import Mathlib.Data.List.Chain
import Treewalk.Proofs.Resolution.Visits

/-! What is known at every node that resolution comes to: the distances of its occurrences are
those that were found, nothing is wrong with it, its tokens are of the right classes, and the scopes
around it are regular. -/

namespace Treewalk

namespace Resolved

variable {D : Distances} {ctx : Context} {underway : Option String}

theorem argument {es : List Expr}
    (h : Resolved D (Expr.allIds es) (Expr.allFindings ctx underway es)) {e : Expr} (he : e ∈ es) :
    Resolved D e.ids (e.findings ctx underway) := by
  induction es with
  | nil => cases he
  | cons e' rest ih =>
    rw [Expr.allIds, Expr.allFindings] at h
    obtain rfl | he := List.mem_cons.mp he
    · exact h.left (Expr.located_allFindings ctx underway rest)
    · exact ih (h.right (e'.located_findings ctx underway)) he

theorem child {e e' : Expr} (h : Resolved D e.ids (e.findings ctx underway))
    (he : e' ∈ e.children) : Resolved D e'.ids (e'.findings ctx underway) := by
  cases e with
  | unary op operand =>
    obtain rfl := List.mem_singleton.mp he
    rwa [Expr.ids, Expr.findings] at h
  | grouping inner =>
    obtain rfl := List.mem_singleton.mp he
    rwa [Expr.ids, Expr.findings] at h
  | get object name =>
    obtain rfl := List.mem_singleton.mp he
    rwa [Expr.ids, Expr.findings] at h
  | assign target value =>
    obtain rfl := List.mem_singleton.mp he
    rw [Expr.ids, Expr.findings] at h
    exact h.left (located_locate ctx target)
  | binary left op right | logical left op right =>
    rw [Expr.ids, Expr.findings] at h
    simp only [Expr.children, List.mem_cons, List.not_mem_nil, or_false] at he
    obtain rfl | rfl := he
    · exact h.left (right.located_findings ctx underway)
    · exact h.right (left.located_findings ctx underway)
  | call callee paren arguments =>
    rw [Expr.ids, Expr.findings] at h
    obtain rfl | he := List.mem_cons.mp he
    · exact h.left (Expr.located_allFindings ctx underway arguments)
    · exact (h.right (callee.located_findings ctx underway)).argument he
  | set object name value =>
    rw [Expr.ids, Expr.findings] at h
    simp only [Expr.children, List.mem_cons, List.not_mem_nil, or_false] at he
    obtain rfl | rfl := he
    · exact h.right (value.located_findings ctx underway)
    · exact h.left (object.located_findings ctx underway)
  | _ => cases he

theorem method {decls : List FunctionDecl}
    (h : Resolved D (FunctionDecl.allIds decls) (FunctionDecl.methodFindings ctx decls))
    {decl : FunctionDecl} (hdecl : decl ∈ decls) :
    Resolved D decl.ids (decl.findings ctx (.ofMethod decl.name)) := by
  induction decls with
  | nil => cases hdecl
  | cons decl' rest ih =>
    rw [FunctionDecl.allIds, FunctionDecl.methodFindings] at h
    obtain rfl | hdecl := List.mem_cons.mp hdecl
    · exact h.left (FunctionDecl.located_methodFindings ctx rest)
    · exact ih (h.right (decl'.located_findings ctx _)) hdecl

/-- The parent of a class is another one, so that it is read like any other name while the class is
being declared. -/
theorem heritage {name : Token} {ref : Reference}
    (h : Resolved D [ref.id] (parentFindings ctx name ref)) :
    ref.name.lexeme ≠ name.lexeme ∧ Resolved D [ref.id] (ref.read ctx (some name.lexeme)) := by
  obtain ⟨hne, h⟩ := h.of_fault
  refine ⟨hne, ?_⟩
  unfold Reference.read at h ⊢
  cases hscopes : ctx.scopes with
  | nil => simpa [hscopes, Ne.symm hne] using h
  | cons => simpa [hscopes] using h

theorem parentClass {name : Token} {ref : Reference} {methods : List FunctionDecl}
    (h : Resolved D (Stmt.classDecl name (some ref) methods).ids
      ((Stmt.classDecl name (some ref) methods).findings ctx)) :
    Resolved D [ref.id] (parentFindings (ctx.define name.lexeme) name ref) := by
  unfold Stmt.findings Stmt.ids at h
  dsimp only at h
  exact (h.left (FunctionDecl.located_methodFindings _ _)).behind (located_duplicate _ _)

end Resolved

/-- The distances of the occurrences in a node that is visited are those found there, and the node
has no misuse. -/
theorem Visits.resolved {program : Program} {D : Distances} {node : Node} {ctx : Context}
    {os : List Opening} (h : Visits program node ctx os)
    (hprogram : Resolved D (Stmt.allIds program) program.findings) :
    Resolved D node.ids (node.findings ctx) := by
  induction h with simp only [Node.ids, Node.findings] at *
  | program => exact hprogram
  | @first s rest ctx os _ ih =>
    rw [Stmt.allIds, Stmt.allFindings] at ih
    exact ih.left (Stmt.located_allFindings _ rest)
  | @rest s rest ctx os _ ih =>
    rw [Stmt.allIds, Stmt.allFindings] at ih
    exact ih.right (s.located_findings ctx)
  | value _ ih | printed _ ih | block _ ih => rwa [Stmt.ids, Stmt.findings] at ih
  | initial _ ih =>
    rw [Stmt.ids, Stmt.findings] at ih
    exact ih.behind (located_duplicate _ _)
  | @condition e s other ctx os _ ih =>
    cases other with
    | none =>
      rw [Stmt.ids, Stmt.findings] at ih
      exact ih.left (s.located_findings ctx)
    | some other =>
      rw [Stmt.ids, Stmt.findings] at ih
      exact (ih.left (other.located_findings ctx)).left (s.located_findings ctx)
  | @whenTrue e s other ctx os _ ih =>
    cases other with
    | none =>
      rw [Stmt.ids, Stmt.findings] at ih
      exact ih.right (e.located_findings ctx none)
    | some other =>
      rw [Stmt.ids, Stmt.findings] at ih
      exact (ih.left (other.located_findings ctx)).right (e.located_findings ctx none)
  | @whenFalse e s other ctx os _ ih =>
    rw [Stmt.ids, Stmt.findings] at ih
    refine ih.right ?_
    rw [located_append]
    exact (e.located_findings ctx none).append (s.located_findings ctx)
  | @loopCondition e s ctx os _ ih =>
    rw [Stmt.ids, Stmt.findings] at ih
    exact ih.left (s.located_findings ctx)
  | @loopBody e s ctx os _ ih =>
    rw [Stmt.ids, Stmt.findings] at ih
    exact ih.right (e.located_findings ctx none)
  | function _ ih =>
    rw [Stmt.ids, Stmt.findings] at ih
    exact ih.behind (located_duplicate _ _)
  | @body kind decl ctx os _ ih =>
    obtain ⟨name, params, body⟩ := decl
    rw [FunctionDecl.ids, FunctionDecl.findings] at ih
    exact ih.behind (located_parameterFindings _ _)
  | givenBack _ ih =>
    unfold Stmt.findings at ih
    rw [Stmt.ids] at ih
    exact ih.of_fault.2.of_fault.2
  | heritage _ ih => exact ih.parentClass.heritage.2
  | method _ hdecl ih =>
    unfold Stmt.findings Stmt.ids at ih
    dsimp only at ih
    refine Resolved.method (ih.right ?_) hdecl
    simp
  | inheritingMethod _ hdecl ih =>
    unfold Stmt.findings Stmt.ids at ih
    dsimp only at ih
    refine Resolved.method (ih.right ?_) hdecl
    rw [located_append, located_duplicate]
    exact located_parentFindings _ _ _
  | inside _ he ih => exact ih.child he

theorem Expr.Spelled.child {N : Token → Prop} {e e' : Expr} (h : e.Spelled N)
    (he : e' ∈ e.children) : e'.Spelled N := by
  cases e with
  | unary op operand | assign target value =>
    obtain rfl := List.mem_singleton.mp he
    exact h.2
  | grouping inner | get object name =>
    obtain rfl := List.mem_singleton.mp he
    exact h
  | binary left op right =>
    simp only [Expr.children, List.mem_cons, List.not_mem_nil, or_false] at he
    obtain rfl | rfl := he
    · exact h.2.1
    · exact h.2.2
  | logical left op right | set left name right =>
    simp only [Expr.children, List.mem_cons, List.not_mem_nil, or_false] at he
    obtain rfl | rfl := he
    · exact h.1
    · exact h.2
  | call callee paren arguments =>
    obtain rfl | he := List.mem_cons.mp he
    · exact h.1
    · exact Expr.allSpelled_iff.mp h.2 e' he
  | _ => cases he

/-- The tokens in a node that is visited are of the right classes. -/
theorem Visits.spelled {N : Token → Prop} {program : Program} {node : Node} {ctx : Context}
    {os : List Opening} (h : Visits program node ctx os) (hprogram : Stmt.AllSpelled N program) :
    node.Spelled N := by
  induction h with simp only [Node.Spelled] at *
  | program => exact hprogram
  | first _ ih => exact ih.1
  | rest _ ih => exact ih.2
  | value _ ih | printed _ ih | block _ ih | function _ ih | givenBack _ ih =>
    rwa [Stmt.Spelled] at ih
  | initial _ ih => exact ih.2
  | @condition _ _ other _ _ _ ih => cases other <;> exact ih.1
  | @whenTrue _ _ other _ _ _ ih =>
    cases other with
    | none => exact ih.2.1
    | some other => exact ih.2.1.1
  | whenFalse _ ih => exact ih.2.2.1
  | loopCondition _ ih => exact ih.1
  | loopBody _ ih => exact ih.2.1
  | @body _ decl _ _ _ ih =>
    obtain ⟨name, params, body⟩ := decl
    exact ih.2.2
  | heritage _ ih => exact ih.2.1 _ rfl
  | method _ hdecl ih => exact FunctionDecl.allSpelled_iff.mp ih.2.2 _ hdecl
  | inheritingMethod _ hdecl ih => exact FunctionDecl.allSpelled_iff.mp ih.2.2 _ hdecl
  | inside _ he ih => exact ih.child he

namespace Context

/-- A scope lies around a point that declares `name`. -/
def Declares (ctx : Context) (name : String) : Prop := ∃ scope ∈ ctx.scopes, scope.contains name

/-- The scopes around a point are regular: the only name that stands there incomplete is the one
under way, in the innermost scope; directly inside a scope for `parent` there is one for `this`, and
inside a class they are there. -/
structure Regular (underway : Option String) (ctx : Context) : Prop where
  complete : ∀ scope ∈ ctx.scopes.tail, ∀ name : String, scope[name]? ≠ some false
  pending : ∀ scope ∈ ctx.scopes.head?, ∀ name : String,
    scope[name]? = some false → underway = some name
  paired : ctx.scopes.IsChain fun inner outer => outer.contains "parent" → inner.contains "this"
  innermost : ∀ scope ∈ ctx.scopes.head?, ¬scope.contains "parent"
  receiver : ctx.classContext ≠ .outside → ctx.Declares "this"
  parent : ctx.classContext = .withParent → ctx.Declares "parent"

variable {ctx : Context} {underway : Option String} {name : String}

theorem Regular.outermost : Regular none outermost := by
  refine ⟨?_, ?_, .nil, ?_, ?_, ?_⟩ <;> simp [Context.outermost]

/-- In an innermost scope with all names complete, none is under way. -/
theorem Regular.of_none (h : Regular none ctx) : Regular underway ctx where
  complete := h.complete
  pending scope hscope name hname := by cases h.pending scope hscope name hname
  paired := h.paired
  innermost := h.innermost
  receiver := h.receiver
  parent := h.parent

theorem Regular.complete_of_mem (h : Regular none ctx) {scope : Scope} (hscope : scope ∈ ctx.scopes)
    (name : String) : scope[name]? ≠ some false := by
  obtain ⟨scopes, kind, classContext⟩ := ctx
  cases scopes with
  | nil => cases hscope
  | cons inner outer =>
    obtain rfl | hscope := List.mem_cons.mp hscope
    · intro hname
      cases h.pending scope rfl name hname
    · exact h.complete scope hscope name

/-- A scope that is opened declares nothing but `this`, or nothing at all. -/
theorem Regular.cons (h : Regular none ctx) (scope : Scope)
    (hcomplete : ∀ name : String, scope[name]? ≠ some false) (hparent : ¬scope.contains "parent") :
    Regular none { ctx with scopes := scope :: ctx.scopes } where
  complete := fun _ hscope => h.complete_of_mem hscope
  pending := by
    rintro _ ⟨⟩ name hname
    exact absurd hname (hcomplete name)
  paired := List.isChain_cons.mpr ⟨fun outer houter hcontains =>
    absurd hcontains (h.innermost outer houter), h.paired⟩
  innermost := by
    rintro _ ⟨⟩
    exact hparent
  receiver hclass := by
    obtain ⟨scope, hscope, hname⟩ := h.receiver hclass
    exact ⟨scope, List.mem_cons_of_mem _ hscope, hname⟩
  parent hclass := by
    obtain ⟨scope, hscope, hname⟩ := h.parent hclass
    exact ⟨scope, List.mem_cons_of_mem _ hscope, hname⟩

theorem Regular.enter (h : Regular none ctx) : Regular none ctx.enter :=
  h.cons ∅ (by simp) (by simp)

theorem Regular.withFunction (h : Regular underway ctx) (kind : FunctionContext) :
    Regular underway { ctx with function := kind } :=
  ⟨h.complete, h.pending, h.paired, h.innermost, h.receiver, h.parent⟩

/-- The innermost scope may take up another name. -/
theorem Regular.withInnermost {inner inner' : Scope} {outer : List Scope} {kind : FunctionContext}
    {classContext : ClassContext} (h : Regular none ⟨inner :: outer, kind, classContext⟩)
    (hpending : ∀ name : String, inner'[name]? = some false → underway = some name)
    (hthis : inner.contains "this" → inner'.contains "this")
    (hparent : inner'.contains "parent" → inner.contains "parent") :
    Regular underway ⟨inner' :: outer, kind, classContext⟩ where
  complete := h.complete
  pending := by
    rintro _ ⟨⟩ name hname
    exact hpending name hname
  paired := by
    obtain ⟨hhead, htail⟩ := List.isChain_cons.mp h.paired
    exact List.isChain_cons.mpr
      ⟨fun scope hscope hcontains => hthis (hhead scope hscope hcontains), htail⟩
  innermost := by
    rintro _ ⟨⟩ hcontains
    exact h.innermost inner rfl (hparent hcontains)
  receiver hclass := by
    obtain ⟨scope, hscope, hname⟩ := h.receiver hclass
    obtain rfl | hscope := List.mem_cons.mp hscope
    · exact ⟨inner', List.mem_cons_self, hthis hname⟩
    · exact ⟨scope, List.mem_cons_of_mem _ hscope, hname⟩
  parent hclass := by
    obtain ⟨scope, hscope, hname⟩ := h.parent hclass
    obtain rfl | hscope := List.mem_cons.mp hscope
    · exact absurd hname (h.innermost scope rfl)
    · exact ⟨scope, List.mem_cons_of_mem _ hscope, hname⟩

theorem Regular.define (h : Regular none ctx) (hname : name ≠ "parent") :
    Regular none (ctx.define name) := by
  obtain ⟨scopes, kind, classContext⟩ := ctx
  cases scopes with
  | nil => exact h
  | cons inner outer =>
    refine h.withInnermost ?_ ?_ ?_
    · intro other hother
      rw [Std.TreeMap.getElem?_insert] at hother
      split at hother
      · cases hother
      · exact h.pending inner rfl other hother
    · intro hthis
      simp [hthis]
    · intro hparent
      simpa [hname] using hparent

theorem Regular.declare (h : Regular none ctx) (hname : name ≠ "parent") :
    Regular (some name) (ctx.declare name) := by
  obtain ⟨scopes, kind, classContext⟩ := ctx
  cases scopes with
  | nil => exact h.of_none
  | cons inner outer =>
    refine h.withInnermost ?_ ?_ ?_
    · intro other hother
      rw [Std.TreeMap.getElem?_insertIfNew] at hother
      split at hother
      · next heq => rw [Std.LawfulEqCmp.compare_eq_iff_eq.mp heq.1]
      · cases h.pending inner rfl other hother
    · intro hthis
      simp [hthis]
    · intro hparent
      simpa [hname] using hparent

theorem Regular.after {s : Stmt} (h : Regular none ctx) (hs : s.Spelled Token.IsName) :
    Regular none (ctx.after s) := by
  unfold Context.after
  cases hname : s.declared? with
  | none => exact h
  | some name =>
    exact h.define (hs.declared hname).ne_parent

/-- The scope of a function takes up its parameters. -/
theorem Regular.body {params : List Token} (h : Regular none ctx) (kind : FunctionContext)
    (hparams : ∀ p ∈ params, p.IsName) : Regular none (ctx.body kind params) := by
  have hstart : Regular none { ctx.enter with function := kind } := h.enter.withFunction kind
  unfold Context.body
  generalize { ctx.enter with function := kind } = inner at hstart
  induction params generalizing inner with
  | nil => exact hstart
  | cons p rest ih =>
    obtain ⟨hp, hrest⟩ := List.forall_mem_cons.mp hparams
    exact ih hrest _ (hstart.define hp.ne_parent)

/-- The scopes around the methods of a class: `parent`, if there is one, lies behind `this`. -/
theorem Regular.methods (h : Regular none ctx) (parent : Option Reference) :
    Regular none (ctx.methods parent) := by
  have hthis : ∀ name : String, ((∅ : Scope).insert "this" true)[name]? ≠ some false := by
    intro name
    rw [Std.TreeMap.getElem?_insert]
    split <;> simp
  cases parent with
  | none =>
    have hregular := h.cons ((∅ : Scope).insert "this" true) hthis (by simp)
    refine ⟨hregular.complete, hregular.pending, hregular.paired, hregular.innermost, ?_, ?_⟩
    · exact fun _ => ⟨_, List.mem_cons_self, by simp⟩
    · rintro ⟨⟩
  | some ref =>
    refine ⟨?_, ?_, ?_, ?_, ?_, ?_⟩
    · intro scope hscope name
      obtain rfl | hscope := List.mem_cons.mp hscope
      · rw [Std.TreeMap.getElem?_insert]
        split <;> simp
      · exact h.complete_of_mem hscope name
    · rintro _ ⟨⟩ name hname
      exact absurd hname (hthis name)
    · refine List.isChain_cons.mpr ⟨?_, List.isChain_cons.mpr ⟨?_, h.paired⟩⟩
      · exact fun _ _ _ => by simp
      · exact fun outer houter hcontains => absurd hcontains (h.innermost outer houter)
    · rintro _ ⟨⟩
      simp
    · exact fun _ => ⟨_, List.mem_cons_self, by simp⟩
    · exact fun _ => ⟨_, List.mem_cons_of_mem _ List.mem_cons_self, by simp⟩

end Context

/-- The scopes around a node that is visited are regular. -/
theorem Visits.regular {program : Program} {node : Node} {ctx : Context} {os : List Opening}
    (h : Visits program node ctx os) (hprogram : Stmt.AllSpelled Token.IsName program) :
    ctx.Regular node.underway := by
  induction h with
  | program => exact .outermost
  | first _ ih | value _ ih | printed _ ih | condition _ ih | whenTrue _ ih | whenFalse _ ih
  | loopCondition _ ih | loopBody _ ih | givenBack _ ih => exact ih
  | rest h ih => exact ih.after (h.spelled hprogram).1
  | initial h ih => exact ih.declare (h.spelled hprogram).1.ne_parent
  | block _ ih => exact ih.enter
  | function h ih =>
    have hdecl : FunctionDecl.Spelled Token.IsName _ := h.spelled hprogram
    exact ih.define (FunctionDecl.spelled_iff.mp hdecl).1.ne_parent
  | body h ih =>
    have hdecl : FunctionDecl.Spelled Token.IsName _ := h.spelled hprogram
    exact ih.body _ (FunctionDecl.spelled_iff.mp hdecl).2.1
  | heritage h ih => exact (ih.define (h.spelled hprogram).1.ne_parent).of_none
  | method h _ ih => exact (ih.define (h.spelled hprogram).1.ne_parent).methods _
  | inheritingMethod h _ ih => exact (ih.define (h.spelled hprogram).1.ne_parent).methods _
  | inside _ _ ih => exact ih

end Treewalk
