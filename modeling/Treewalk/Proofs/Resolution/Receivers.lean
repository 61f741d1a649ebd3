import Treewalk.Proofs.Resolution.Names
import Treewalk.Proofs.Resolution.Occurrences

/-! The scopes of classes. Around the methods of a class there is a scope for `this`, and directly around
that one, if the class has a parent, a scope for `parent`; wherever `parent` may stand, these two are the
nearest scopes for the two words. -/

namespace Treewalk

/-- What statements declare has the name of a variable. -/
theorem Stmt.AllSpelled.ordinary {ss : List Stmt} {name : String} (h : AllSpelled Token.IsName ss)
    (hname : name ∈ names ss) : name ≠ "this" ∧ name ≠ "parent" := by
  induction ss with
  | nil => cases hname
  | cons s rest ih =>
    rw [names_cons, List.mem_append] at hname
    obtain hname | hname := hname
    · cases hdeclared : s.declared? with
      | none => simp [names, hdeclared] at hname
      | some token =>
        obtain rfl : name = token.lexeme := by simpa [names, hdeclared] using hname
        have htoken := h.1.declared hdeclared
        exact ⟨htoken.ne_this, htoken.ne_parent⟩
    · exact ih h.2 hname

/-- A function binds ordinary names only. -/
theorem FunctionDecl.Spelled.ordinary {decl : FunctionDecl} {name : String}
    (h : decl.Spelled Token.IsName) (hname : name ∈ (Opening.function decl).names) :
    name ≠ "this" ∧ name ≠ "parent" := by
  obtain ⟨-, hparams, hbody⟩ := FunctionDecl.spelled_iff.mp h
  obtain hname | hname := List.mem_append.mp hname
  · obtain ⟨p, hp, rfl⟩ := List.mem_map.mp hname
    exact ⟨(hparams p hp).ne_this, (hparams p hp).ne_parent⟩
  · exact hbody.ordinary hname

/-- Each scope that was opened for `this` declares it. -/
abbrev ScopesReceive : List Scope → List Opening → Prop :=
  List.Forall₂ fun scope o => "this" ∈ o.names → scope.contains "this"

namespace ScopesReceive

variable {ctx : Context} {os : List Opening} {name : String}

/-- A scope that takes up a name declares `this` as before. -/
theorem withInnermost {inner inner' : Scope} {outer : List Scope}
    (h : ScopesReceive (inner :: outer) os) (hinner : inner.contains "this" → inner'.contains "this") :
    ScopesReceive (inner' :: outer) os := by
  cases h with
  | cons hthis houter => exact .cons (fun ho => hinner (hthis ho)) houter

theorem define (h : ScopesReceive ctx.scopes os) : ScopesReceive (ctx.define name).scopes os := by
  obtain ⟨scopes, kind, classContext⟩ := ctx
  cases scopes with
  | nil => exact h
  | cons inner outer => exact h.withInnermost fun hthis => by simp [hthis]

theorem declare (h : ScopesReceive ctx.scopes os) : ScopesReceive (ctx.declare name).scopes os := by
  obtain ⟨scopes, kind, classContext⟩ := ctx
  cases scopes with
  | nil => exact h
  | cons inner outer => exact h.withInnermost fun hthis => by simp [hthis]

theorem after (h : ScopesReceive ctx.scopes os) (s : Stmt) : ScopesReceive (ctx.after s).scopes os := by
  unfold Context.after
  split
  · exact h.define
  · exact h

theorem body (h : ScopesReceive ctx.scopes os) (kind : FunctionContext) {decl : FunctionDecl}
    (hdecl : decl.Spelled Token.IsName) :
    ScopesReceive (ctx.body kind decl.params).scopes (.function decl :: os) := by
  have hfold (ps : List Token) (ctx' : Context)
      (h' : ScopesReceive ctx'.scopes (.function decl :: os)) :
      ScopesReceive (ps.foldl (fun ctx p => ctx.define p.lexeme) ctx').scopes
        (.function decl :: os) := by
    induction ps generalizing ctx' with
    | nil => exact h'
    | cons p rest ih => exact ih _ h'.define
  exact hfold _ _ (.cons (fun hname => absurd rfl (hdecl.ordinary hname).1) h)

/-- The scope at a distance declares `this` if it was opened for it. -/
theorem getElem {scopes : List Scope} {scope : Scope} {o : Opening} {d : Nat}
    (h : ScopesReceive scopes os) (hscope : scopes[d]? = some scope) (ho : os[d]? = some o)
    (hthis : "this" ∈ o.names) : scope.contains "this" := by
  obtain ⟨hd, rfl⟩ := List.getElem?_eq_some_iff.mp hscope
  obtain ⟨hd', rfl⟩ := List.getElem?_eq_some_iff.mp ho
  exact h.get hd hd' hthis

end ScopesReceive

/-- Wherever resolution comes to, the scopes that were opened for `this` declare it. -/
theorem Visits.receives {program : Program} {node : Node} {ctx : Context} {os : List Opening}
    (h : Visits program node ctx os) (hspelled : Stmt.AllSpelled Token.IsName program) :
    ScopesReceive ctx.scopes os := by
  induction h with
  | program => exact .nil
  | rest _ ih => exact ih.after _
  | initial _ ih => exact ih.declare
  | block hvisits ih =>
    have hbody : Stmt.AllSpelled Token.IsName _ := hvisits.spelled hspelled
    exact .cons (fun hname => absurd rfl (hbody.ordinary hname).1) ih
  | function _ ih | heritage _ ih => exact ih.define
  | body hvisits ih => exact ih.body _ (hvisits.spelled hspelled)
  | method _ _ ih => exact .cons (fun _ => by simp) ih.define
  | inheritingMethod _ _ ih =>
    refine .cons (fun _ => by simp) (.cons (fun hname => ?_) ih.define)
    exact absurd (List.mem_singleton.mp hname) (by decide)
  | first _ ih | value _ ih | printed _ ih | condition _ ih | whenTrue _ ih | whenFalse _ ih
  | loopCondition _ ih | loopBody _ ih | givenBack _ ih | inside _ _ ih => exact ih

namespace Context

variable {ctx : Context} {name word : String}

theorem distance?_define (hne : name ≠ word) : (ctx.define name).distance? word = ctx.distance? word := by
  obtain ⟨scopes, kind, classContext⟩ := ctx
  cases scopes with
  | nil => rfl
  | cons inner outer => simp [define, distance?, List.findIdx?_cons, hne]

theorem distance?_declare (hne : name ≠ word) :
    (ctx.declare name).distance? word = ctx.distance? word := by
  obtain ⟨scopes, kind, classContext⟩ := ctx
  cases scopes with
  | nil => rfl
  | cons inner outer => simp [declare, distance?, List.findIdx?_cons, hne]

theorem distance?_enter : ctx.enter.distance? word = (ctx.distance? word).map (· + 1) := by
  simp [enter, distance?, List.findIdx?_cons]

/-- The nearest scope for `parent` lies directly around the nearest one for `this`. -/
def Adjoins (ctx : Context) : Prop :=
  ∃ k, ctx.distance? "this" = some k ∧ ctx.distance? "parent" = some (k + 1)

theorem Adjoins.define (h : ctx.Adjoins) (hname : name ≠ "this" ∧ name ≠ "parent") :
    (ctx.define name).Adjoins := by
  obtain ⟨k, hthis, hparent⟩ := h
  exact ⟨k, (distance?_define hname.1).trans hthis, (distance?_define hname.2).trans hparent⟩

theorem Adjoins.declare (h : ctx.Adjoins) (hname : name ≠ "this" ∧ name ≠ "parent") :
    (ctx.declare name).Adjoins := by
  obtain ⟨k, hthis, hparent⟩ := h
  exact ⟨k, (distance?_declare hname.1).trans hthis, (distance?_declare hname.2).trans hparent⟩

theorem Adjoins.enter (h : ctx.Adjoins) : ctx.enter.Adjoins := by
  obtain ⟨k, hthis, hparent⟩ := h
  exact ⟨k + 1, by rw [distance?_enter, hthis]; rfl, by rw [distance?_enter, hparent]; rfl⟩

theorem Adjoins.body (h : ctx.Adjoins) (kind : FunctionContext) {params : List Token}
    (hparams : ∀ p ∈ params, p.IsName) : (ctx.body kind params).Adjoins := by
  have hstart : Adjoins { ctx.enter with function := kind } := h.enter
  unfold Context.body
  generalize { ctx.enter with function := kind } = inner at hstart
  induction params generalizing inner with
  | nil => exact hstart
  | cons p rest ih =>
    obtain ⟨hp, hrest⟩ := List.forall_mem_cons.mp hparams
    exact ih hrest _ (hstart.define ⟨hp.ne_this, hp.ne_parent⟩)

theorem Adjoins.methods (ctx : Context) (ref : Reference) : (ctx.methods (some ref)).Adjoins := by
  refine ⟨0, ?_, ?_⟩ <;> simp [Context.methods, Context.bind, distance?, List.findIdx?_cons]

theorem classContext_define (name : String) : (ctx.define name).classContext = ctx.classContext := by
  obtain ⟨scopes, kind, classContext⟩ := ctx
  cases scopes <;> rfl

theorem classContext_declare (name : String) :
    (ctx.declare name).classContext = ctx.classContext := by
  obtain ⟨scopes, kind, classContext⟩ := ctx
  cases scopes <;> rfl

theorem classContext_after (s : Stmt) : (ctx.after s).classContext = ctx.classContext := by
  unfold Context.after
  split
  · exact classContext_define _
  · rfl

theorem classContext_body (kind : FunctionContext) (params : List Token) :
    (ctx.body kind params).classContext = ctx.classContext := by
  have hfold (ctx' : Context) :
      (params.foldl (fun ctx p => ctx.define p.lexeme) ctx').classContext = ctx'.classContext := by
    induction params generalizing ctx' with
    | nil => rfl
    | cons p rest ih => exact (ih _).trans (classContext_define _)
  exact hfold _

theorem Adjoins.after {s : Stmt} (h : ctx.Adjoins) (hs : s.Spelled Token.IsName) :
    (ctx.after s).Adjoins := by
  unfold Context.after
  cases hname : s.declared? with
  | none => exact h
  | some name =>
    have hname := hs.declared hname
    exact h.define ⟨hname.ne_this, hname.ne_parent⟩

end Context

/-- Inside of a class with a parent, the nearest scope for `parent` lies directly around the nearest one
for `this`. -/
theorem Visits.adjoins {program : Program} {node : Node} {ctx : Context} {os : List Opening}
    (h : Visits program node ctx os) (hspelled : Stmt.AllSpelled Token.IsName program)
    (hclass : ctx.classContext = .withParent) : ctx.Adjoins := by
  induction h with
  | program => cases hclass
  | rest hvisits ih =>
    exact (ih (Context.classContext_after _ ▸ hclass)).after (hvisits.spelled hspelled).1
  | initial hvisits ih =>
    have hname := (hvisits.spelled hspelled).1
    exact (ih (Context.classContext_declare _ ▸ hclass)).declare ⟨hname.ne_this, hname.ne_parent⟩
  | block _ ih => exact (ih hclass).enter
  | function hvisits ih =>
    have hdecl : FunctionDecl.Spelled Token.IsName _ := hvisits.spelled hspelled
    have hname := (FunctionDecl.spelled_iff.mp hdecl).1
    exact (ih (Context.classContext_define _ ▸ hclass)).define ⟨hname.ne_this, hname.ne_parent⟩
  | body hvisits ih =>
    have hdecl : FunctionDecl.Spelled Token.IsName _ := hvisits.spelled hspelled
    exact (ih (Context.classContext_body _ _ ▸ hclass)).body _ (FunctionDecl.spelled_iff.mp hdecl).2.1
  | heritage hvisits ih =>
    have hname := (hvisits.spelled hspelled).1
    exact (ih (Context.classContext_define _ ▸ hclass)).define ⟨hname.ne_this, hname.ne_parent⟩
  | method => cases hclass
  | inheritingMethod => exact .methods _ _
  | first _ ih | value _ ih | printed _ ih | condition _ ih | whenTrue _ ih | whenFalse _ ih
  | loopCondition _ ih | loopBody _ ih | givenBack _ ih | inside _ _ ih => exact ih hclass

/-- Wherever `parent` stands, it has the distance of the scope around the nearest one for `this`. -/
theorem Visits.parent_adjoins {program : Program} {D : Distances} {ctx : Context} {os : List Opening}
    {underway : Option String} {ref : Reference} {method : Token}
    (h : Visits program (.expression underway (.parent ref method)) ctx os)
    (hprogram : Resolved D (Stmt.allIds program) program.findings)
    (hspelled : Stmt.AllSpelled Token.IsName program) :
    ∃ k, D[ref.id]? = some (k + 1) ∧ ctx.distance? "this" = some k ∧
      ctx.distance? "parent" = some (k + 1) := by
  obtain ⟨_, k', _, hdistance, hd, _⟩ := h.parent hprogram hspelled
  have hclass : ctx.classContext = .withParent := by
    have hresolved := h.resolved hprogram
    rw [Node.ids, Node.findings, Expr.ids, Expr.findings] at hresolved
    cases hclass : ctx.classContext with
    | withParent => rfl
    | _ =>
      rw [hclass] at hresolved
      exact absurd List.mem_cons_self (hresolved.accepted ref.name _)
  obtain ⟨k, hthis, hparent⟩ := h.adjoins hspelled hclass
  obtain rfl : k' = k := by simpa using hd.symm.trans hparent
  exact ⟨k', hdistance, hthis, hparent⟩

end Treewalk
