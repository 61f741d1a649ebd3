import Treewalk.Proofs.Resolution.Sites

/-! The names of scopes. What a scope is opened for says which names it may come to declare; wherever
resolution comes to, the scopes around it declare no others, and what is declared there is among the
names of the innermost scope. -/

namespace Treewalk

/-- The names that statements declare, without those in the blocks and functions inside them. -/
def Stmt.names (ss : List Stmt) : List String :=
  ss.filterMap fun s => s.declared?.map (·.lexeme)

/-- The names of the scope that is opened: those that the statements of a block declare, the
parameters of a function and what its body declares, `this`, or `parent`. -/
def Opening.names : Opening → List String
  | block body => Stmt.names body
  | function decl => decl.params.map (·.lexeme) ++ Stmt.names decl.body
  | receiver _ => ["this"]
  | parent _ _ => ["parent"]

/-- The name of a scope that is opened for that one alone. -/
def Opening.single? : Opening → Option String
  | receiver _ => some "this"
  | parent _ _ => some "parent"
  | _ => none

theorem Opening.names_of_single? {o : Opening} {name : String} (h : o.single? = some name) :
    o.names = [name] ∧ (name = "this" ∨ name = "parent") := by
  cases o with
  | receiver =>
    cases h
    exact ⟨rfl, .inl rfl⟩
  | parent =>
    cases h
    exact ⟨rfl, .inr rfl⟩
  | _ => cases h

/-- The names that a node declares in the scope around it. -/
def Node.names : Node → List String
  | statement s => Stmt.names [s]
  | statements ss => Stmt.names ss
  | _ => []

/-- Each scope declares only names of what it was opened for. -/
abbrev ScopesNamed : List Scope → List Opening → Prop :=
  List.Forall₂ fun scope o => ∀ name : String, scope.contains name → name ∈ o.names

theorem Stmt.names_cons (s : Stmt) (ss : List Stmt) : names (s :: ss) = names [s] ++ names ss :=
  List.filterMap_append (l := [s])

theorem Stmt.mem_names_of_declared {s : Stmt} {name : Token} (h : s.declared? = some name) :
    name.lexeme ∈ names [s] := by
  simp [names, h]

namespace ScopesNamed

variable {ctx : Context} {os : List Opening} {name : String}

theorem define (h : ScopesNamed ctx.scopes os) (hname : ∀ o ∈ os.head?, name ∈ o.names) :
    ScopesNamed (ctx.define name).scopes os := by
  obtain ⟨scopes, kind, classContext⟩ := ctx
  cases h with
  | nil => exact .nil
  | cons hinner houter =>
    refine .cons (fun other hother => ?_) houter
    by_cases heq : name = other
    · exact heq ▸ hname _ rfl
    · exact hinner other (by simpa [heq] using hother)

theorem declare (h : ScopesNamed ctx.scopes os) (hname : ∀ o ∈ os.head?, name ∈ o.names) :
    ScopesNamed (ctx.declare name).scopes os := by
  obtain ⟨scopes, kind, classContext⟩ := ctx
  cases h with
  | nil => exact .nil
  | cons hinner houter =>
    refine .cons (fun other hother => ?_) houter
    by_cases heq : name = other
    · exact heq ▸ hname _ rfl
    · exact hinner other (by simpa [heq] using hother)

theorem after {s : Stmt} (h : ScopesNamed ctx.scopes os)
    (hs : ∀ name ∈ Stmt.names [s], ∀ o ∈ os.head?, name ∈ o.names) :
    ScopesNamed (ctx.after s).scopes os := by
  unfold Context.after
  split
  · next name hdeclared => exact h.define (hs _ (Stmt.mem_names_of_declared hdeclared))
  · exact h

theorem body (h : ScopesNamed ctx.scopes os) (kind : FunctionContext) (decl : FunctionDecl) :
    ScopesNamed (ctx.body kind decl.params).scopes (.function decl :: os) := by
  have hfold (ps : List Token) (hps : ∀ p ∈ ps, p ∈ decl.params) (ctx' : Context)
      (h' : ScopesNamed ctx'.scopes (.function decl :: os)) :
      ScopesNamed (ps.foldl (fun ctx p => ctx.define p.lexeme) ctx').scopes
        (.function decl :: os) := by
    induction ps generalizing ctx' with
    | nil => exact h'
    | cons p rest ih =>
      refine ih (fun q hq => hps q (List.mem_cons_of_mem _ hq)) _ (h'.define ?_)
      rintro _ ⟨⟩
      exact List.mem_append_left _ (List.mem_map_of_mem (hps p List.mem_cons_self))
  exact hfold _ (fun _ => id) _ (.cons (by simp) h)

theorem single {o : Opening} (h : ScopesNamed ctx.scopes os) (hname : name ∈ o.names) :
    ScopesNamed (ctx.bind name).scopes (o :: os) := by
  refine .cons (fun other hother => ?_) h
  by_cases heq : name = other
  · exact heq ▸ hname
  · simp [heq] at hother

/-- The scope at a distance declares only names of what it was opened for. -/
theorem getElem {scopes : List Scope} {scope : Scope} {o : Opening} {d : Nat}
    (h : ScopesNamed scopes os) (hscope : scopes[d]? = some scope) (ho : os[d]? = some o) :
    ∀ name : String, scope.contains name → name ∈ o.names := by
  obtain ⟨hd, rfl⟩ := List.getElem?_eq_some_iff.mp hscope
  obtain ⟨hd', rfl⟩ := List.getElem?_eq_some_iff.mp ho
  exact h.get hd hd'

end ScopesNamed

/-- Wherever resolution comes to in a well-formed program, the scopes declare only names of what they
were opened for, and the node declares only names of what the innermost one was opened for. -/
theorem Visits.named {N : Token → Prop} {program : Program} {node : Node} {ctx : Context}
    {os : List Opening} (h : Visits program node ctx os) (hspelled : Stmt.AllSpelled N program) :
    ScopesNamed ctx.scopes os ∧ ∀ name ∈ node.names, ∀ o ∈ os.head?, name ∈ o.names := by
  induction h with
  | program => exact ⟨.nil, nofun⟩
  | @first s rest _ _ _ ih =>
    refine ⟨ih.1, fun name hname => ih.2 name ?_⟩
    rw [Node.names, Stmt.names_cons]
    exact List.mem_append_left _ hname
  | @rest s rest _ _ _ ih =>
    rw [Node.names, Stmt.names_cons] at ih
    exact ⟨ih.1.after fun name hname => ih.2 name (List.mem_append_left _ hname),
      fun name hname => ih.2 name (List.mem_append_right _ hname)⟩
  | initial _ ih => exact ⟨ih.1.declare (ih.2 _ (Stmt.mem_names_of_declared rfl)), nofun⟩
  | @block body _ _ _ ih =>
    refine ⟨.cons (by simp) ih.1, ?_⟩
    rintro name hname _ ⟨⟩
    exact hname
  | whenTrue hvisits ih =>
    exact ⟨ih.1, by simp [Node.names, Stmt.names, (hvisits.spelled hspelled).whenTrue]⟩
  | whenFalse hvisits ih =>
    exact ⟨ih.1, by simp [Node.names, Stmt.names, (hvisits.spelled hspelled).2.2.2]⟩
  | loopBody hvisits ih =>
    exact ⟨ih.1, by simp [Node.names, Stmt.names, (hvisits.spelled hspelled).2.2]⟩
  | function _ ih => exact ⟨ih.1.define (ih.2 _ (Stmt.mem_names_of_declared rfl)), nofun⟩
  | body _ ih =>
    refine ⟨ih.1.body _ _, ?_⟩
    rintro name hname _ ⟨⟩
    exact List.mem_append_right _ hname
  | heritage _ ih => exact ⟨ih.1.define (ih.2 _ (Stmt.mem_names_of_declared rfl)), nofun⟩
  | method _ _ ih =>
    have hname := ih.1.define (ih.2 _ (Stmt.mem_names_of_declared rfl))
    exact ⟨hname.single List.mem_cons_self, nofun⟩
  | @inheritingMethod _ ref methods _ _ _ _ _ ih =>
    have hname := ih.1.define (ih.2 _ (Stmt.mem_names_of_declared rfl))
    have hparent := hname.single (o := .parent ref methods) List.mem_cons_self
    exact ⟨hparent.single List.mem_cons_self, nofun⟩
  | value _ ih | printed _ ih | condition _ ih | loopCondition _ ih | givenBack _ ih
  | inside _ _ ih => exact ⟨ih.1, nofun⟩

end Treewalk
