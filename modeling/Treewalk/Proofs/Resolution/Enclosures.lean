import Treewalk.Proofs.Resolution.Names

/-! Places in a program, as its text shows them. `Stands program os part` says that `part` occurs in
the program, inside the local scopes `os`, innermost first; each of them knows what comes before the
part in it and what comes after. Resolution comes to every place, and at each the scopes it carries
along declare what is in force there. -/

namespace Treewalk

/-- A local scope around a place: a block; a function, whose parameters and body share one scope; the
receiver of the methods of a class; the parent of a class. In a block and in the body of a function
the place is in the statement `here`. -/
inductive Enclosure
  | block (before : List Stmt) (here : Stmt) (after : List Stmt)
  | function (isMethod : Bool) (name : Token) (params : List Token) (before : List Stmt)
    (here : Stmt) (after : List Stmt)
  | receiver (heritage : Option Reference)
  | parent

namespace Enclosure

/-- The names that the scope declares, anywhere in it. -/
def names : Enclosure → List String
  | block before here after => Stmt.names (before ++ here :: after)
  | function _ _ params before here after =>
    params.map (·.lexeme) ++ Stmt.names (before ++ here :: after)
  | receiver _ => ["this"]
  | parent => ["parent"]

/-- The names whose declarations have begun at the place: each is in force from its token on. -/
def inForce : Enclosure → List String
  | block before here _ => Stmt.names (before ++ [here])
  | function _ _ params before here _ =>
    params.map (·.lexeme) ++ Stmt.names (before ++ [here])
  | receiver _ => ["this"]
  | parent => ["parent"]

/-- The kind of the function that the scope belongs to, and its name. -/
def function? : Enclosure → Option (Bool × Token)
  | function isMethod name _ _ _ _ => some (isMethod, name)
  | _ => none

/-- The parent, if there is one, of the class that the scope is in. -/
def class? : Enclosure → Option (Option Reference)
  | receiver heritage => some heritage
  | _ => none

/-- The scopes around the methods of a class. -/
def ofClass : Option Reference → List Enclosure
  | none => [receiver none]
  | some ref => [receiver (some ref), .parent]

/-- The innermost function around a place. -/
def innermostFunction? (os : List Enclosure) : Option (Bool × Token) := os.findSome? function?

/-- The innermost class around a place. -/
def innermostClass? (os : List Enclosure) : Option (Option Reference) := os.findSome? class?

end Enclosure

/-- What resolution calls a function with a name. -/
def FunctionContext.ofFunction (isMethod : Bool) (name : Token) : FunctionContext :=
  if isMethod then .ofMethod name else .function

/-- What resolution calls the surroundings in a function, or in none. -/
def FunctionContext.within : Option (Bool × Token) → FunctionContext
  | none => .topLevel
  | some (isMethod, name) => .ofFunction isMethod name

/-- What resolution calls the surroundings in a class, or in none. -/
def ClassContext.within : Option (Option Reference) → ClassContext
  | none => .outside
  | some none => .withoutParent
  | some (some _) => .withParent

/-- A part of a program that can be pointed at. -/
inductive Part
  | statement (s : Stmt)
  | function (isMethod : Bool) (decl : FunctionDecl)
  | expression (e : Expr)

/-- The expressions directly in a statement; the parent of a class is one that reads a name. -/
def Stmt.expressions : Stmt → List Expr
  | .expression e | .print e | .branch e _ _ | .loop e _ => [e]
  | .var _ initial => initial.toList
  | .giveBack _ value => value.toList
  | .classDecl _ parent _ => (parent.map Expr.variable).toList
  | .block _ | .function _ => []

/-- `part` occurs in the program, inside the local scopes `os`. -/
inductive Stands (program : Program) : List Enclosure → Part → Prop
  | program {s} : s ∈ program → Stands program [] (.statement s)
  | block {os before s after} : Stands program os (.statement (.block (before ++ s :: after))) →
    Stands program (.block before s after :: os) (.statement s)
  | whenTrue {os e s other} : Stands program os (.statement (.branch e s other)) →
    Stands program os (.statement s)
  | whenFalse {os e s other} : Stands program os (.statement (.branch e s (some other))) →
    Stands program os (.statement other)
  | loopBody {os e s} : Stands program os (.statement (.loop e s)) →
    Stands program os (.statement s)
  | function {os decl} : Stands program os (.statement (.function decl)) →
    Stands program os (.function false decl)
  | method {os name parent methods decl} :
    Stands program os (.statement (.classDecl name parent methods)) → decl ∈ methods →
    Stands program (Enclosure.ofClass parent ++ os) (.function true decl)
  | body {os isMethod name params before s after} :
    Stands program os (.function isMethod ⟨name, params, before ++ s :: after⟩) →
    Stands program (.function isMethod name params before s after :: os) (.statement s)
  | expression {os s e} : Stands program os (.statement s) → e ∈ s.expressions →
    Stands program os (.expression e)
  | inside {os e e'} : Stands program os (.expression e) → e' ∈ e.children →
    Stands program os (.expression e')

theorem Scope.contains_insert {scope : Scope} {x name : String} :
    (scope.insert x true).contains name ↔ scope.contains name ∨ name = x := by
  rw [Std.TreeMap.contains_insert, Bool.or_eq_true, beq_iff_eq, Std.LawfulEqCmp.compare_eq_iff_eq,
    or_comm, eq_comm (a := x)]

/-- The scopes declare what is in force in the enclosures. -/
abbrev InForce : List Scope → List Enclosure → Prop :=
  List.Forall₂ fun scope o => ∀ name : String, scope.contains name ↔ name ∈ o.inForce

/-- The surroundings that resolution carries along are those of a place: the scopes, the function and
the class are what the enclosures say, and what the scopes were opened for has their names. -/
structure Context.Agrees (ctx : Context) (os : List Enclosure) (openings : List Opening) : Prop where
  scopes : InForce ctx.scopes os
  function : ctx.function = .within (Enclosure.innermostFunction? os)
  classContext : ctx.classContext = .within (Enclosure.innermostClass? os)
  openings : openings.map Opening.names = os.map Enclosure.names

namespace Context

variable {ctx : Context} {os : List Enclosure} {openings : List Opening}

/-- The innermost scope takes up the names of the statements that resolution comes past. -/
theorem foldl_after (ss : List Stmt) (scope : Scope) (outer : List Scope) (kind : FunctionContext)
    (classContext : ClassContext) :
    ∃ inner : Scope, ss.foldl after ⟨scope :: outer, kind, classContext⟩ =
        ⟨inner :: outer, kind, classContext⟩ ∧
      ∀ name : String, inner.contains name ↔ scope.contains name ∨ name ∈ Stmt.names ss := by
  induction ss generalizing scope with
  | nil => exact ⟨scope, rfl, by simp [Stmt.names]⟩
  | cons s rest ih =>
    cases hs : s.declared? with
    | none =>
      obtain ⟨inner, hfold, hinner⟩ := ih scope
      refine ⟨inner, ?_, fun name => ?_⟩
      · rw [List.foldl_cons, ← hfold]
        simp [after, hs]
      · rw [hinner, Stmt.names_cons]
        simp [Stmt.names, hs]
    | some x =>
      obtain ⟨inner, hfold, hinner⟩ := ih (scope.insert x.lexeme true)
      refine ⟨inner, ?_, fun name => ?_⟩
      · rw [List.foldl_cons, ← hfold]
        simp [after, hs, define]
      · have hone : Stmt.names [s] = [x.lexeme] := by simp [Stmt.names, hs]
        rw [hinner, Scope.contains_insert, Stmt.names_cons, hone, List.mem_append,
          List.mem_singleton, or_assoc]

/-- The scope of a function takes up its parameters. -/
theorem body_eq_cons (ctx : Context) (kind : FunctionContext) (params : List Token) :
    ∃ scope : Scope, ctx.body kind params = ⟨scope :: ctx.scopes, kind, ctx.classContext⟩ ∧
      ∀ name : String, scope.contains name ↔ name ∈ params.map (·.lexeme) := by
  have hfold (ps : List Token) (scope : Scope) :
      ∃ inner : Scope, ps.foldl (fun (ctx : Context) p => ctx.define p.lexeme)
          ⟨scope :: ctx.scopes, kind, ctx.classContext⟩ =
          ⟨inner :: ctx.scopes, kind, ctx.classContext⟩ ∧
        ∀ name : String, inner.contains name ↔
          scope.contains name ∨ name ∈ ps.map (·.lexeme) := by
    induction ps generalizing scope with
    | nil => exact ⟨scope, rfl, by simp⟩
    | cons p rest ih =>
      obtain ⟨inner, hfold, hinner⟩ := ih (scope.insert p.lexeme true)
      refine ⟨inner, hfold, fun name => ?_⟩
      rw [hinner, Scope.contains_insert, List.map_cons, List.mem_cons, or_assoc]
  obtain ⟨scope, hbody, hscope⟩ := hfold params ∅
  exact ⟨scope, hbody, fun name => by simp [hscope]⟩

theorem foldl_after_outermost (ss : List Stmt) : ss.foldl after outermost = outermost := by
  induction ss with
  | nil => rfl
  | cons s rest ih =>
    rw [List.foldl_cons, Program.after_outermost, ih]

theorem after_of_not_declared {s : Stmt} (hs : s.declared? = none) : ctx.after s = ctx := by
  simp [after, hs]

end Context

theorem InForce.findIdx? {scopes : List Scope} {os : List Enclosure} (h : InForce scopes os)
    (name : String) :
    scopes.findIdx? (·.contains name) = os.findIdx? (fun o => decide (name ∈ o.inForce)) := by
  induction h with
  | nil => rfl
  | @cons scope o _ _ hhead _ ih =>
    have heq : scope.contains name = decide (name ∈ o.inForce) := by
      rw [Bool.eq_iff_iff, hhead name, decide_eq_true_iff]
    rw [List.findIdx?_cons, List.findIdx?_cons, ih, heq]

namespace Context.Agrees

variable {ctx : Context} {os : List Enclosure} {openings : List Opening}

theorem outermost : Context.outermost.Agrees [] [] := ⟨.nil, rfl, rfl, rfl⟩

/-- The distance of a name is the number of scopes inside the nearest one where it is in force. -/
theorem distance? (h : ctx.Agrees os openings) (name : String) :
    ctx.distance? name = os.findIdx? (fun o => decide (name ∈ o.inForce)) :=
  h.scopes.findIdx? name

/-- A name whose declaration has begun is in force. -/
theorem declare {name : String} (h : (ctx.define name).Agrees os openings) :
    (ctx.declare name).Agrees os openings := by
  obtain ⟨scopes, kind, classContext⟩ := ctx
  cases scopes with
  | nil => exact h
  | cons scope outer =>
    refine ⟨?_, h.function, h.classContext, h.openings⟩
    obtain ⟨o, os', hinner, houter, rfl⟩ := List.forall₂_cons_left_iff.mp h.scopes
    refine .cons (fun other => ?_) houter
    rw [← hinner other]
    simp

/-- The place of a statement in a block. -/
theorem block {before after : List Stmt} {s : Stmt} (h : ctx.Agrees os openings) :
    ((before.foldl Context.after ctx.enter).after s).Agrees (.block before s after :: os)
      (.block (before ++ s :: after) :: openings) := by
  obtain ⟨inner, hfold, hinner⟩ :=
    Context.foldl_after (before ++ [s]) ∅ ctx.scopes ctx.function ctx.classContext
  rw [List.foldl_append, List.foldl_cons, List.foldl_nil] at hfold
  rw [show ctx.enter = ⟨∅ :: ctx.scopes, ctx.function, ctx.classContext⟩ from rfl, hfold]
  refine ⟨.cons (fun name => ?_) h.scopes, h.function, h.classContext,
    congrArg (Stmt.names _ :: ·) h.openings⟩
  rw [hinner, Enclosure.inForce]
  simp

/-- The place of a statement in the body of a function. -/
theorem body {isMethod : Bool} {name : Token} {params : List Token} {before after : List Stmt}
    {s : Stmt} (h : ctx.Agrees os openings) :
    ((before.foldl Context.after (ctx.body (.ofFunction isMethod name) params)).after s).Agrees
      (.function isMethod name params before s after :: os)
      (.function ⟨name, params, before ++ s :: after⟩ :: openings) := by
  obtain ⟨scope, hbody, hscope⟩ := ctx.body_eq_cons (.ofFunction isMethod name) params
  obtain ⟨inner, hfold, hinner⟩ := Context.foldl_after (before ++ [s]) scope ctx.scopes
    (.ofFunction isMethod name) ctx.classContext
  rw [List.foldl_append, List.foldl_cons, List.foldl_nil] at hfold
  rw [hbody, hfold]
  refine ⟨.cons (fun x => ?_) h.scopes, rfl, h.classContext, ?_⟩
  · rw [hinner, hscope, Enclosure.inForce, List.mem_append]
  · exact congrArg (_ :: ·) h.openings

/-- The place of the methods of a class. -/
theorem methods {openings' : List Opening} (h : ctx.Agrees os openings) (parent : Option Reference)
    (hopenings : openings'.map Opening.names =
      (Enclosure.ofClass parent).map Enclosure.names ++ openings.map Opening.names) :
    (ctx.methods parent).Agrees (Enclosure.ofClass parent ++ os) openings' := by
  have hone (x name : String) : ((∅ : Scope).insert x true).contains name ↔ name ∈ [x] := by
    rw [Scope.contains_insert, List.mem_singleton]
    simp
  rw [h.openings, ← List.map_append] at hopenings
  cases parent with
  | none => exact ⟨.cons (hone "this") h.scopes, h.function, rfl, hopenings⟩
  | some ref =>
    exact ⟨.cons (hone "this") (.cons (hone "parent") h.scopes), h.function, rfl, hopenings⟩

end Context.Agrees

section
variable {N : Token → Prop} {program : Program} {ctx : Context} {openings : List Opening}

/-- A node is at a place of the program, with the surroundings of that place. Consecutive statements
are so if each of them is. -/
def Node.Placed (program : Program) (ctx : Context) (openings : List Opening) : Node → Prop
  | expression _ e => ∃ os, Stands program os (.expression e) ∧ ctx.Agrees os openings
  | statement s => ∃ os, Stands program os (.statement s) ∧ (ctx.after s).Agrees os openings
  | statements ss => ∀ before s after, ss = before ++ s :: after →
    ∃ os, Stands program os (.statement s) ∧
      ((before.foldl Context.after ctx).after s).Agrees os openings
  | function kind decl => ∃ os isMethod, Stands program os (.function isMethod decl) ∧
    ctx.Agrees os openings ∧ kind = .ofFunction isMethod decl.name

/-- Resolution comes to places of the program only. -/
theorem Visits.placed {node : Node} (h : Visits program node ctx openings)
    (hprogram : Stmt.AllSpelled N program) : node.Placed program ctx openings := by
  induction h with
  | program =>
    rintro before s after rfl
    refine ⟨[], .program (by simp), ?_⟩
    rw [Context.foldl_after_outermost, Program.after_outermost]
    exact .outermost
  | @first s rest _ _ _ ih => exact ih [] s rest rfl
  | @rest s rest _ _ _ ih =>
    rintro before s' after rfl
    exact ih (s :: before) s' after rfl
  | value _ ih | printed _ ih | condition _ ih | loopCondition _ ih | givenBack _ ih
  | heritage _ ih =>
    obtain ⟨os, hstands, hagrees⟩ := ih
    exact ⟨os, hstands.expression List.mem_cons_self, hagrees⟩
  | initial _ ih =>
    obtain ⟨os, hstands, hagrees⟩ := ih
    exact ⟨os, hstands.expression List.mem_cons_self, hagrees.declare⟩
  | block _ ih =>
    rintro before s after rfl
    obtain ⟨os, hstands, hagrees⟩ := ih
    exact ⟨_, hstands.block, Context.Agrees.block hagrees⟩
  | whenTrue hvisits ih =>
    obtain ⟨os, hstands, hagrees⟩ := ih
    have hnone := (hvisits.spelled hprogram).whenTrue
    exact ⟨os, hstands.whenTrue, (Context.after_of_not_declared hnone).symm ▸ hagrees⟩
  | whenFalse hvisits ih =>
    obtain ⟨os, hstands, hagrees⟩ := ih
    have hnone := (hvisits.spelled hprogram).2.2.2
    exact ⟨os, hstands.whenFalse, (Context.after_of_not_declared hnone).symm ▸ hagrees⟩
  | loopBody hvisits ih =>
    obtain ⟨os, hstands, hagrees⟩ := ih
    have hnone := (hvisits.spelled hprogram).2.2
    exact ⟨os, hstands.loopBody, (Context.after_of_not_declared hnone).symm ▸ hagrees⟩
  | function _ ih =>
    obtain ⟨os, hstands, hagrees⟩ := ih
    exact ⟨os, false, hstands.function, hagrees, rfl⟩
  | @body kind decl _ _ _ ih =>
    obtain ⟨name, params, body⟩ := decl
    obtain ⟨os, isMethod, hstands, hagrees, rfl⟩ := ih
    rintro before s after rfl
    exact ⟨_, hstands.body, hagrees.body⟩
  | method _ hdecl ih =>
    obtain ⟨os, hstands, hagrees⟩ := ih
    exact ⟨_, true, hstands.method hdecl, hagrees.methods none rfl, rfl⟩
  | inheritingMethod _ hdecl ih =>
    obtain ⟨os, hstands, hagrees⟩ := ih
    exact ⟨_, true, hstands.method hdecl, hagrees.methods (some _) rfl, rfl⟩
  | inside _ he ih =>
    obtain ⟨os, hstands, hagrees⟩ := ih
    exact ⟨os, hstands.inside he, hagrees⟩

/-- Resolution comes past the statements before one to that one. -/
theorem Visits.past {before after : List Stmt} {s : Stmt}
    (h : Visits program (.statements (before ++ s :: after)) ctx openings) :
    Visits program (.statement s) (before.foldl Context.after ctx) openings := by
  induction before generalizing ctx with
  | nil => exact h.first
  | cons _ _ ih => exact ih h.rest

/-- Resolution comes to a part of the program with the surroundings of its place. -/
def Part.Visited (program : Program) (os : List Enclosure) : Part → Prop
  | statement s => ∃ ctx openings, Visits program (.statement s) ctx openings ∧
    (ctx.after s).Agrees os openings
  | function isMethod decl => ∃ ctx openings,
    Visits program (.function (.ofFunction isMethod decl.name) decl) ctx openings ∧
      ctx.Agrees os openings
  | expression e => ∃ underway ctx openings, Visits program (.expression underway e) ctx openings ∧
    ctx.Agrees os openings

/-- Resolution comes to every place of the program. -/
theorem Stands.visited {os : List Enclosure} {part : Part} (h : Stands program os part)
    (hprogram : Stmt.AllSpelled N program) : part.Visited program os := by
  induction h with
  | @program s hs =>
    obtain ⟨before, after, rfl⟩ := List.append_of_mem hs
    refine ⟨_, _, Visits.program.past, ?_⟩
    rw [Context.foldl_after_outermost, Program.after_outermost]
    exact .outermost
  | block _ ih =>
    obtain ⟨ctx, openings, hvisits, hagrees⟩ := ih
    exact ⟨_, _, hvisits.block.past, Context.Agrees.block hagrees⟩
  | whenTrue _ ih =>
    obtain ⟨ctx, openings, hvisits, hagrees⟩ := ih
    have hnone := (hvisits.spelled hprogram).whenTrue
    exact ⟨ctx, openings, hvisits.whenTrue, (Context.after_of_not_declared hnone).symm ▸ hagrees⟩
  | whenFalse _ ih =>
    obtain ⟨ctx, openings, hvisits, hagrees⟩ := ih
    have hnone := (hvisits.spelled hprogram).2.2.2
    exact ⟨ctx, openings, hvisits.whenFalse, (Context.after_of_not_declared hnone).symm ▸ hagrees⟩
  | loopBody _ ih =>
    obtain ⟨ctx, openings, hvisits, hagrees⟩ := ih
    have hnone := (hvisits.spelled hprogram).2.2
    exact ⟨ctx, openings, hvisits.loopBody, (Context.after_of_not_declared hnone).symm ▸ hagrees⟩
  | function _ ih =>
    obtain ⟨ctx, openings, hvisits, hagrees⟩ := ih
    exact ⟨_, openings, hvisits.function, hagrees⟩
  | @method _ _ parent _ _ _ hdecl ih =>
    obtain ⟨ctx, openings, hvisits, hagrees⟩ := ih
    cases parent with
    | none => exact ⟨_, _, hvisits.method hdecl, hagrees.methods none rfl⟩
    | some ref => exact ⟨_, _, hvisits.inheritingMethod hdecl, hagrees.methods (some ref) rfl⟩
  | body _ ih =>
    obtain ⟨ctx, openings, hvisits, hagrees⟩ := ih
    exact ⟨_, _, hvisits.body.past, hagrees.body⟩
  | @expression _ s e _ he ih =>
    obtain ⟨ctx, openings, hvisits, hagrees⟩ := ih
    cases s with
    | expression value =>
      obtain rfl := List.mem_singleton.mp he
      exact ⟨_, ctx, openings, hvisits.value, hagrees⟩
    | print value =>
      obtain rfl := List.mem_singleton.mp he
      exact ⟨_, ctx, openings, hvisits.printed, hagrees⟩
    | var name initial =>
      obtain rfl := Option.mem_toList.mp he
      exact ⟨_, _, openings, hvisits.initial, hagrees.declare⟩
    | branch condition whenTrue whenFalse =>
      obtain rfl := List.mem_singleton.mp he
      exact ⟨_, ctx, openings, hvisits.condition, hagrees⟩
    | loop condition body =>
      obtain rfl := List.mem_singleton.mp he
      exact ⟨_, ctx, openings, hvisits.loopCondition, hagrees⟩
    | giveBack keyword value =>
      obtain rfl := Option.mem_toList.mp he
      exact ⟨_, ctx, openings, hvisits.givenBack, hagrees⟩
    | classDecl name parent methods =>
      obtain ⟨ref, rfl, rfl⟩ := Option.map_eq_some_iff.mp (Option.mem_toList.mp he)
      exact ⟨_, _, openings, hvisits.heritage, hagrees⟩
    | block | function => cases he
  | inside _ he ih =>
    obtain ⟨underway, ctx, openings, hvisits, hagrees⟩ := ih
    exact ⟨underway, ctx, openings, hvisits.inside he, hagrees⟩

end

end Treewalk
