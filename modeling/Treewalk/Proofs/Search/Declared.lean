import Treewalk.Proofs.Resolution.Correctness
import Treewalk.Proofs.Search.Access
import Treewalk.Proofs.Session.Confinement

/-! Names that are declared before they are used. Where every local name is used only behind the end of
its declaration, searching for names from the active frame outward finds what their distances say, at
every moment of every run: no nearer frame ever binds the name. -/

namespace Treewalk

/-- The names whose declarations end before what is inside the statement: the name of a function or of a
class is complete there, and that of a variable is not. -/
def Stmt.innerNames : Stmt → List String
  | .var _ _ => []
  | s => Stmt.names [s]

/-- The names whose declarations have ended at the place. -/
def Enclosure.complete : Enclosure → List String
  | block before here _ => Stmt.names before ++ here.innerNames
  | function _ _ params before here _ =>
    params.map (·.lexeme) ++ (Stmt.names before ++ here.innerNames)
  | receiver _ => ["this"]
  | parent => ["parent"]

/-- The variable that an expression reads or writes to. -/
def Expr.named? : Expr → Option Reference
  | .variable ref | .assign ref _ => some ref
  | _ => none

/-- No local name is used before its declaration has ended. -/
def Program.DeclaredFirst (program : Program) : Prop :=
  ∀ os e ref, Stands program os (.expression e) → e.named? = some ref →
    ∀ o ∈ os, ref.name.lexeme ∈ o.names → ref.name.lexeme ∈ o.complete

theorem Enclosure.inForce_of_complete {o : Enclosure} {name : String} (h : name ∈ o.complete) :
    name ∈ o.inForce := by
  have hinner (before : List Stmt) (s : Stmt) (h : name ∈ Stmt.names before ++ s.innerNames) :
      name ∈ Stmt.names (before ++ [s]) := by
    rw [Stmt.names, List.filterMap_append]
    obtain h | h := List.mem_append.mp h
    · exact List.mem_append_left _ h
    · cases s with
      | var => cases h
      | _ => exact List.mem_append_right _ h
  cases o with
  | block before here after => exact hinner before here h
  | function isMethod x params before here after =>
    obtain h | h := List.mem_append.mp h
    · exact List.mem_append_left _ h
    · exact List.mem_append_right _ (hinner before here h)
  | receiver | parent => exact h

/-- The nearest frame that binds a name is the one at its distance, and without a distance the global
one, if no scope around declares the name later. -/
theorem Fits.holder?_eq {W : World} {s : Store} {except : Option String} {f : FrameId}
    {scopes : List Scope} {openings : List Opening} {os : List Enclosure} {name : String}
    (h : Fits W s except f scopes openings) (hforce : InForce scopes os)
    (hnames : openings.map Opening.names = os.map Enclosure.names)
    (hconfined : ∀ frame o, W.made frame o → (s.binding? frame name).isSome → name ∈ o.names)
    (hfirst : ∀ o ∈ os, name ∈ o.names → name ∈ o.inForce)
    (hexcept : except = some name → scopes = []) :
    s.holder? f name = match scopes.findIdx? (·.contains name) with
      | some d => s.ancestor? f d
      | none => s.holder? W.globals name := by
  induction h generalizing os with
  | globals => rfl
  | @frame except f p scope outer o openings hmade hbound henclosing _ ih =>
    obtain ⟨e, os, hinner, houter, rfl⟩ := List.forall₂_cons_left_iff.mp hforce
    obtain ⟨hhead, hrest⟩ := List.cons.inj hnames
    rw [List.findIdx?_cons]
    cases hcontains : scope.contains name with
    | true =>
      have hf : (s.binding? f name).isSome :=
        hbound name hcontains fun heq => List.cons_ne_nil _ _ (hexcept heq)
      rw [Store.holder?_of_bound hf]
      simp [Store.ancestor?, Store.lt_size_of_enclosing? henclosing]
    | false =>
      have hf : ¬(s.binding? f name).isSome := fun hf => by
        have hname := hfirst e List.mem_cons_self (hhead ▸ hconfined f o hmade hf)
        rw [(hinner name).mpr hname] at hcontains
        cases hcontains
      rw [Store.holder?_of_enclosing? hf henclosing,
        ih houter hrest (fun o ho => hfirst o (List.mem_cons_of_mem _ ho)) (absurd · (by simp))]
      cases outer.findIdx? (·.contains name) with
      | none => rfl
      | some d => simp [Store.ancestor?, henclosing]

section
variable {N : Token → Prop} {program : Program} {os : List Enclosure} {part : Part} {e e' : Expr}
  {x : Token} {name : String}

def Part.Spelled (N : Token → Prop) : Part → Prop
  | statement s => s.Spelled N
  | function _ decl => decl.Spelled N
  | expression e => e.Spelled N

/-- The tokens in a part of a program are of the right classes. -/
theorem Stands.spelled (h : Stands program os part) (hprogram : Stmt.AllSpelled N program) :
    part.Spelled N := by
  have hvisited := h.visited hprogram
  cases part with
  | expression e =>
    obtain ⟨_, _, _, hvisits, -⟩ := hvisited
    exact hvisits.spelled hprogram
  | _ =>
    obtain ⟨_, _, hvisits, -⟩ := hvisited
    exact hvisits.spelled hprogram

/-- What stands in an expression stands where the expression does. -/
theorem Expr.Contains.stands (h : e.Contains e') (he : Stands program os (.expression e)) :
    Stands program os (.expression e') := by
  induction h with
  | self => exact he
  | inside _ hchild ih => exact ih.inside hchild

/-- Statements declare names only. -/
theorem Stmt.AllSpelled.of_mem_names {ss : List Stmt} (h : Stmt.AllSpelled N ss)
    (hname : name ∈ Stmt.names ss) : ∃ x : Token, N x ∧ x.lexeme = name := by
  induction ss with
  | nil => cases hname
  | cons s rest ih =>
    rw [Stmt.names_cons] at hname
    obtain hname | hname := List.mem_append.mp hname
    · obtain ⟨s', hs', x, hx, rfl⟩ := Stmt.mem_names.mp hname
      obtain rfl := List.mem_singleton.mp hs'
      exact ⟨x, h.1.declared hx, rfl⟩
    · exact ih h.2 hname

/-- Only the scope for a receiver declares `this`. -/
theorem Stands.this_inForce (h : Stands program os part)
    (hprogram : Stmt.AllSpelled Token.IsName program) :
    ∀ o ∈ os, "this" ∈ o.names → "this" ∈ o.inForce := by
  induction h with
  | program => rintro o ⟨⟩
  | block h ih =>
    refine List.forall_mem_cons.mpr ⟨fun hname => ?_, ih⟩
    obtain ⟨x, hx, heq⟩ := Stmt.AllSpelled.of_mem_names (h.spelled hprogram) hname
    exact absurd heq hx.ne_this
  | body h ih =>
    refine List.forall_mem_cons.mpr ⟨fun hname => ?_, ih⟩
    obtain ⟨-, hparams, hbody⟩ := FunctionDecl.spelled_iff.mp (h.spelled hprogram)
    obtain hname | hname := List.mem_append.mp hname
    · obtain ⟨p, hp, heq⟩ := List.mem_map.mp hname
      exact absurd heq (hparams p hp).ne_this
    · obtain ⟨x, hx, heq⟩ := hbody.of_mem_names hname
      exact absurd heq hx.ne_this
  | @method _ _ parent _ _ _ _ ih =>
    cases parent with
    | none => exact List.forall_mem_cons.mpr ⟨id, ih⟩
    | some ref => exact List.forall_mem_cons.mpr ⟨id, List.forall_mem_cons.mpr ⟨id, ih⟩⟩
  | whenTrue _ ih | whenFalse _ ih | loopBody _ ih | function _ ih | expression _ _ ih
  | inside _ _ ih => exact ih

/-- While its initial value is evaluated, the declaration of a variable has not ended. -/
theorem Stands.pending {o : Enclosure} {initial : Expr}
    (h : Stands program (o :: os) (.statement (.var x (some initial))))
    (hprogram : Stmt.AllSpelled N program) (hscoped : program.WellScoped) :
    x.lexeme ∈ o.names ∧ x.lexeme ∉ o.complete := by
  have hnames (before after : List Stmt) : Stmt.names (before ++ .var x (some initial) :: after) =
      Stmt.names before ++ x.lexeme :: Stmt.names after := by
    simp [Stmt.names, Stmt.declared?]
  generalize hos : o :: os = os', hpart : Part.statement (.var x (some initial)) = part at h
  cases h with
  | @block _ before s after h =>
    cases hos
    cases hpart
    have hnodup := hscoped.blocks h
    rw [hnames] at hnodup
    refine ⟨by simp [Enclosure.names, hnames], fun hcomplete => ?_⟩
    have hbefore : x.lexeme ∈ Stmt.names before := by
      simpa [Enclosure.complete, Stmt.innerNames] using hcomplete
    exact (List.nodup_append.mp hnodup).2.2 _ hbefore _ List.mem_cons_self rfl
  | @body _ isMethod f params before s after h =>
    cases hos
    cases hpart
    have hnodup := hscoped.functions h
    rw [hnames, ← List.append_assoc] at hnodup
    refine ⟨by simp [Enclosure.names, hnames], fun hcomplete => ?_⟩
    have hbefore : x.lexeme ∈ params.map (·.lexeme) ++ Stmt.names before := by
      simpa [Enclosure.complete, Stmt.innerNames] using hcomplete
    exact (List.nodup_append.mp hnodup).2.2 _ hbefore _ List.mem_cons_self rfl
  | whenTrue h =>
    cases hpart
    cases (h.spelled hprogram).whenTrue
  | whenFalse h =>
    cases hpart
    cases (h.spelled hprogram).2.2.2
  | loopBody h =>
    cases hpart
    cases (h.spelled hprogram).2.2
  | program => cases hos
  | _ => cases hpart

end

/-- The frames of a world bind only the names of what they were made for. -/
def Store.Confined (W : World) (s : Store) : Prop :=
  ∀ frame o, W.made frame o → ∀ name, (s.binding? frame name).isSome → name ∈ o.names

/-- The value of an occurrence stands where the occurrence is written to. -/
theorem Machine.value?_eq (m : Machine) (ref : Reference) :
    m.value? ref = (m.target? ref).bind (m.store.binding? · ref.name.lexeme) := by
  unfold value? target?
  cases m.distances[ref.id]? <;> rfl

/-- Where the search finds the frame that an occurrence is written to, it finds the value as well. -/
theorem Access.bySearch_value? {m : Machine} {ref : Reference}
    (h : bySearch.target? m ref = m.target? ref) : bySearch.value? m ref = m.value? ref := by
  rw [Machine.value?_eq, ← h]
  rfl

section
variable {W : World} {m : Machine} {program : Program} {ctx : Context} {openings : List Opening}
  {underway : Option String} {e : Expr} {ref : Reference}

/-- No name that is not yet declared is written to or read, if names are declared first; so the name
of a local variable is not used in its initial value. -/
theorem Visits.outermost_of_underway
    (h : Visits program (.expression underway e) ctx openings)
    (hspelled : Stmt.AllSpelled Token.IsName program) (hscoped : program.WellScoped)
    (hfirst : program.DeclaredFirst) (hnamed : e.named? = some ref)
    (hordinary : ∀ ref, e ≠ .variable ref) (hunderway : underway = some ref.name.lexeme) :
    ctx.scopes = [] := by
  subst hunderway
  obtain ⟨os, x, initial, hstands, hx, hcontains, hagrees⟩ | ⟨_, _, ref', _, _, _, heq⟩ :=
    h.underway hspelled
  · cases os with
    | nil => exact List.forall₂_nil_right_iff.mp hagrees.scopes
    | cons o os =>
      obtain ⟨hname, hpending⟩ := hstands.pending hspelled hscoped
      have hplace := hcontains.stands (hstands.expression List.mem_cons_self)
      have hcomplete := hfirst _ e ref hplace hnamed o List.mem_cons_self (hx ▸ hname)
      exact absurd (hx ▸ hcomplete) hpending
  · exact absurd heq (hordinary ref')

/-- The search for a name and its distance lead to one frame, if no scope around declares the name
later. -/
theorem Fits.target?_eq {os : List Enclosure} (hm : m.Sound W)
    (hfits : Fits W m.store underway m.active ctx.scopes openings)
    (hdistance : W.distances[ref.id]? = ctx.distance? ref.name.lexeme)
    (hagrees : ctx.Agrees os openings)
    (hconfined : m.store.Confined W)
    (hfirst : ∀ o ∈ os, ref.name.lexeme ∈ o.names → ref.name.lexeme ∈ o.inForce)
    (hunderway : underway = some ref.name.lexeme → ctx.scopes = []) :
    Access.bySearch.target? m ref = m.target? ref := by
  have hholder := hfits.holder?_eq hagrees.scopes hagrees.openings
    (fun frame o hmade => hconfined frame o hmade _) hfirst hunderway
  rw [Machine.target?, hm.distances, hdistance, hm.globals]
  exact hholder

/-- In a program whose names are declared first, the search finds a variable at its distance. -/
theorem Machine.At.bySearch_variable (h : m.At W (.expression underway (.variable ref)))
    (hW : W.Accepted) (hm : m.Sound W) (hfirst : ∀ p ∈ W.programs, p.DeclaredFirst)
    (hconfined : m.store.Confined W) : Access.bySearch.target? m ref = m.target? ref := by
  obtain ⟨p, hp, ctx, openings, hvisits, hfits⟩ := h
  obtain ⟨os, hstands, hagrees⟩ := hvisits.placed (hW.spelled p hp)
  refine hfits.target?_eq hm (hvisits.read (hW.resolved p hp)).1 hagrees hconfined
    (fun o ho hname => ?_) fun hunderway => ?_
  · exact Enclosure.inForce_of_complete (hfirst p hp _ _ _ hstands rfl o ho hname)
  · exact absurd hunderway (hvisits.ownInitializer (hW.resolved p hp))

/-- So it does with a variable that is written to. -/
theorem Machine.At.bySearch_assign (h : m.At W (.expression underway (.assign ref e)))
    (hW : W.Accepted) (hm : m.Sound W) (hfirst : ∀ p ∈ W.programs, p.DeclaredFirst)
    (hconfined : m.store.Confined W) : Access.bySearch.target? m ref = m.target? ref := by
  obtain ⟨p, hp, ctx, openings, hvisits, hfits⟩ := h
  obtain ⟨os, hstands, hagrees⟩ := hvisits.placed (hW.spelled p hp)
  have hscoped := Program.wellScoped_of_resolved (hW.resolved p hp) (hW.spelled p hp)
  refine hfits.target?_eq hm (hvisits.assigned (hW.resolved p hp)) hagrees hconfined
    (fun o ho hname => ?_) fun hunderway => ?_
  · exact Enclosure.inForce_of_complete (hfirst p hp _ _ _ hstands rfl o ho hname)
  · exact hvisits.outermost_of_underway (hW.spelled p hp) hscoped (hfirst p hp) rfl nofun hunderway

/-- In every program the search finds `this` at its distance. -/
theorem Machine.At.bySearch_this (h : m.At W (.expression underway (.this ref)))
    (hW : W.Accepted) (hm : m.Sound W) (hconfined : m.store.Confined W) :
    Access.bySearch.target? m ref = m.target? ref := by
  obtain ⟨p, hp, ctx, openings, hvisits, hfits⟩ := h
  obtain ⟨os, hstands, hagrees⟩ := hvisits.placed (hW.spelled p hp)
  obtain ⟨hname, d, hd, hdistance⟩ := hvisits.this (hW.resolved p hp) (hW.spelled p hp)
  refine hfits.target?_eq hm (by rw [hd, hname, hdistance]) hagrees hconfined ?_ fun hunderway => ?_
  · rw [hname]
    exact hstands.this_inForce (hW.spelled p hp)
  · have hunderway : underway = some ref.name.lexeme := hunderway
    exact absurd hname ((hunderway ▸ hvisits).ordinary (hW.spelled p hp)).1

end

namespace History

variable {sink : Sink} {time : Nat → Float} {h : History} {depth : Nat} {source : String}
  {program : Program} {t : Task} {m : Machine}

/-- At every moment of every run, the search finds what the evaluator does, if all programs that were
accepted declare names first. -/
theorem Passes.agreesAt_bySearch (hpasses : h.Passes sink time t m)
    (hfirst : ∀ p ∈ h.programs sink time, p.DeclaredFirst) : Access.bySearch.AgreesAt m t := by
  obtain ⟨W, hW, hextends, hm, ht⟩ := hpasses.fitting
  obtain ⟨cs, hcs⟩ := exists_chronicle sink time h
  obtain ⟨i, -, hstage⟩ := hcs.passes hpasses
  have hconfined : m.store.Confined W := fun frame o hmade name hbound =>
    hcs.confined (hextends.made frame o hmade) i name (hstage ▸ hbound)
  have hfirst (p : Program) (hp : p ∈ W.programs) : p.DeclaredFirst :=
    hfirst p (hextends.programs p hp)
  unfold Access.AgreesAt
  split
  · obtain ⟨underway, hat⟩ := ht
    exact Access.bySearch_value? (hat.bySearch_variable hW hm hfirst hconfined)
  · obtain ⟨underway, hat⟩ := ht
    exact Access.bySearch_value? (hat.bySearch_this hW hm hconfined)
  · obtain ⟨⟨underway, hat⟩, -⟩ := ht
    exact hat.bySearch_assign hW hm hfirst hconfined
  · trivial

/-- If no local name is used before its declaration has ended, neither in a program nor in those that
the session accepted before it, then the program runs alike whether names are found at their distances
or searched for from the active frame outward: with the same report and to the same session, in its
output and its globals as in everything else. -/
theorem search_agrees_with_distances
    (haccepted : (h.session sink time).accepted? source = some program)
    (hprogram : program.DeclaredFirst)
    (hearlier : ∀ p ∈ h.programs sink time, p.DeclaredFirst) (depth : Nat) :
    (h.session sink time).runWithinBy .bySearch depth (.reading time) source =
      (h.session sink time).runWithin depth (.reading time) source := by
  refine Session.runWithinBy_eq fun p hp => Access.interpret_eq fun t m hpasses => ?_
  cases haccepted.symm.trans hp
  have hrun : Passes sink time ((depth, source) :: h) t m := .inl ⟨program, haccepted, hpasses⟩
  refine hrun.agreesAt_bySearch fun p hp => ?_
  rw [programs_of_accepted? depth haccepted] at hp
  obtain rfl | hp := List.mem_cons.mp hp
  · exact hprogram
  · exact hearlier p hp

/-- A variable of a block is searched for after its declaration. -/
theorem search_agrees_with_distances_block :
    let source := "\x7b var a = true; print a; \x7d"
    let a : Token := ⟨.identifier, "a", 1⟩
    let declaration : Stmt := .var a (some (.literal (.bool true)))
    let use : Stmt := .print (.variable ⟨0, a⟩)
    let program : Program := [.block [declaration, use]]
    (Session.initial .unbounded).accepted? source = some program ∧ program.DeclaredFirst ∧
      (Session.initial .unbounded).runWithinBy .bySearch 5 (.reading fun _ => 0) source =
        (Session.initial .unbounded).runWithin 5 (.reading fun _ => 0) source := by
  intro source a declaration use program
  have haccepted : (Session.initial .unbounded).accepted? source = some program := by cbv
  let places : List (List Enclosure × Part) :=
    [([], .statement program[0]), ([.block [] declaration [use]], .statement declaration),
      ([.block [declaration] use []], .statement use),
      ([.block [] declaration [use]], .expression (.literal (.bool true))),
      ([.block [declaration] use []], .expression (.variable ⟨0, a⟩))]
  have hplaces {os : List Enclosure} {part : Part} (h : Stands program os part) :
      (os, part) ∈ places := by
    induction h with
    | program hs => simpa [program, places] using hs
    | @block os before s after _ ih =>
      obtain ⟨rfl, hbody⟩ : os = [] ∧ before ++ s :: after = [declaration, use] := by
        simpa [program, places, declaration, use] using ih
      rcases before with _ | ⟨_, _ | ⟨_, _⟩⟩
      · cases hbody
        simp [places]
      · cases hbody
        simp [places]
      · simp at hbody
    | @expression os s e _ he ih =>
      simp only [places, List.mem_cons, Prod.mk.injEq, Part.statement.injEq, reduceCtorEq, and_false,
        List.not_mem_nil, or_false] at ih
      obtain ⟨rfl, rfl⟩ | ⟨rfl, rfl⟩ | ⟨rfl, rfl⟩ := ih
      · cases he
      · rw [List.mem_singleton.mp he]
        simp [places]
      · rw [List.mem_singleton.mp he]
        simp [places]
    | @inside os e e' _ he ih =>
      simp only [places, List.mem_cons, Prod.mk.injEq, Part.expression.injEq, reduceCtorEq, and_false,
        List.not_mem_nil, or_false, false_or] at ih
      obtain ⟨-, rfl⟩ | ⟨-, rfl⟩ := ih <;> cases he
    | _ => simp_all [program, places, declaration, use]
  have hfirst : program.DeclaredFirst := by
    intro os e ref hstands hnamed
    have hplace := hplaces hstands
    simp only [places, List.mem_cons, Prod.mk.injEq, Part.expression.injEq, reduceCtorEq, and_false,
      List.not_mem_nil, or_false, false_or] at hplace
    obtain ⟨rfl, rfl⟩ | ⟨rfl, rfl⟩ := hplace
    · cases hnamed
    · cases hnamed
      simp [Enclosure.complete, declaration, use, Stmt.names, Stmt.declared?]
  have hrun := @search_agrees_with_distances .unbounded (fun _ => 0) [] source program haccepted
    hfirst (by simp [programs]) 5
  exact ⟨haccepted, hfirst, hrun⟩

end History

end Treewalk
