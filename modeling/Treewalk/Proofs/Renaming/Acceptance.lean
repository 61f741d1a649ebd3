import Treewalk.Proofs.Renaming.Scopes

/-! Resolution of a renamed program. In the renamed program, resolution finds what it found in the
accepted one, and the functions and classes that the chosen scope declares had another name. -/

namespace Treewalk

variable {R : Renaming} {k : Option Nat} {ctx ctx' : Context}

/-- If the statement declares the old name, it is a variable. -/
def Stmt.OnlyVariable (R : Renaming) (s : Stmt) : Prop :=
  ∀ x, s.declared? = some x → x.lexeme = R.old → ∃ initial, s = .var x initial

theorem ScopesRenamed.nil_iff {scopes scopes' : List Scope} (h : ScopesRenamed R k scopes scopes') :
    scopes = [] ↔ scopes' = [] := by
  cases h <;> simp

theorem ScopesRenamed.outside {scopes scopes' : List Scope}
    (h : ScopesRenamed R k scopes scopes') (hscopes : scopes = []) : k = none := by
  cases h with
  | nil => rfl
  | cons => cases hscopes

/-- A renamed occurrence is located where the occurrence was. -/
theorem Reference.locate_renamed {ref : Reference} (hctx : ctx.Renamed R k ctx')
    (hunused : R.Unused ref.name) (hd : R.distances[ref.id]? = ctx.distance? ref.name.lexeme) :
    (R.reference k ref).locate ctx' = ref.locate ctx := by
  have hdistance := hctx.distance? hunused
  rw [← hd] at hdistance
  rw [Reference.locate, Renaming.lexeme_reference, hdistance, Renaming.id_reference, hd]
  rfl

/-- `this` and `parent` are located where they were. -/
theorem Reference.locate_word {ref : Reference} (word : Keyword) (hctx : ctx.Renamed R k ctx')
    (hword : ref.name.lexeme = word.spelling) : ref.locate ctx' = ref.locate ctx := by
  have hne : word.spelling ≠ R.new := fun heq => by
    have hfree := R.new_free
    rw [← heq, Keyword.ofSpelling?_spelling] at hfree
    cases hfree
  have hkept (chosen : Bool) : R.disguise.nameIf chosen word.spelling = word.spelling := by
    cases chosen
    · rfl
    · exact Renaming.name_of_spelling word
  have hdistance := hctx.distance? hne
  rw [hkept] at hdistance
  rw [Reference.locate, hword, hdistance, ← hword]
  rfl

/-- A renamed occurrence that is read gives what the occurrence gave. -/
theorem Reference.read_renamed {ref : Reference} {pending pending' : Option String}
    (hctx : ctx.Renamed R k ctx') (hpending : ctx.scopes = [] → pending' = pending)
    (hunused : R.Unused ref.name) (hresolved : Resolved R.distances [ref.id] (ref.read ctx pending)) :
    (R.reference k ref).read ctx' pending' = ref.read ctx pending := by
  obtain ⟨hcomplete, hd⟩ := hresolved.of_read
  have hlocate := Reference.locate_renamed hctx hunused hd
  have hnot := hctx.isPending hunused
  rw [← hd, hcomplete, ← Renaming.lexeme_reference] at hnot
  unfold Reference.read
  rw [hlocate]
  cases hscopes : ctx.scopes with
  | nil =>
    obtain rfl := hctx.scopes.outside hscopes
    rw [hctx.scopes.nil_iff.mp hscopes, hpending hscopes, Renaming.reference_none]
  | cons scope outer =>
    cases hscopes' : ctx'.scopes with
    | nil =>
      rw [hctx.scopes.nil_iff.mpr hscopes'] at hscopes
      cases hscopes
    | cons scope' outer' => simp [hnot, hcomplete]

mutual

/-- In a renamed expression is found what was found before. -/
theorem Expr.findings_rename {pending pending' : Option String} (hctx : ctx.Renamed R k ctx')
    (hpending : ctx.scopes = [] → pending' = pending) :
    (e : Expr) → e.Spelled R.Unused → Resolved R.distances e.ids (e.findings ctx pending) →
      (e.rename R k).findings ctx' pending' = e.findings ctx pending
  | .literal _, _, _ => by
    rw [Expr.rename, Expr.findings, Expr.findings]
  | .unary _ operand, hspelled, h => by
    rw [Expr.rename, Expr.findings, Expr.findings]
    exact operand.findings_rename hctx hpending hspelled.2 (h.child (by simp [Expr.children]))
  | .binary left _ right, hspelled, h => by
    have hleft := left.findings_rename hctx hpending hspelled.2.1 (h.child (by simp [Expr.children]))
    have hright := right.findings_rename hctx hpending hspelled.2.2
      (h.child (by simp [Expr.children]))
    rw [Expr.rename, Expr.findings, Expr.findings, hleft, hright]
  | .logical left _ right, hspelled, h => by
    have hleft := left.findings_rename hctx hpending hspelled.1 (h.child (by simp [Expr.children]))
    have hright := right.findings_rename hctx hpending hspelled.2 (h.child (by simp [Expr.children]))
    rw [Expr.rename, Expr.findings, Expr.findings, hleft, hright]
  | .grouping inner, hspelled, h => by
    rw [Expr.rename, Expr.findings, Expr.findings]
    exact inner.findings_rename hctx hpending hspelled (h.child (by simp [Expr.children]))
  | .variable target, hspelled, h => by
    rw [Expr.rename, Expr.findings, Expr.findings]
    rw [Expr.ids, Expr.findings] at h
    exact Reference.read_renamed hctx hpending hspelled h
  | .assign target value, hspelled, h => by
    have hvalue := value.findings_rename hctx hpending hspelled.2 (h.child (by simp [Expr.children]))
    rw [Expr.ids, Expr.findings] at h
    have hd := (h.right (value.located_findings ctx pending)).distance
    rw [Expr.rename, Expr.findings, Expr.findings, hvalue,
      Reference.locate_renamed hctx hspelled.1 hd]
  | .call callee _ arguments, hspelled, h => by
    have hcallee := callee.findings_rename hctx hpending hspelled.1
      (h.child (by simp [Expr.children]))
    have harguments := Expr.allFindings_rename hctx hpending arguments hspelled.2
      (fun e he => h.child (by simp [Expr.children, he]))
    rw [Expr.rename, Expr.findings, Expr.findings, hcallee, harguments]
  | .get object _, hspelled, h => by
    rw [Expr.rename, Expr.findings, Expr.findings]
    exact object.findings_rename hctx hpending hspelled (h.child (by simp [Expr.children]))
  | .set object _ value, hspelled, h => by
    have hobject := object.findings_rename hctx hpending hspelled.1
      (h.child (by simp [Expr.children]))
    have hvalue := value.findings_rename hctx hpending hspelled.2 (h.child (by simp [Expr.children]))
    rw [Expr.rename, Expr.findings, Expr.findings, hobject, hvalue]
  | .this receiver, hspelled, _ => by
    rw [Expr.rename, Expr.findings, Expr.findings, hctx.classContext,
      Reference.locate_word .thisWord hctx hspelled]
  | .parent keyword _, hspelled, _ => by
    rw [Expr.rename, Expr.findings, Expr.findings, hctx.classContext,
      Reference.locate_word .parentWord hctx hspelled]

theorem Expr.allFindings_rename {pending pending' : Option String} (hctx : ctx.Renamed R k ctx')
    (hpending : ctx.scopes = [] → pending' = pending) :
    (es : List Expr) → Expr.AllSpelled R.Unused es →
      (∀ e ∈ es, Resolved R.distances e.ids (e.findings ctx pending)) →
      Expr.allFindings ctx' pending' (Expr.renameAll R k es) = Expr.allFindings ctx pending es
  | [], _, _ => rfl
  | e :: rest, hspelled, h => by
    obtain ⟨hfirst, hrest⟩ := List.forall_mem_cons.mp h
    rw [Expr.renameAll, Expr.allFindings, Expr.allFindings,
      e.findings_rename hctx hpending hspelled.1 hfirst,
      Expr.allFindings_rename hctx hpending rest hspelled.2 hrest]

end

/-- A renamed declaration clashes with no other one. -/
theorem Token.duplicate_renamed {x : Token} (hctx : ctx.Renamed R k ctx')
    (hnew : ctx.declaresHere x.lexeme = false) :
    (R.declared k x).duplicate ctx' = x.duplicate ctx := by
  have hnew' := hctx.declaresHere x.lexeme
  rw [hnew, ← Renaming.lexeme_declared] at hnew'
  simp [Token.duplicate, hnew, hnew']

/-- The chosen scope keeps the name of a function or a class. -/
theorem Stmt.OnlyVariable.keeps {s : Stmt} {x : Token} (h : s.OnlyVariable R)
    (hx : s.declared? = some x) (hvar : ∀ initial, s ≠ .var x initial) (hunused : R.Unused x) :
    R.Keeps x := by
  refine hunused.keeps fun hold => ?_
  obtain ⟨initial, rfl⟩ := h x hx hold
  exact hvar initial rfl

theorem Renaming.declared_of_keeps {x : Token} (hkeeps : k = some 0 → R.Keeps x) :
    R.declared k x = x := by
  unfold Renaming.declared
  split
  · next hk => rw [Renaming.token, hkeeps hk]
  · rfl

/-- The surroundings are renamed behind a declaration as before it. -/
theorem Context.Renamed.define_declared {x : Token} (hctx : ctx.Renamed R k ctx')
    (hunused : R.Unused x) :
    (ctx.define x.lexeme).Renamed R k (ctx'.define (R.declared k x).lexeme) := by
  rw [Renaming.lexeme_declared]
  exact hctx.define hunused

theorem Context.Renamed.after {s s' : Stmt} (hctx : ctx.Renamed R k ctx')
    (hs : s.Renamed R k s') (hspelled : s.Spelled R.Unused)
    (honly : k = some 0 → s.OnlyVariable R) : (ctx.after s).Renamed R k (ctx'.after s') := by
  have hkept {x : Token} (hx : s.declared? = some x) (hvar : ∀ initial, s ≠ .var x initial)
      (hunused : R.Unused x) : R.declared k x = x :=
    Renaming.declared_of_keeps fun hk => (honly hk).keeps hx hvar hunused
  cases hs with
  | @var _ x initial =>
    have hunused : R.Unused x := by cases initial <;> first | exact hspelled | exact hspelled.1
    exact hctx.define_declared hunused
  | @function _ decl decl' hdecl =>
    have hunused := (FunctionDecl.spelled_iff.mp hspelled).1
    have hdefine := hctx.define_declared hunused
    rw [hkept rfl (by simp) hunused] at hdefine
    show (ctx.define decl.name.lexeme).Renamed R k (ctx'.define decl'.name.lexeme)
    rwa [hdecl.name]
  | classDecl _ =>
    have hdefine := hctx.define_declared hspelled.1
    rwa [hkept rfl (by simp) hspelled.1] at hdefine
  | _ => exact hctx

/-- The scope of a function takes up its renamed parameters. -/
theorem Context.Renamed.body {kind : FunctionContext} {params : List Token} {body : List Stmt}
    {k' : Option Nat} (hctx : ctx.Renamed R k ctx') (hopens : R.Opens params body k k')
    (hunused : ∀ p ∈ params, R.Unused p) :
    (ctx.body kind params).Renamed R k' (ctx'.body kind (params.map (R.declared k'))) := by
  have hstart := (hctx.enter hopens).withFunction kind
  unfold Context.body
  generalize { ctx.enter with function := kind } = inner at hstart
  generalize { ctx'.enter with function := kind } = inner' at hstart
  clear hopens
  induction params generalizing inner inner' with
  | nil => exact hstart
  | cons p rest ih =>
    obtain ⟨hp, hrest⟩ := List.forall_mem_cons.mp hunused
    exact ih hrest _ _ (hstart.define_declared hp)

/-- Nothing is found among renamed parameters where nothing was found before. -/
theorem parameterFindings_renamed {params : List Token} (hctx : ctx.Renamed R k ctx')
    (hunused : ∀ p ∈ params, R.Unused p) (hnone : parameterFindings ctx params = []) :
    parameterFindings ctx' (params.map (R.declared k)) = [] := by
  induction params generalizing ctx ctx' with
  | nil => rfl
  | cons p rest ih =>
    obtain ⟨hp, hrest⟩ := List.forall_mem_cons.mp hunused
    obtain ⟨hduplicate, hlater⟩ := List.append_eq_nil_iff.mp hnone
    have hnew : ctx.declaresHere p.lexeme = false := by
      simpa [Token.duplicate] using hduplicate
    rw [List.map_cons, parameterFindings, Token.duplicate_renamed hctx hnew, hduplicate,
      List.nil_append]
    exact ih (hctx.define_declared hp) hrest hlater

/-- The parent of a renamed class is another one, as it was before. -/
theorem parentFindings_renamed {x : Token} {ref : Reference} (hctx : ctx.Renamed R k ctx')
    (hx : R.Unused x) (hunused : R.Unused ref.name)
    (h : Resolved R.distances [ref.id] (parentFindings ctx x ref)) :
    parentFindings ctx' x (R.reference k ref) = parentFindings ctx x ref := by
  obtain ⟨hne, hread⟩ := h.of_fault
  have hne' : (R.reference k ref).name.lexeme ≠ x.lexeme := by
    unfold Renaming.reference
    split
    · rw [Renaming.token]
      by_cases hold : ref.name.lexeme = R.old
      · rw [hold, Renaming.name_old]
        exact Ne.symm hx
      · rwa [Renaming.name_of_ne hold hunused]
    · exact hne
  rw [parentFindings, parentFindings, if_neg hne, if_neg hne',
    Reference.read_renamed hctx (fun _ => rfl) hunused hread]

theorem parameterFindings_eq_nil {D : Distances} {ids : List NodeId} {fs : List Finding}
    {params : List Token} (h : Resolved D ids (parameterFindings ctx params ++ fs)) :
    parameterFindings ctx params = [] := by
  have hfaults (params : List Token) (ctx : Context) :
      ∀ f ∈ parameterFindings ctx params, ∃ token fault, f = .fault token fault := by
    induction params generalizing ctx with
    | nil => rintro _ ⟨⟩
    | cons p rest ih =>
      intro f hf
      obtain hf | hf := List.mem_append.mp hf
      · unfold Token.duplicate at hf
        split at hf
        · exact ⟨p, .duplicateName, List.mem_singleton.mp hf⟩
        · cases hf
      · exact ih _ f hf
  refine List.eq_nil_iff_forall_not_mem.mpr fun f hf => ?_
  obtain ⟨token, fault, rfl⟩ := hfaults params ctx f hf
  exact h.accepted token fault (List.mem_append_left _ hf)

/-- The distances are those of the program, which is accepted and does not contain the new name. -/
structure Renaming.Suits (R : Renaming) (program : Program) : Prop where
  resolved : Resolved R.distances (Stmt.allIds program) program.findings
  unused : Stmt.AllSpelled R.Unused program

section
variable {program : Program} {os : List Opening}

/-- The chosen scope declares the old name as a variable or a parameter only. -/
theorem Visits.onlyVariable {params : List Token} {body : List Stmt} {k' : Option Nat}
    (hprogram : R.Suits program) (h : Visits program (.statements body) ctx os)
    (hscopes : ctx.scopes ≠ []) (hparams : ∀ p ∈ params, ctx.declaresHere p.lexeme)
    (hopens : R.Opens params body k k')
    (hk : k' = some 0) : ∀ s ∈ body, s.OnlyVariable R := by
  intro s hs x hx hold
  obtain rfl | ⟨-, -, ⟨p, hp, hname⟩ | ⟨y, initial, hy, hname⟩⟩ := hopens
  · cases k <;> cases hk
  · rw [← hname] at hold
    exact absurd hold (h.declared_ne hprogram.resolved (hparams p hp) hs hx)
  · obtain rfl := h.declared_once hprogram.resolved hscopes hy hs hx (by rw [hold, hname])
    cases hx
    exact ⟨initial, rfl⟩

mutual

/-- In a renamed statement is found what was found before. -/
theorem Stmt.findings_renamed (hprogram : R.Suits program) :
    (s : Stmt) → {k : Option Nat} → {s' : Stmt} → {ctx ctx' : Context} → {os : List Opening} →
      Visits program (.statement s) ctx os → ctx.Renamed R k ctx' → s.Renamed R k s' →
      (k = some 0 → s.OnlyVariable R) →
      s'.findings ctx' = s.findings ctx ∧ s.Like R.disguise k s'
  | .expression value, _, _, ctx, ctx', _, h, hctx, hs, _ => by
    cases hs
    refine ⟨?_, .expression value.like_rename⟩
    rw [Stmt.findings, Stmt.findings]
    exact value.findings_rename hctx (fun _ => rfl) (h.value.spelled hprogram.unused)
      (h.value.resolved hprogram.resolved)
  | .print value, _, _, ctx, ctx', _, h, hctx, hs, _ => by
    cases hs
    refine ⟨?_, .print value.like_rename⟩
    rw [Stmt.findings, Stmt.findings]
    exact value.findings_rename hctx (fun _ => rfl) (h.printed.spelled hprogram.unused)
      (h.printed.resolved hprogram.resolved)
  | .var x none, k, _, ctx, ctx', _, h, hctx, hs, _ => by
    cases hs
    refine ⟨?_, .var (Renaming.named_declared k x) .none⟩
    rw [Option.map_none, Stmt.findings, Stmt.findings]
    exact Token.duplicate_renamed hctx (h.undeclared hprogram.resolved rfl)
  | .var x (some initial), k, _, ctx, ctx', _, h, hctx, hs, _ => by
    cases hs
    refine ⟨?_, .var (Renaming.named_declared k x) (.some initial.like_rename)⟩
    have hunused : R.Unused x := (h.spelled hprogram.unused).1
    have hinner : (ctx.declare x.lexeme).Renamed R k (ctx'.declare (R.declared k x).lexeme) := by
      rw [Renaming.lexeme_declared]
      exact hctx.declare hunused
    have hpending (hscopes : (ctx.declare x.lexeme).scopes = []) :
        some (R.declared k x).lexeme = some x.lexeme := by
      obtain rfl := hinner.scopes.outside hscopes
      rfl
    have hinitial := initial.findings_rename hinner hpending (h.initial.spelled hprogram.unused)
      (h.initial.resolved hprogram.resolved)
    rw [Option.map_some, Stmt.findings, Stmt.findings, hinitial,
      Token.duplicate_renamed hctx (h.undeclared hprogram.resolved rfl)]
  | .block body, _, _, ctx, ctx', _, h, hctx, hs, _ => by
    cases hs with
    | block hopens hbody =>
      have honly := h.block.onlyVariable hprogram (by simp [Context.enter]) (by simp) hopens
      obtain ⟨hfindings, hlike⟩ :=
        Stmt.allFindings_renamed hprogram body h.block (hctx.enter hopens) hbody honly
      rw [Stmt.findings, Stmt.findings]
      exact ⟨hfindings, .block hopens.inward hlike⟩
  | .branch condition whenTrue none, _, _, ctx, ctx', _, h, hctx, hs, _ => by
    cases hs with
    | branch htrue =>
      obtain ⟨-, -, hnone⟩ := h.spelled hprogram.unused
      have hcondition := condition.findings_rename hctx (fun _ => rfl)
        (h.condition.spelled hprogram.unused) (h.condition.resolved hprogram.resolved)
      obtain ⟨hfindings, hlike⟩ := Stmt.findings_renamed hprogram whenTrue h.whenTrue hctx htrue
        (fun _ => by simp [Stmt.OnlyVariable, hnone])
      rw [Stmt.findings, Stmt.findings, hcondition, hfindings]
      exact ⟨rfl, .branch condition.like_rename hlike⟩
  | .branch condition whenTrue (some whenFalse), _, _, ctx, ctx', _, h, hctx, hs, _ => by
    cases hs with
    | branchElse htrue hfalse =>
      obtain ⟨-, ⟨-, hnone⟩, -, hnone'⟩ := h.spelled hprogram.unused
      have hcondition := condition.findings_rename hctx (fun _ => rfl)
        (h.condition.spelled hprogram.unused) (h.condition.resolved hprogram.resolved)
      obtain ⟨hfindings, hlike⟩ := Stmt.findings_renamed hprogram whenTrue h.whenTrue hctx htrue
        (fun _ => by simp [Stmt.OnlyVariable, hnone])
      obtain ⟨hfindings', hlike'⟩ := Stmt.findings_renamed hprogram whenFalse h.whenFalse hctx hfalse
        (fun _ => by simp [Stmt.OnlyVariable, hnone'])
      rw [Stmt.findings, Stmt.findings, hcondition, hfindings, hfindings']
      exact ⟨rfl, .branchElse condition.like_rename hlike hlike'⟩
  | .loop condition body, _, _, ctx, ctx', _, h, hctx, hs, _ => by
    cases hs with
    | loop hbody =>
      obtain ⟨-, -, hnone⟩ := h.spelled hprogram.unused
      have hcondition := condition.findings_rename hctx (fun _ => rfl)
        (h.loopCondition.spelled hprogram.unused) (h.loopCondition.resolved hprogram.resolved)
      obtain ⟨hfindings, hlike⟩ := Stmt.findings_renamed hprogram body h.loopBody hctx hbody
        (fun _ => by simp [Stmt.OnlyVariable, hnone])
      rw [Stmt.findings, Stmt.findings, hcondition, hfindings]
      exact ⟨rfl, .loop condition.like_rename hlike⟩
  | .function decl, k, _, ctx, ctx', _, h, hctx, hs, honly => by
    have hafter := hctx.after hs (h.spelled hprogram.unused) honly
    cases hs with
    | @function _ _ decl' hdecl =>
      have hunused : R.Unused decl.name :=
        (FunctionDecl.spelled_iff.mp (h.function.spelled hprogram.unused)).1
      have hkeeps (hk : k = some 0) : R.Keeps decl.name := (honly hk).keeps rfl (by simp) hunused
      have hduplicate := Token.duplicate_renamed hctx (h.undeclared hprogram.resolved rfl)
      rw [Renaming.declared_of_keeps hkeeps] at hduplicate
      have hdefine : (ctx.define decl.name.lexeme).Renamed R k (ctx'.define decl'.name.lexeme) :=
        hafter
      rw [hdecl.name] at hdefine
      obtain ⟨hfindings, hlike⟩ :=
        FunctionDecl.findings_renamed hprogram decl h.function hdefine hdecl
      rw [Stmt.findings, Stmt.findings, hdecl.name, hduplicate, hfindings]
      exact ⟨rfl, .function hkeeps hlike⟩
  | .giveBack keyword value, _, _, ctx, ctx', _, h, hctx, hs, _ => by
    cases hs
    unfold Stmt.findings
    rw [hctx.function]
    cases value with
    | none => exact ⟨rfl, .giveBack rfl .none⟩
    | some value =>
      have hvalue := value.findings_rename hctx (fun _ => rfl)
        (h.givenBack.spelled hprogram.unused) (h.givenBack.resolved hprogram.resolved)
      rw [Option.map_some]
      dsimp only
      rw [hvalue]
      exact ⟨rfl, .giveBack rfl (.some value.like_rename)⟩
  | .classDecl x parent methods, k, _, ctx, ctx', _, h, hctx, hs, honly => by
    have hafter := hctx.after hs (h.spelled hprogram.unused) honly
    cases hs with
    | classDecl hmethods =>
      have hunused : R.Unused x := (h.spelled hprogram.unused).1
      have hkeeps (hk : k = some 0) : R.Keeps x := (honly hk).keeps rfl (by simp) hunused
      have hduplicate := Token.duplicate_renamed hctx (h.undeclared hprogram.resolved rfl)
      rw [Renaming.declared_of_keeps hkeeps] at hduplicate
      have hdefine : (ctx.define x.lexeme).Renamed R k (ctx'.define x.lexeme) := hafter
      obtain ⟨os', hvisits⟩ : ∃ os', ∀ decl ∈ methods, Visits program
          (.function (.ofMethod decl.name) decl) ((ctx.define x.lexeme).methods parent) os' := by
        cases parent with
        | none => exact ⟨_, fun _ hdecl => h.method hdecl⟩
        | some ref => exact ⟨_, fun _ hdecl => h.inheritingMethod hdecl⟩
      obtain ⟨hfindings, hlike⟩ := FunctionDecl.methodFindings_renamed hprogram methods hvisits
        (hdefine.methods parent) hmethods
      unfold Stmt.findings
      dsimp only
      rw [hduplicate, hfindings]
      cases parent with
      | none => exact ⟨rfl, .classDecl hkeeps rfl .none hlike⟩
      | some ref =>
        have hparent := parentFindings_renamed hdefine hunused (h.heritage.spelled hprogram.unused)
          (h.resolved hprogram.resolved).parentClass
        dsimp only [Option.map_some]
        rw [hparent]
        exact ⟨rfl, .classDecl hkeeps rfl (.some (R.refers_reference k ref)) hlike⟩

theorem Stmt.allFindings_renamed (hprogram : R.Suits program) :
    (ss : List Stmt) → {k : Option Nat} → {ss' : List Stmt} → {ctx ctx' : Context} →
      {os : List Opening} → Visits program (.statements ss) ctx os → ctx.Renamed R k ctx' →
      Stmt.AllRenamed R k ss ss' → (k = some 0 → ∀ s ∈ ss, s.OnlyVariable R) →
      Stmt.allFindings ctx' ss' = Stmt.allFindings ctx ss ∧ Stmt.AllLike R.disguise k ss ss'
  | [], _, _, _, _, _, _, _, hss, _ => by
    cases hss
    exact ⟨rfl, .nil⟩
  | s :: rest, k, _, ctx, ctx', _, h, hctx, hss, honly => by
    cases hss with
    | cons hs hrest =>
      have hfirst (hk : k = some 0) := honly hk s List.mem_cons_self
      have hlater (hk : k = some 0) (u : Stmt) (hu : u ∈ rest) :=
        honly hk u (List.mem_cons_of_mem _ hu)
      have hafter := hctx.after hs (h.first.spelled hprogram.unused) hfirst
      obtain ⟨hfindings, hlike⟩ := Stmt.findings_renamed hprogram s h.first hctx hs hfirst
      obtain ⟨hfindings', hlike'⟩ := Stmt.allFindings_renamed hprogram rest h.rest hafter hrest hlater
      rw [Stmt.allFindings, Stmt.allFindings, hfindings, hfindings']
      exact ⟨rfl, .cons hlike hlike'⟩

theorem FunctionDecl.findings_renamed (hprogram : R.Suits program) :
    (decl : FunctionDecl) → {k : Option Nat} → {decl' : FunctionDecl} → {ctx ctx' : Context} →
      {kind : FunctionContext} → {os : List Opening} → Visits program (.function kind decl) ctx os →
      ctx.Renamed R k ctx' → decl.Renamed R k decl' →
      decl'.findings ctx' kind = decl.findings ctx kind ∧ decl.Like R.disguise k decl'
  | ⟨x, params, body⟩, _, _, ctx, ctx', kind, _, h, hctx, hdecl => by
    cases hdecl with
    | @mk _ k' _ _ _ _ hopens hbody =>
      obtain ⟨-, hunused, -⟩ := h.spelled hprogram.unused
      have hnone : parameterFindings ctx.enter params = [] := by
        have hresolved := h.resolved hprogram.resolved
        rw [Node.findings, FunctionDecl.findings] at hresolved
        exact parameterFindings_eq_nil hresolved
      have hparams := parameterFindings_renamed (hctx.enter hopens) hunused hnone
      have honly := h.body.onlyVariable hprogram (by simp [Context.body_scopes_ne_nil])
        (fun p hp => Context.declaresHere_body hp) hopens
      obtain ⟨hfindings, hlike⟩ :=
        Stmt.allFindings_renamed hprogram body h.body (hctx.body hopens hunused) hbody honly
      rw [FunctionDecl.findings, FunctionDecl.findings, hnone, hparams, hfindings]
      refine ⟨rfl, .mk hopens.inward rfl ?_ hlike⟩
      rw [List.forall₂_map_right_iff]
      exact List.forall₂_same.mpr fun p _ => Renaming.named_declared k' p

theorem FunctionDecl.methodFindings_renamed (hprogram : R.Suits program) :
    (decls : List FunctionDecl) → {k : Option Nat} → {decls' : List FunctionDecl} →
      {ctx ctx' : Context} → {os : List Opening} →
      (∀ decl ∈ decls, Visits program (.function (.ofMethod decl.name) decl) ctx os) →
      ctx.Renamed R k ctx' → FunctionDecl.AllRenamed R k decls decls' →
      FunctionDecl.methodFindings ctx' decls' = FunctionDecl.methodFindings ctx decls ∧
        FunctionDecl.AllLike R.disguise k decls decls'
  | [], _, _, _, _, _, _, _, hdecls => by
    cases hdecls
    exact ⟨rfl, .nil⟩
  | decl :: rest, _, _, ctx, ctx', _, h, hctx, hdecls => by
    cases hdecls with
    | cons hdecl hrest =>
      obtain ⟨hfirst, hlater⟩ := List.forall_mem_cons.mp h
      obtain ⟨hfindings, hlike⟩ := FunctionDecl.findings_renamed hprogram decl hfirst hctx hdecl
      obtain ⟨hfindings', hlike'⟩ :=
        FunctionDecl.methodFindings_renamed hprogram rest hlater hctx hrest
      rw [FunctionDecl.methodFindings, FunctionDecl.methodFindings, hdecl.name, hfindings, hfindings']
      exact ⟨rfl, .cons hlike hlike'⟩

end

/-- In a renamed program is found what was found before, and it differs from the program in names
only. -/
theorem Program.findings_renamed {program' : Program} (hprogram : R.Suits program)
    (h : Stmt.AllRenamed R none program program') :
    Program.findings program' = program.findings ∧ Stmt.AllLike R.disguise none program program' :=
  Stmt.allFindings_renamed hprogram program .program .outermost h (by simp)

end

end Treewalk
