import Treewalk.Proofs.Grammar.Deriving
import Treewalk.Proofs.Renaming.Renaming
import Treewalk.Proofs.Source.Respelling

/-! The text of a renamed program. A renamed program can be written down: its text is the text of
the program with the new name in some places of the old one, and it is read as the renamed program,
its occurrences having the same numbers. -/

namespace Treewalk

namespace Renaming

variable (R : Renaming)

/-- The old name for the new one. -/
def original (n : String) : String := if n = R.new then R.old else n

/-- The token with the old name in place of the new one. -/
def undo (t : Token) : Token :=
  if t.terminal = .identifier then { t with lexeme := R.original t.lexeme } else t

/-- The tokens `ts`, but for the two names, are read as the phrase. -/
def Rereads (phrase : Phrase) (i : NodeId) (ts : List Token) (j : NodeId) : Prop :=
  ∃ ts', ts'.map R.undo = ts.map R.undo ∧ Reads phrase i ts' j

variable {R} {k : Option Nat} {t : Token}

theorem original_name (n : String) : R.original (R.name n) = R.original n := by
  unfold original name
  by_cases hold : n = R.old
  · simp [hold]
  · by_cases hnew : n = R.new <;> simp [hold, hnew]

theorem undo_token (ht : t.terminal = .identifier) : R.undo (R.token t) = R.undo t := by
  have ht' : (R.token t).terminal = .identifier := ht
  unfold undo
  rw [if_pos ht, if_pos ht', token, original_name]

@[simp] theorem terminal_declared : (R.declared k t).terminal = t.terminal := by
  unfold declared
  split <;> rfl

@[simp] theorem undo_declared (ht : t.terminal = .identifier) :
    R.undo (R.declared k t) = R.undo t := by
  unfold declared
  split
  · exact undo_token ht
  · rfl

/-- A reference keeps its number, and its name may be one of the two names for the other. -/
theorem exists_reference (k : Option Nat) (i : NodeId) (ht : t.terminal = .identifier) :
    ∃ t', R.reference k ⟨i, t⟩ = ⟨i, t'⟩ ∧ t'.terminal = .identifier ∧ R.undo t' = R.undo t := by
  unfold reference
  split
  · exact ⟨_, rfl, ht, undo_token ht⟩
  · exact ⟨_, rfl, ht, rfl⟩

end Renaming

theorem Expr.length_renameAll {R : Renaming} {k : Option Nat} (es : List Expr) :
    (Expr.renameAll R k es).length = es.length := by
  induction es with
  | nil => rfl
  | cons e rest ih => rw [Expr.renameAll, List.length_cons, List.length_cons, ih]

theorem Level.rename_node {R : Renaming} {k : Option Nat} {level : Level} {tighter : List Level}
    (hs : level :: tighter <:+ Level.all) (left right : Expr) (op : Token) :
    (level.node left op right).rename R k = level.node (left.rename R k) op (right.rename R k) := by
  rcases Level.node_eq hs with h | h <;> rw [h] <;> rfl

theorem Stmt.Renamed.scope {R : Renaming} {k : Option Nat} {first : Option Stmt} {condition : Expr}
    {body s' : Stmt} (h : (Stmt.block (first.toList ++ [.loop condition body])).Renamed R k s') :
    ∃ k' first' body', Option.Rel (Stmt.Renamed R k') first first' ∧ body.Renamed R k' body' ∧
      s' = .block (first'.toList ++ [.loop (condition.rename R k') body']) := by
  cases h with
  | @block _ k' _ _ _ hss =>
    cases first with
    | none =>
      cases hss with
      | cons hloop hnil =>
        cases hnil
        cases hloop with
        | loop hbody => exact ⟨k', none, _, .none, hbody, rfl⟩
    | some s =>
      cases hss with
      | cons hfirst hrest =>
        cases hrest with
        | cons hloop hnil =>
          cases hnil
          cases hloop with
          | loop hbody => exact ⟨k', some _, _, .some hfirst, hbody, rfl⟩

/-- A renamed loop with three clauses is one. -/
theorem Stmt.Renamed.counting {R : Renaming} {k : Option Nat} {first : Option Stmt}
    {condition step : Option Expr} {body s' : Stmt}
    (h : (Stmt.counting first condition step body).Renamed R k s') :
    ∃ k₁ k₂ first' body', Option.Rel (Stmt.Renamed R k₁) first first' ∧ body.Renamed R k₂ body' ∧
      s' = .counting first' (condition.map (·.rename R k₁)) (step.map (·.rename R k₂)) body' := by
  have hcondition (k : Option Nat) : (condition.getD (.literal (.bool true))).rename R k =
      (condition.map (·.rename R k)).getD (.literal (.bool true)) := by
    cases condition <;> rfl
  obtain ⟨k₁, first', inner', hfirst, hinner, rfl⟩ := h.scope
  rw [hcondition]
  cases step with
  | none => exact ⟨k₁, k₁, first', inner', hfirst, hinner, rfl⟩
  | some e =>
    cases hinner with
    | @block _ k₂ _ _ _ hss =>
      cases hss with
      | cons hbody hrest =>
        cases hrest with
        | cons hstep hnil =>
          cases hnil
          cases hstep
          exact ⟨k₁, k₂, first', _, hfirst, hbody, rfl⟩

/-- The tokens of a phrase are read as the renamed phrase. -/
def Phrase.Rereads (R : Renaming) (i : NodeId) (ts : List Token) (j : NodeId) : Phrase → Prop
  | .expression e => ∀ k, R.Rereads (.expression (e.rename R k)) i ts j
  | .operation levels e => levels <:+ Level.all →
    ∀ k, R.Rereads (.operation levels (e.rename R k)) i ts j
  | .operations level tighter left e => level :: tighter <:+ Level.all →
    ∀ k, R.Rereads (.operations level tighter (left.rename R k) (e.rename R k)) i ts j
  | .unary e => ∀ k, R.Rereads (.unary (e.rename R k)) i ts j
  | .calls callee e => ∀ k, R.Rereads (.calls (callee.rename R k) (e.rename R k)) i ts j
  | .argumentList es => ∀ k, R.Rereads (.argumentList (Expr.renameAll R k es)) i ts j
  | .arguments es => ∀ k, R.Rereads (.arguments (Expr.renameAll R k es)) i ts j
  | .primary e => ∀ k, R.Rereads (.primary (e.rename R k)) i ts j
  | .clause e => ∀ k, R.Rereads (.clause (e.map (·.rename R k))) i ts j
  | .initial e => ∀ k, R.Rereads (.initial (e.map (·.rename R k))) i ts j
  | .binding s => ∀ k s', s.Renamed R k s' → R.Rereads (.binding s') i ts j
  | .expressionStatement s => ∀ k s', s.Renamed R k s' → R.Rereads (.expressionStatement s') i ts j
  | .firstClause s =>
    ∀ k s', Option.Rel (Stmt.Renamed R k) s s' → R.Rereads (.firstClause s') i ts j
  | .statement o s => ∀ k s', s.Renamed R k s' → R.Rereads (.statement o s') i ts j
  | .declaration s => ∀ k s', s.Renamed R k s' → R.Rereads (.declaration s') i ts j
  | .declarations ss => ∀ k ss', Stmt.AllRenamed R k ss ss' → R.Rereads (.declarations ss') i ts j
  | .parameterList ps => ∀ k, R.Rereads (.parameterList (ps.map (R.declared k))) i ts j
  | .parameters ps => ∀ k, R.Rereads (.parameters (ps.map (R.declared k))) i ts j
  | .function decl => ∀ k decl', decl.Renamed R k decl' → R.Rereads (.function decl') i ts j
  | .functions decls => ∀ k decls', FunctionDecl.AllRenamed R k decls decls' →
    R.Rereads (.functions decls') i ts j
  | .heritage parent => ∀ k, R.Rereads (.heritage (parent.map (R.reference k))) i ts j

/-- What is read as a program is, with the new name in some places of the old one, read as the
renamed program. -/
theorem Reads.renamed {R : Renaming} {phrase : Phrase} {i j : NodeId} {ts : List Token}
    (h : Reads phrase i ts j) : phrase.Rereads R i ts j := by
  induction h with
  | value _ ih =>
    intro k
    obtain ⟨us, hus, h⟩ := ih (List.suffix_refl _) k
    exact ⟨us, hus, .value h⟩
  | @assign ref eq v i ts j us l htarget heq _ _ ih =>
    intro k
    obtain ⟨t, rfl, ht, rfl, rfl⟩ := htarget.operation_variable (List.suffix_refl _)
    obtain ⟨t', hreference, ht', hundo⟩ := Renaming.exists_reference (R := R) k l ht
    obtain ⟨vs, hvs, hv⟩ := ih k
    have htarget' : Reads (.operation Level.all (.variable ⟨i, t'⟩)) i [t'] (i + 1) :=
      Reads.operation (.operand (.name ht') .callsNil) Level.all
    rw [Expr.rename, hreference]
    exact ⟨_, by simp [hundo, hvs], .assign htarget' heq hv⟩
  | set _ heq _ ih ihv =>
    intro k
    obtain ⟨us, hus, h⟩ := ih (List.suffix_refl _) k
    obtain ⟨vs, hvs, hv⟩ := ihv k
    exact ⟨_, by simp [hus, hvs], .set h heq hv⟩
  | tightest _ ih =>
    intro _ k
    obtain ⟨us, hus, h⟩ := ih k
    exact ⟨us, hus, .tightest h⟩
  | level _ _ ih ihRest =>
    intro hs k
    obtain ⟨us, hus, h⟩ := ih ((List.suffix_cons _ _).trans hs) k
    obtain ⟨vs, hvs, hrest⟩ := ihRest hs k
    exact ⟨_, by simp [hus, hvs], .level h hrest⟩
  | operationsNil => exact fun _ _ => ⟨[], rfl, .operationsNil⟩
  | operationsCons hop _ _ ih ihRest =>
    intro hs k
    obtain ⟨us, hus, h⟩ := ih ((List.suffix_cons _ _).trans hs) k
    obtain ⟨vs, hvs, hrest⟩ := ihRest hs k
    rw [Level.rename_node hs] at hrest
    exact ⟨_, by simp [hus, hvs], .operationsCons hop h hrest⟩
  | sign hop _ ih =>
    intro k
    obtain ⟨us, hus, h⟩ := ih k
    exact ⟨_, by simp [hus], .sign hop h⟩
  | operand _ _ ih ihCalls =>
    intro k
    obtain ⟨us, hus, h⟩ := ih k
    obtain ⟨vs, hvs, hcalls⟩ := ihCalls k
    exact ⟨_, by simp [hus, hvs], .operand h hcalls⟩
  | callsNil => exact fun _ => ⟨[], rfl, .callsNil⟩
  | call hlp _ hrp _ ih ihCalls =>
    intro k
    obtain ⟨us, hus, h⟩ := ih k
    obtain ⟨vs, hvs, hcalls⟩ := ihCalls k
    exact ⟨_, by simp [hus, hvs], .call hlp h hrp hcalls⟩
  | get hdot hname _ ih =>
    intro k
    obtain ⟨us, hus, h⟩ := ih k
    exact ⟨_, by simp [hus], .get hdot hname h⟩
  | noArguments => exact fun _ => ⟨[], rfl, .noArguments⟩
  | someArguments _ hle ih =>
    intro k
    obtain ⟨us, hus, h⟩ := ih k
    exact ⟨us, hus, .someArguments h (by rwa [Expr.length_renameAll])⟩
  | argumentsOne _ ih =>
    intro k
    obtain ⟨us, hus, h⟩ := ih k
    exact ⟨us, hus, .argumentsOne h⟩
  | argumentsCons _ hcomma _ ih ihRest =>
    intro k
    obtain ⟨us, hus, h⟩ := ih k
    obtain ⟨vs, hvs, hrest⟩ := ihRest k
    exact ⟨_, by simp [hus, hvs], .argumentsCons h hcomma hrest⟩
  | literal hv => exact fun _ => ⟨_, rfl, .literal hv⟩
  | this ht => exact fun _ => ⟨_, rfl, .this ht⟩
  | parent ht hdot hmethod => exact fun _ => ⟨_, rfl, .parent ht hdot hmethod⟩
  | @name t i ht =>
    intro k
    obtain ⟨t', hreference, ht', hundo⟩ := Renaming.exists_reference (R := R) k i ht
    rw [Expr.rename, hreference]
    exact ⟨_, by simp [hundo], .name ht'⟩
  | grouping hlp _ hrp ih =>
    intro k
    obtain ⟨us, hus, h⟩ := ih k
    exact ⟨_, by simp [hus], .grouping hlp h hrp⟩
  | noClause => exact fun _ => ⟨[], rfl, .noClause⟩
  | someClause _ ih =>
    intro k
    obtain ⟨us, hus, h⟩ := ih k
    exact ⟨us, hus, .someClause h⟩
  | noInitial => exact fun _ => ⟨[], rfl, .noInitial⟩
  | someInitial heq _ ih =>
    intro k
    obtain ⟨us, hus, h⟩ := ih k
    exact ⟨_, by simp [hus], .someInitial heq h⟩
  | binding hvar hname _ hsemi ih =>
    rintro k _ ⟨⟩
    obtain ⟨us, hus, h⟩ := ih k
    exact ⟨_, by simp [hus, hname], .binding hvar (Renaming.terminal_declared.trans hname) h hsemi⟩
  | expressionStatement _ hsemi ih =>
    rintro k _ ⟨⟩
    obtain ⟨us, hus, h⟩ := ih k
    exact ⟨_, by simp [hus], .expressionStatement h hsemi⟩
  | firstNone hsemi =>
    rintro k _ ⟨⟩
    exact ⟨_, rfl, .firstNone hsemi⟩
  | firstVariable _ ih =>
    rintro k _ ⟨hs⟩
    obtain ⟨us, hus, h⟩ := ih k _ hs
    exact ⟨us, hus, .firstVariable h⟩
  | firstExpression _ ih =>
    rintro k _ ⟨hs⟩
    obtain ⟨us, hus, h⟩ := ih k _ hs
    exact ⟨us, hus, .firstExpression h⟩
  | expression _ ih =>
    intro k s' hs
    obtain ⟨us, hus, h⟩ := ih k s' hs
    exact ⟨us, hus, .expression h⟩
  | print hword _ hsemi ih =>
    rintro k _ ⟨⟩
    obtain ⟨us, hus, h⟩ := ih k
    exact ⟨_, by simp [hus], .print hword h hsemi⟩
  | giveBack hword _ hsemi ih =>
    rintro k _ ⟨⟩
    obtain ⟨us, hus, h⟩ := ih k
    exact ⟨_, by simp [hus], .giveBack hword h hsemi⟩
  | branch hword hlp _ hrp _ ih ihBody =>
    intro k s' hs
    cases hs with
    | branch hs =>
      obtain ⟨us, hus, h⟩ := ih k
      obtain ⟨vs, hvs, hbody⟩ := ihBody k _ hs
      exact ⟨_, by simp [hus, hvs], .branch hword hlp h hrp hbody⟩
  | branchElse hword hlp _ hrp _ hother _ ih ihBody ihRest =>
    intro k s' hs
    cases hs with
    | branchElse hs hs' =>
      obtain ⟨us, hus, h⟩ := ih k
      obtain ⟨vs, hvs, hbody⟩ := ihBody k _ hs
      obtain ⟨ws, hws, hrest⟩ := ihRest k _ hs'
      exact ⟨_, by simp [hus, hvs, hws], .branchElse hword hlp h hrp hbody hother hrest⟩
  | loop hword hlp _ hrp _ ih ihBody =>
    intro k s' hs
    cases hs with
    | loop hs =>
      obtain ⟨us, hus, h⟩ := ih k
      obtain ⟨vs, hvs, hbody⟩ := ihBody k _ hs
      exact ⟨_, by simp [hus, hvs], .loop hword hlp h hrp hbody⟩
  | counting hword hlp _ _ hsemi _ hrp _ ihFirst ihCondition ihStep ihBody =>
    intro k s' hs
    obtain ⟨k₁, k₂, first', body', hfirst, hbody, rfl⟩ := hs.counting
    obtain ⟨ts, hts, h⟩ := ihFirst k₁ _ hfirst
    obtain ⟨us, hus, hcondition⟩ := ihCondition k₁
    obtain ⟨vs, hvs, hstep⟩ := ihStep k₂
    obtain ⟨ws, hws, hbody'⟩ := ihBody k₂ _ hbody
    exact ⟨_, by simp [hts, hus, hvs, hws],
      .counting hword hlp h hcondition hsemi hstep hrp hbody'⟩
  | block hlb _ hrb ih =>
    intro k s' hs
    cases hs with
    | block _ hss =>
      obtain ⟨us, hus, h⟩ := ih _ _ hss
      exact ⟨_, by simp [hus], .block hlb h hrb⟩
  | declarationsNil =>
    rintro k _ ⟨⟩
    exact ⟨[], rfl, .declarationsNil⟩
  | declarationsCons _ _ ih ihRest =>
    intro k ss' hss
    cases hss with
    | cons hs hrest =>
      obtain ⟨us, hus, h⟩ := ih k _ hs
      obtain ⟨vs, hvs, h'⟩ := ihRest k _ hrest
      exact ⟨_, by simp [hus, hvs], .declarationsCons h h'⟩
  | classDecl hword hname _ hlb _ hrb ih ihMethods =>
    intro k s' hs
    cases hs with
    | classDecl hmethods =>
      obtain ⟨us, hus, h⟩ := ih k
      obtain ⟨vs, hvs, h'⟩ := ihMethods _ _ hmethods
      exact ⟨_, by simp [hus, hvs], .classDecl hword hname h hlb h' hrb⟩
  | funcDecl hword _ ih =>
    intro k s' hs
    cases hs with
    | function hdecl =>
      obtain ⟨us, hus, h⟩ := ih k _ hdecl
      exact ⟨_, by simp [hus], .funcDecl hword h⟩
  | varDecl _ ih =>
    intro k s' hs
    obtain ⟨us, hus, h⟩ := ih k s' hs
    exact ⟨us, hus, .varDecl h⟩
  | statement _ ih =>
    intro k s' hs
    obtain ⟨us, hus, h⟩ := ih k s' hs
    exact ⟨us, hus, .statement h⟩
  | noHeritage => exact fun _ => ⟨[], rfl, .noHeritage⟩
  | @someHeritage less name i hless hname =>
    intro k
    obtain ⟨t', hreference, ht', hundo⟩ := Renaming.exists_reference (R := R) k i hname
    rw [Option.map_some, hreference]
    exact ⟨_, by simp [hundo], .someHeritage hless ht'⟩
  | functionsNil =>
    rintro k _ ⟨⟩
    exact ⟨[], rfl, .functionsNil⟩
  | functionsCons _ _ ih ihRest =>
    intro k decls' hdecls
    cases hdecls with
    | cons hdecl hrest =>
      obtain ⟨us, hus, h⟩ := ih k _ hdecl
      obtain ⟨vs, hvs, h'⟩ := ihRest k _ hrest
      exact ⟨_, by simp [hus, hvs], .functionsCons h h'⟩
  | function hname hlp _ hrp hlb _ hrb ih ihBody =>
    intro k decl' hdecl
    cases hdecl with
    | @mk _ k' _ _ _ body' _ hbody =>
      obtain ⟨us, hus, h⟩ := ih k'
      obtain ⟨vs, hvs, h'⟩ := ihBody k' _ hbody
      exact ⟨_, by simp [hus, hvs], .function hname hlp h hrp hlb h' hrb⟩
  | noParameters => exact fun _ => ⟨[], rfl, .noParameters⟩
  | someParameters _ hle ih =>
    intro k
    obtain ⟨us, hus, h⟩ := ih k
    exact ⟨us, hus, .someParameters h (by rwa [List.length_map])⟩
  | parametersOne hp =>
    intro k
    exact ⟨_, by simp [hp], .parametersOne (Renaming.terminal_declared.trans hp)⟩
  | parametersCons hp hcomma _ ih =>
    intro k
    obtain ⟨us, hus, h⟩ := ih k
    exact ⟨_, by simp [hus, hp], .parametersCons (Renaming.terminal_declared.trans hp) hcomma h⟩

namespace Renaming

variable {R : Renaming} {t : Token} {ts ts' : List Token}

theorem undo_of_unused (h : R.Unused t) : R.undo t = t := by
  unfold undo
  split
  · rw [original, if_neg h]
  · rfl

/-- A token differs from the one with the old name in place of the new one as a name does. -/
theorem respelled_undo (hname : Source.Name R.new) (t : Token) : (R.undo t).Respelled t := by
  unfold undo
  split
  · next ht =>
    by_cases hnew : t.lexeme = R.new
    · obtain ⟨kind, lexeme, line⟩ := t
      obtain rfl : lexeme = R.new := hnew
      cases kind <;> cases ht
      exact .name hname
    · rw [original, if_neg hnew]
      exact .same
  · exact .same

theorem map_undo (h : ∀ t ∈ ts, R.Unused t) : ts.map R.undo = ts :=
  (List.map_congr_left fun t ht => undo_of_unused (h t ht)).trans (List.map_id ts)

theorem respelled (hname : Source.Name R.new) (h : ts'.map R.undo = ts) :
    List.Forall₂ Token.Respelled ts ts' := by
  rw [← h, List.forall₂_map_left_iff]
  exact List.forall₂_same.mpr fun t _ => respelled_undo hname t

/-- A renamed program can be written down. -/
theorem exists_text {source : String} {p p' : Program} {i j : NodeId} (hname : Source.Name R.new)
    (hunused : ∀ t ∈ Source.tokens source, R.Unused t)
    (hreads : Reads (.declarations p) i (Source.tokens source) j)
    (h : Stmt.AllRenamed R none p p') :
    ∃ source', (Source.tokens source').map R.undo = Source.tokens source ∧
      Source.faults source' = Source.faults source ∧
      Reads (.declarations p') i (Source.tokens source') j := by
  obtain ⟨ts', hundo, hreads'⟩ := hreads.renamed (R := R) none p' h
  rw [map_undo hunused] at hundo
  obtain ⟨source', rfl, hfaults⟩ := Source.exists_respelled (respelled hname hundo)
  exact ⟨source', hundo, hfaults, hreads'⟩

end Renaming

end Treewalk
