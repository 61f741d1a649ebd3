import Treewalk.Proofs.Evaluation.Actions
import Treewalk.Proofs.Resolution.Occurrences

/-! Places in a running program. A machine is at a node of an accepted program if its active frame
fits the scopes that resolution found there; what the node says is then found where resolution
said. -/

namespace Treewalk

/-- The programs of a world were accepted, with its distances, and their tokens are of the right
classes. -/
structure World.Accepted (W : World) : Prop where
  resolved : ∀ p ∈ W.programs, Resolved W.distances (Stmt.allIds p) p.findings
  spelled : ∀ p ∈ W.programs, Stmt.AllSpelled Token.IsName p

/-- The frames around the active one fit the scopes around a node. -/
def Machine.At (W : World) (m : Machine) (node : Node) : Prop :=
  ∃ p ∈ W.programs, ∃ ctx os, Visits p node ctx os ∧
    Fits W m.store node.underway m.active ctx.scopes os

namespace Machine.At

variable {W : World} {m m' : Machine} {underway : Option String} {ref : Reference}

theorem becomes {node : Node} (h : m.At W node) (hbecomes : m.Becomes W m') : m'.At W node := by
  obtain ⟨p, hp, ctx, os, hvisits, hfits⟩ := h
  refine ⟨p, hp, ctx, os, hvisits, ?_⟩
  rw [hbecomes.active]
  exact hfits.mono hbecomes.grows

theorem child {e e' : Expr} (h : m.At W (.expression underway e)) (he : e' ∈ e.children) :
    m.At W (.expression underway e') := by
  obtain ⟨p, hp, ctx, os, hvisits, hfits⟩ := h
  exact ⟨p, hp, ctx, os, hvisits.inside he, hfits⟩

theorem spelled (h : m.At W node) (hW : W.Accepted) : node.Spelled Token.IsName := by
  obtain ⟨p, hp, ctx, os, hvisits, -⟩ := h
  exact hvisits.spelled (hW.spelled p hp)

/-- A local variable has a value when it is read. -/
theorem value?_variable {d : Nat} (h : m.At W (.expression underway (.variable ref)))
    (hW : W.Accepted) (hm : m.Sound W) (hd : m.distances[ref.id]? = some d) :
    (m.value? ref).isSome := by
  obtain ⟨p, hp, ctx, os, hvisits, hfits⟩ := h
  obtain ⟨hdistance, hnot⟩ := hvisits.read (hW.resolved p hp)
  rw [hm.distances, hdistance] at hd
  obtain ⟨scope, hscope, hname⟩ := Context.scope_of_distance? hd
  obtain ⟨frame, -, hframe, -, -, hbound⟩ := hfits.frame_of_scope hscope
  have hvalue : m.value? ref = m.store.binding? frame ref.name.lexeme := by
    simp [Machine.value?, hm.distances, hdistance, hd, Store.getAt?, hframe]
  rw [hvalue]
  obtain hbound | ⟨rfl, hunder⟩ := hbound _ hname
  · exact hbound
  · exact ((hnot 0 hd).resolve_left (by simp) hunder).elim

/-- Where a local variable is written to there is a frame. -/
theorem target?_assigned {d : Nat} {e : Expr} (h : m.At W (.expression underway (.assign ref e)))
    (hW : W.Accepted) (hm : m.Sound W) (hd : m.distances[ref.id]? = some d) :
    (m.target? ref).isSome := by
  obtain ⟨p, hp, ctx, os, hvisits, hfits⟩ := h
  have hdistance := hvisits.assigned (hW.resolved p hp)
  obtain ⟨scope, hscope, -⟩ := Context.scope_of_distance?
    ((hm.distances ▸ hdistance).symm.trans hd)
  obtain ⟨frame, -, hframe, -⟩ := hfits.frame_of_scope hscope
  simp [Machine.target?, hd, hframe]

/-- `this` stands for an instance. -/
theorem value?_this (h : m.At W (.expression underway (.this ref))) (hW : W.Accepted)
    (hm : m.Sound W) : ∃ i, m.value? ref = some (.instanceRef i) := by
  obtain ⟨p, hp, ctx, os, hvisits, hfits⟩ := h
  obtain ⟨hname, d, hdistance, hd⟩ := hvisits.this (hW.resolved p hp) (hW.spelled p hp)
  obtain ⟨scope, hscope, hcontains⟩ := Context.scope_of_distance? hd
  obtain ⟨frame, -, hframe, -, -, hbound⟩ := hfits.frame_of_scope hscope
  have hvalue : m.value? ref = m.store.binding? frame "this" := by
    simp [Machine.value?, hm.distances, hdistance, Store.getAt?, hframe, hname]
  rw [hvalue]
  obtain hbound | ⟨-, hunder⟩ := hbound _ hcontains
  · obtain ⟨v, hv⟩ := Option.isSome_iff_exists.mp hbound
    obtain ⟨i, rfl⟩ := hm.store.receivers frame v hv
    exact ⟨i, hv⟩
  · exact absurd rfl (((show underway = some "this" from hunder) ▸ hvisits).ordinary
      (hW.spelled p hp)).1

/-- `parent` stands for a class, and one frame nearer `this` stands for an instance. -/
theorem parent {method : Token} (h : m.At W (.expression underway (.parent ref method)))
    (hW : W.Accepted) (hm : m.Sound W) : ∃ k c i, m.distances[ref.id]? = some (k + 1) ∧
      m.store.getAt? m.active (k + 1) "parent" = some (.classRef c) ∧
      m.store.getAt? m.active k "this" = some (.instanceRef i) := by
  obtain ⟨p, hp, ctx, os, hvisits, hfits⟩ := h
  obtain ⟨-, k, inner, hdistance, hd, hinner, hthis⟩ :=
    hvisits.parent (hW.resolved p hp) (hW.spelled p hp)
  have hordinary {name : String} (hunder : underway = some name) : name ≠ "this" :=
    ((hunder ▸ hvisits).ordinary (hW.spelled p hp)).1
  obtain ⟨outer, houter, hparent⟩ := Context.scope_of_distance? hd
  obtain ⟨frame, -, hframe, -, -, hbound⟩ := hfits.frame_of_scope houter
  obtain ⟨frame', -, hframe', -, -, hbound'⟩ := hfits.frame_of_scope hinner
  obtain hbound | ⟨hzero, -⟩ := hbound _ hparent
  · obtain ⟨v, hv⟩ := Option.isSome_iff_exists.mp hbound
    obtain ⟨c, rfl⟩ := hm.store.parents frame v hv
    obtain hbound' | ⟨-, hunder⟩ := hbound' _ hthis
    · obtain ⟨v, hv'⟩ := Option.isSome_iff_exists.mp hbound'
      obtain ⟨i, rfl⟩ := hm.store.receivers frame' v hv'
      refine ⟨k, c, i, by rw [hm.distances, hdistance], ?_, ?_⟩
      · simpa [Store.getAt?, hframe] using hv
      · simpa [Store.getAt?, hframe'] using hv'
    · exact absurd rfl (hordinary hunder)
  · cases hzero

end Machine.At

/-- Names that are bound one after the other are bound in the end, and nothing else is. -/
theorem foldl_insert_binds {pairs : List (Token × Value)} {b : Bindings} {name : String} :
    ((pairs.foldl (fun b (p, v) => b.insert p.lexeme v) b)[name]?).isSome ↔
      (b[name]?).isSome ∨ ∃ pair ∈ pairs, pair.1.lexeme = name := by
  induction pairs generalizing b with
  | nil => simp
  | cons pair rest ih =>
    rw [List.foldl_cons, ih, Std.TreeMap.getElem?_insert]
    by_cases hname : pair.1.lexeme = name
    · simp [hname]
    · simp [hname]

theorem foldl_insert_value {pairs : List (Token × Value)} {b : Bindings} {name : String} {v : Value}
    (h : (pairs.foldl (fun b (p, v) => b.insert p.lexeme v) b)[name]? = some v) :
    b[name]? = some v ∨ ∃ pair ∈ pairs, pair.2 = v := by
  induction pairs generalizing b with
  | nil => exact .inl h
  | cons pair rest ih =>
    obtain hb | ⟨pair', hpair', hv⟩ := ih h
    · rw [Std.TreeMap.getElem?_insert] at hb
      split at hb
      · cases hb
        exact .inr ⟨pair, List.mem_cons_self, rfl⟩
      · exact .inl hb
    · exact .inr ⟨pair', List.mem_cons_of_mem _ hpair', hv⟩

/-- A call binds its arguments. -/
theorem mem_of_argumentBindings {params : List Token} {args : List Value} {name : String} {v : Value}
    (h : (argumentBindings params args)[name]? = some v) : v ∈ args := by
  obtain hnone | ⟨pair, hpair, rfl⟩ := foldl_insert_value h
  · simp at hnone
  · exact (List.of_mem_zip hpair).2

/-- With as many arguments as parameters, a call binds every parameter and nothing else. -/
theorem argumentBindings_binds {params : List Token} {args : List Value}
    (hlength : args.length = params.length) {name : String} :
    ((argumentBindings params args)[name]?).isSome ↔ ∃ p ∈ params, p.lexeme = name := by
  unfold argumentBindings
  rw [foldl_insert_binds]
  constructor
  · rintro (hnone | ⟨⟨p, v⟩, hpair, hname⟩)
    · simp at hnone
    · exact ⟨p, (List.of_mem_zip hpair).1, hname⟩
  · rintro ⟨p, hp, hname⟩
    obtain ⟨k, hk, rfl⟩ := List.getElem_of_mem hp
    refine .inr ⟨(params[k], args[k]), ?_, hname⟩
    exact List.mem_iff_getElem.mpr ⟨k, by simp [hlength, hk], by simp⟩

/-- A call binds sound values, and neither `this` nor `parent`. -/
theorem argumentBindings_sound {W : World} {s : Store} {params : List Token} {args : List Value}
    (hlength : args.length = params.length) (hparams : ∀ p ∈ params, p.IsName)
    (hargs : ∀ v ∈ args, v.Sound W s) : (argumentBindings params args).Sound W s := by
  have hbinds {name : String} {v : Value} (hv : (argumentBindings params args)[name]? = some v) :
      ∃ p ∈ params, p.lexeme = name :=
    (argumentBindings_binds hlength).mp (by rw [hv]; rfl)
  refine ⟨fun name v hv => hargs v (mem_of_argumentBindings hv), fun v hv => ?_, fun v hv => ?_⟩
  · obtain ⟨p, hp, hname⟩ := hbinds hv
    exact absurd hname (hparams p hp).ne_this
  · obtain ⟨p, hp, hname⟩ := hbinds hv
    exact absurd hname (hparams p hp).ne_parent

/-- The scope of a function declares its parameters and nothing else. -/
theorem Context.scopes_body (ctx : Context) (kind : FunctionContext) (params : List Token) :
    ∃ scope, (ctx.body kind params).scopes = scope :: ctx.scopes ∧
      ∀ name : String, scope.contains name → ∃ p ∈ params, p.lexeme = name := by
  have hfold (inner : Scope) (ps : List Token) : ∃ scope,
      (ps.foldl (fun (ctx : Context) (p : Token) => ctx.define p.lexeme)
        ⟨inner :: ctx.scopes, kind, ctx.classContext⟩).scopes = scope :: ctx.scopes ∧
      ∀ name : String, scope.contains name → inner.contains name ∨ ∃ p ∈ ps, p.lexeme = name := by
    induction ps generalizing inner with
    | nil => exact ⟨inner, rfl, fun _ => .inl⟩
    | cons p rest ih =>
      obtain ⟨scope, hscopes, hnames⟩ := ih (inner.insert p.lexeme true)
      refine ⟨scope, hscopes, fun name hname => ?_⟩
      obtain hinner | ⟨q, hq, hname⟩ := hnames name hname
      · by_cases heq : p.lexeme = name
        · exact .inr ⟨p, List.mem_cons_self, heq⟩
        · exact .inl (by simpa [heq] using hinner)
      · exact .inr ⟨q, List.mem_cons_of_mem _ hq, hname⟩
  obtain ⟨scope, hscopes, hnames⟩ := hfold ∅ params
  refine ⟨scope, hscopes, fun name hname => (hnames name hname).resolve_left ?_⟩
  simp

end Treewalk
