import Treewalk.Proofs.Direct.Stores
import Treewalk.Proofs.Evaluation.Actions
import Treewalk.Proofs.Evaluation.Places

/-! Sound machines mirror themselves. What was read without nodes unfolds to itself, and before a
program is run all frames are the same with nodes and without. -/

namespace Treewalk

section
variable {P : NodeId → Prop}

theorem Expr.forall_ids_child {e e' : Expr} (h : ∀ id ∈ e.ids, P id) (he : e' ∈ e.children) :
    ∀ id ∈ e'.ids, P id := by
  have hargument {es : List Expr} (hes : ∀ id ∈ Expr.allIds es, P id) (he : e' ∈ es) :
      ∀ id ∈ e'.ids, P id := by
    induction es with
    | nil => cases he
    | cons e rest ih =>
      obtain ⟨hfirst, hrest⟩ := List.forall_mem_append.mp hes
      obtain rfl | he := List.mem_cons.mp he
      · exact hfirst
      · exact ih hrest he
  cases e with
  | unary op operand | grouping operand | get operand name =>
    obtain rfl := List.mem_singleton.mp he
    exact h
  | assign target value =>
    obtain rfl := List.mem_singleton.mp he
    exact (List.forall_mem_append.mp h).1
  | binary left op right | logical left op right =>
    simp only [Expr.children, List.mem_cons, List.not_mem_nil, or_false] at he
    obtain rfl | rfl := he
    · exact (List.forall_mem_append.mp h).1
    · exact (List.forall_mem_append.mp h).2
  | call callee paren arguments =>
    obtain rfl | he := List.mem_cons.mp he
    · exact (List.forall_mem_append.mp h).1
    · exact hargument (List.forall_mem_append.mp h).2 he
  | set object name value =>
    simp only [Expr.children, List.mem_cons, List.not_mem_nil, or_false] at he
    obtain rfl | rfl := he
    · exact (List.forall_mem_append.mp h).2
    · exact (List.forall_mem_append.mp h).1
  | _ => cases he

theorem FunctionDecl.forall_ids_mem {decl : FunctionDecl} {decls : List FunctionDecl}
    (h : ∀ id ∈ FunctionDecl.allIds decls, P id) (hdecl : decl ∈ decls) : ∀ id ∈ decl.ids, P id := by
  induction decls with
  | nil => cases hdecl
  | cons decl' rest ih =>
    obtain ⟨hfirst, hrest⟩ := List.forall_mem_append.mp h
    obtain rfl | hdecl := List.mem_cons.mp hdecl
    · exact hfirst
    · exact ih hrest hdecl

/-- What holds of all occurrences in a program holds of those in a node that is visited. -/
theorem Visits.forall_ids {program : Program} {node : Node} {ctx : Context} {os : List Opening}
    (h : Visits program node ctx os) (hprogram : ∀ id ∈ Stmt.allIds program, P id) :
    ∀ id ∈ node.ids, P id := by
  induction h with simp only [Node.ids] at *
  | program => exact hprogram
  | first _ ih => exact (List.forall_mem_append.mp ih).1
  | rest _ ih => exact (List.forall_mem_append.mp ih).2
  | value _ ih | printed _ ih | block _ ih | function _ ih | givenBack _ ih | initial _ ih =>
    rwa [Stmt.ids] at ih
  | @condition _ _ other _ _ _ ih =>
    cases other with
    | none => exact (List.forall_mem_append.mp ih).1
    | some other => exact (List.forall_mem_append.mp (List.forall_mem_append.mp ih).1).1
  | @whenTrue _ _ other _ _ _ ih =>
    cases other with
    | none => exact (List.forall_mem_append.mp ih).2
    | some other => exact (List.forall_mem_append.mp (List.forall_mem_append.mp ih).1).2
  | whenFalse _ ih => exact (List.forall_mem_append.mp ih).2
  | loopCondition _ ih => exact (List.forall_mem_append.mp ih).1
  | loopBody _ ih => exact (List.forall_mem_append.mp ih).2
  | @body _ decl _ _ _ ih =>
    obtain ⟨name, params, body⟩ := decl
    exact ih
  | heritage _ ih => exact (List.forall_mem_append.mp ih).1
  | method _ hdecl ih => exact FunctionDecl.forall_ids_mem ih hdecl
  | inheritingMethod _ hdecl ih =>
    exact FunctionDecl.forall_ids_mem (List.forall_mem_append.mp ih).2 hdecl
  | inside _ he ih => exact Expr.forall_ids_child ih he

end

/-- The occurrence has the same distance with nodes and without. -/
def Setting.Settles (W : Setting) (id : NodeId) : Prop := W.unfolded[id]? = W.direct[id]?

section
variable {W : Setting}

/-- A function that was read without nodes mirrors itself. -/
theorem Closure.mirrors_self {S : Seating} {inner : Layers} {f : Closure} (hf : f.frame < W.base)
    (hspelled : f.decl.Spelled Token.IsName) (hids : ∀ id ∈ f.decl.ids, W.Settles id)
    (hinner : inner.AllShared) : f.Mirrors W S inner f where
  identity := rfl
  isInitializer := rfl
  spelled := hspelled
  placed := by
    refine ⟨[], trivial, .base hf, ?_⟩
    rw [List.append_nil]
    refine f.decl.unfolds_self (fun π id hπ hid => ?_) hinner hspelled hids
    rw [Setting.Lies, hid, funext hπ.lift, Option.map_id']

variable {V : World} (hV : V.Accepted) (hold : ∀ p ∈ V.programs, ∀ id ∈ Stmt.allIds p, W.Settles id)
  {s : Store} (hbase : W.base = s.frames.size)
include hV hold hbase

theorem Class.Sound.mirrors_self {S : Seating} {c : Class} (h : c.Sound V s)
    (hglobals : V.globals < s.frames.size) : c.Mirrors W S c := by
  have hbody (body : ClassBody) (hmem : body ∈ c.bodies) :
      body.Corresponds (Closure.Mirrors W S [.shared]) body := by
    refine ⟨rfl, rfl, List.forall₂_same.mpr fun f hf => ?_⟩
    obtain ⟨p, hp, _, _, _, _, _, _, hvisits, -, -, -, -, hfits⟩ := h body hmem f hf
    exact f.mirrors_self (hbase ▸ hfits.lt_size hglobals) (hvisits.spelled (hV.spelled p hp))
      (hvisits.forall_ids (hold p hp)) (by simp [Layers.AllShared])
  exact ⟨hbody c.own List.mem_cons_self,
    List.forall₂_same.mpr fun body hmem => hbody body (List.mem_cons_of_mem _ hmem)⟩

/-- A sound value mirrors itself. -/
theorem Value.Sound.mirrors_self {S : Seating} {v : Value} (h : v.Sound V s)
    (hglobals : V.globals < s.frames.size) : v.Mirrors W S v := by
  cases v with
  | function f =>
    obtain ⟨p, hp, _, _, _, hvisits, -, hfits⟩ := h
    exact .function (f.mirrors_self (hbase ▸ hfits.lt_size hglobals)
      (hvisits.spelled (hV.spelled p hp)) (hvisits.forall_ids (hold p hp))
      (by simp [Layers.AllShared]))
  | classRef c => exact .classRef (Class.Sound.mirrors_self hV hold hbase h hglobals)
  | instanceRef i => exact .instanceRef (Class.Sound.mirrors_self hV hold hbase h hglobals)
  | number => exact .number
  | string => exact .string
  | bool => exact .bool
  | null => exact .null
  | native => exact .native

theorem Store.Sound.mirrors_self (h : s.Sound V) : Seating.Mirrors W ⟨id, s, s⟩ where
  base := by rw [hbase]; exact ⟨Nat.le_refl _, Nat.le_refl _⟩
  own _ _ := rfl
  enclosing _ _ := rfl
  seated _ := id
  injective _ _ _ _ := id
  bindings f _ name := by
    cases hv : s.binding? f name with
    | none => simp [hv]
    | some v =>
      have hself := (h.values f name v hv).mirrors_self hV hold hbase h.globals (S := ⟨id, s, s⟩)
      simpa [hv] using Option.Rel.some hself
  unseated f' hf' name := by
    cases hv : s.binding? f' name with
    | none => rfl
    | some v => exact absurd rfl (hf' f' (Store.lt_size_of_binding? hv))
  receivers _ _ hp _ := hp
  objects := rfl
  fields object name := by
    cases hv : s.field? object name with
    | none => exact .none
    | some v =>
      have hself := (h.fields object name v hv).mirrors_self hV hold hbase h.globals (S := ⟨id, s, s⟩)
      simpa [hv] using Option.Rel.some hself

end

/-- A sound machine outside of all local scopes mirrors itself, whatever distances are recorded, if
those of the programs that were run are the same. -/
theorem Machine.Sound.mirrors_self {V : World} {m : Machine} (h : m.Sound V) (hV : V.Accepted)
    (hactive : m.active = V.globals) {D D' : Distances}
    (hold : ∀ p ∈ V.programs, ∀ id ∈ Stmt.allIds p, D'[id]? = D[id]?) :
    Machine.Mirrors ⟨D, D', m.store.frames.size⟩ ⟨id, m.store, m.store⟩ []
      { m with distances := D } { m with distances := D' } where
  direct := rfl
  unfolded := rfl
  stores := h.store.mirrors_self (W := ⟨D, D', m.store.frames.size⟩) hV hold rfl
  nextIdentity := rfl
  distances := ⟨rfl, rfl⟩
  globals := rfl
  outermost := h.globals ▸ h.store.outermost
  globals_lt := h.globals ▸ h.store.globals
  active := .base (hactive ▸ h.store.globals)
  sink := rfl
  hostCalls := rfl

end Treewalk
