import Treewalk.Proofs.Evaluation.Actions
import Treewalk.Proofs.Twins.Stores

/-! Sound machines are twins of themselves, whatever the disguise changes: no frame is one of the
chosen scope yet, and a tree is like itself outside of that scope. -/

namespace Treewalk

/-- Tokens and occurrences may stand for themselves. -/
structure Disguise.Reflexive (G : Disguise) : Prop where
  token : ∀ t, G.token t t
  place : ∀ id, ∃ d, G.place id id d

section
variable {G : Disguise} (hG : G.Reflexive)
include hG

theorem Reference.refers_self (ref : Reference) : G.Refers none ref ref := by
  obtain ⟨d, hplace⟩ := hG.place ref.id
  exact ⟨d, hplace, ref.name, hG.token ref.name, rfl⟩

theorem Token.named_self (t : Token) : G.Named ((none : Option Nat) = some 0) t t :=
  ⟨t, hG.token t, rfl⟩

end

section
variable {G : Disguise}

mutual

/-- Outside of the chosen scope an expression is like itself. -/
theorem Expr.like_self (hG : G.Reflexive) : (e : Expr) → e.Like G none e
  | .literal _ => .literal
  | .unary op e => .unary (hG.token op) (e.like_self hG)
  | .binary l op r => .binary (l.like_self hG) (hG.token op) (r.like_self hG)
  | .logical l op r => .logical (l.like_self hG) (hG.token op) (r.like_self hG)
  | .grouping e => .grouping (e.like_self hG)
  | .variable ref => .variable (ref.refers_self hG)
  | .assign ref e => .assign (ref.refers_self hG) (e.like_self hG)
  | .call e paren es => .call (e.like_self hG) (hG.token paren) (Expr.allLike_self hG es)
  | .get e name => .get (e.like_self hG) (hG.token name)
  | .set e name v => .set (e.like_self hG) (hG.token name) (v.like_self hG)
  | .this ref => .this (ref.refers_self hG)
  | .parent ref method => .parent (ref.refers_self hG) (hG.token method)

theorem Expr.allLike_self (hG : G.Reflexive) : (es : List Expr) → Expr.AllLike G none es es
  | [] => .nil
  | e :: rest => .cons (e.like_self hG) (Expr.allLike_self hG rest)

end

mutual

theorem Stmt.like_self (hG : G.Reflexive) : (s : Stmt) → s.Like G none s
  | .expression e => .expression (e.like_self hG)
  | .print e => .print (e.like_self hG)
  | .var x none => .var (x.named_self hG) .none
  | .var x (some e) => .var (x.named_self hG) (.some (e.like_self hG))
  | .block ss => .block .none (Stmt.allLike_self hG ss)
  | .branch e s none => .branch (e.like_self hG) (s.like_self hG)
  | .branch e s (some o) => .branchElse (e.like_self hG) (s.like_self hG) (o.like_self hG)
  | .loop e s => .loop (e.like_self hG) (s.like_self hG)
  | .function decl => .function (by simp) (decl.like_self hG)
  | .giveBack word none => .giveBack (hG.token word) .none
  | .giveBack word (some e) => .giveBack (hG.token word) (.some (e.like_self hG))
  | .classDecl x none methods =>
    .classDecl (by simp) (hG.token x) .none (FunctionDecl.allLike_self hG methods)
  | .classDecl x (some ref) methods =>
    .classDecl (by simp) (hG.token x) (.some (ref.refers_self hG))
      (FunctionDecl.allLike_self hG methods)

theorem Stmt.allLike_self (hG : G.Reflexive) : (ss : List Stmt) → Stmt.AllLike G none ss ss
  | [] => .nil
  | s :: rest => .cons (s.like_self hG) (Stmt.allLike_self hG rest)

theorem FunctionDecl.like_self (hG : G.Reflexive) : (decl : FunctionDecl) → decl.Like G none decl
  | ⟨name, _, body⟩ =>
    .mk .none (hG.token name) (List.forall₂_same.mpr fun p _ => p.named_self hG)
      (Stmt.allLike_self hG body)

theorem FunctionDecl.allLike_self (hG : G.Reflexive) :
    (decls : List FunctionDecl) → FunctionDecl.AllLike G none decls decls
  | [] => .nil
  | decl :: rest => .cons (decl.like_self hG) (FunctionDecl.allLike_self hG rest)

end

end

section
variable {G : Disguise} (hG : G.Reflexive) {n : Nat}
include hG

theorem Closure.twin_self {f : Closure} (hf : f.frame < n) (j : Nat) :
    f.Twin G (fun _ => none) n j f :=
  ⟨rfl, rfl, rfl, hf, f.decl.like_self hG⟩

theorem Class.twin_self {c : Class} (hc : ∀ body ∈ c.bodies, ∀ f ∈ body.methods, f.frame < n) :
    c.Twin G (fun _ => none) n c := by
  have hbody (body : ClassBody) (hmem : body ∈ c.bodies) : body.Twin G (fun _ => none) n body :=
    ⟨rfl, rfl, List.forall₂_same.mpr fun f hf => f.twin_self hG (hc body hmem f hf) 1⟩
  exact ⟨hbody c.own List.mem_cons_self,
    List.forall₂_same.mpr fun body hmem => hbody body (List.mem_cons_of_mem _ hmem)⟩

end

section
variable {G : Disguise} (hG : G.Reflexive) {W : World} {s : Store}
include hG

theorem Class.Sound.twin_self {c : Class} (h : c.Sound W s) (hW : W.globals < s.frames.size) :
    c.Twin G (fun _ => none) s.frames.size c := by
  refine Class.twin_self hG fun body hbody f hf => ?_
  obtain ⟨_, -, _, _, _, _, _, _, -, -, -, -, -, hfits⟩ := h body hbody f hf
  exact hfits.lt_size hW

/-- A sound value is a twin of itself. -/
theorem Value.Sound.twin_self {v : Value} (h : v.Sound W s) (hW : W.globals < s.frames.size) :
    v.Twin G (fun _ => none) s.frames.size v := by
  cases v with
  | function f =>
    obtain ⟨_, -, _, _, _, -, -, hfits⟩ := h
    exact .function (f.twin_self hG (hfits.lt_size hW) 0)
  | classRef c => exact .classRef (Class.Sound.twin_self hG h hW)
  | instanceRef i => exact .instanceRef (Class.Sound.twin_self hG h hW)
  | number => exact .number
  | string => exact .string
  | bool => exact .bool
  | null => exact .null
  | native => exact .native

theorem Store.Sound.twin_self (h : s.Sound W) : s.Twin G (fun _ => none) s where
  size := rfl
  enclosing _ := rfl
  marks _ _ _ := .none
  bindings f name := by
    rw [decide_eq_false (by simp), Disguise.nameIf_false]
    cases hv : s.binding? f name with
    | none => exact .none
    | some v => exact .some ((h.values f name v hv).twin_self hG h.globals)
  objects := rfl
  fields object name := by
    cases hv : s.field? object name with
    | none => exact .none
    | some v => exact .some ((h.fields object name v hv).twin_self hG h.globals)

/-- A sound machine outside of all local scopes is a twin of itself. -/
theorem Machine.Sound.twin_self {m : Machine} (h : m.Sound W) (hactive : m.active = W.globals)
    (hplaces : ∀ id id' d, G.place id id' d → m.distances[id]? = d ∧ m.distances[id']? = d) :
    m.Twin G (fun _ => none) m :=
  ⟨h.store.twin_self hG, rfl, hplaces, rfl, rfl, rfl, rfl, rfl, h.globals ▸ h.store.outermost,
    h.globals ▸ h.store.globals, hactive ▸ h.store.globals⟩

end

end Treewalk
