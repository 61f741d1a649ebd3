import Treewalk.Proofs.Direct.Node
import Treewalk.Proofs.Trees.Numbering
import Treewalk.Proofs.Trees.Spelling

/-! What programs with nodes unfold to. In place of each node stands the tree that the parser makes of
the loop, which may have a scope that the node does not have: around its body and its last clause,
if there is a last clause. Names are declared only in scopes that are there with nodes, too. -/

namespace Treewalk

/-- A scope around a place in a program: one that is there with nodes and without, or one that is
added where the node is unfolded. -/
inductive Layer
  | shared
  | added

/-- The scopes around a place, innermost first. Those that are not listed are shared. -/
abbrev Layers := List Layer

namespace Layers

/-- Where `d` scopes lie between with nodes, as many lie between without them. -/
def lift : Layers → Nat → Nat
  | [], d => d
  | .shared :: _, 0 => 0
  | .shared :: π, d + 1 => lift π d + 1
  | .added :: π, d => lift π d + 1

theorem lift_succ_ne_zero (π : Layers) (d : Nat) : π.lift (d + 1) ≠ 0 := by
  cases π with
  | nil => exact Nat.succ_ne_zero d
  | cons layer rest => cases layer <;> exact Nat.succ_ne_zero _

/-- The innermost scope is shared. -/
def Declares : Layers → Prop
  | .added :: _ => False
  | _ => True

theorem Declares.lift {π : Layers} (h : π.Declares) : π.lift 0 = 0 := by
  match π, h with
  | [], _ => rfl
  | .shared :: _, _ => rfl

/-- There are the same scopes with nodes and without. -/
def AllShared (π : Layers) : Prop := ∀ layer ∈ π, layer = .shared

theorem AllShared.shared {π : Layers} (h : π.AllShared) : AllShared (.shared :: π) :=
  List.forall_mem_cons.mpr ⟨rfl, h⟩

theorem AllShared.declares {π : Layers} (h : π.AllShared) : π.Declares := by
  cases π with
  | nil => trivial
  | cons layer rest => rw [h layer List.mem_cons_self]; trivial

/-- Where all scopes are shared, as many lie between. -/
theorem AllShared.lift {π : Layers} (h : π.AllShared) (d : Nat) : π.lift d = d := by
  induction π generalizing d with
  | nil => rfl
  | cons layer rest ih =>
    obtain ⟨rfl, hrest⟩ := List.forall_mem_cons.mp h
    cases d with
    | zero => rfl
    | succ d => exact congrArg (· + 1) (ih hrest d)

/-- The scopes around the body of a loop: the last clause comes with one. -/
def around (step : Option Expr) (π : Layers) : Layers :=
  match step with
  | some _ => .added :: π
  | none => π

/-- The scopes around the methods of a class. -/
def ofMethods (parent : Option Reference) (π : Layers) : Layers :=
  match parent with
  | some _ => .shared :: .shared :: π
  | none => .shared :: π

end Layers

mutual

/-- The second statement is what the first one unfolds to, `π` being the scopes around it. For every
occurrence in it, `r` tells the scopes around the occurrence. -/
inductive Stmt.Unfolds (r : Layers → NodeId → Prop) : Layers → Stmt → Stmt → Prop
  | expression {π e} : (∀ id ∈ e.ids, r π id) → Stmt.Unfolds r π (.expression e) (.expression e)
  | print {π e} : (∀ id ∈ e.ids, r π id) → Stmt.Unfolds r π (.print e) (.print e)
  | var {π x} {e : Option Expr} : π.Declares → (∀ id ∈ Expr.allIds e.toList, r π id) →
    Stmt.Unfolds r π (.var x e) (.var x e)
  | block {π ss ss'} : Stmt.AllUnfold r (.shared :: π) ss ss' →
    Stmt.Unfolds r π (.block ss) (.block ss')
  | branch {π e s s'} : (∀ id ∈ e.ids, r π id) → Stmt.Unfolds r π s s' →
    Stmt.Unfolds r π (.branch e s none) (.branch e s' none)
  | branchElse {π e s s' o o'} : (∀ id ∈ e.ids, r π id) → Stmt.Unfolds r π s s' →
    Stmt.Unfolds r π o o' → Stmt.Unfolds r π (.branch e s (some o)) (.branch e s' (some o'))
  | loop {π e s s'} : s.declared? = none → (∀ id ∈ e.ids, r π id) → Stmt.Unfolds r π s s' →
    Stmt.Unfolds r π (.loop e s) (.loop e s')
  | counting {π initial' body'} {c : Counting} :
    Stmt.AllUnfold r (.shared :: π) c.initial.toList initial'.toList →
    (∀ id ∈ Expr.allIds c.condition.toList, r (.shared :: π) id) →
    Stmt.Unfolds r (.around c.step (.shared :: π)) c.body body' →
    (∀ id ∈ Expr.allIds c.step.toList, r (.added :: .shared :: π) id) →
    Stmt.Unfolds r π c.node (.counting initial' c.condition c.step body')
  | function {π decl decl'} : π.Declares → FunctionDecl.Unfolds r π decl decl' →
    Stmt.Unfolds r π (.function decl) (.function decl')
  | giveBack {π word} {e : Option Expr} : (∀ id ∈ Expr.allIds e.toList, r π id) →
    Stmt.Unfolds r π (.giveBack word e) (.giveBack word e)
  | classDecl {π x parent methods methods'} : π.Declares →
    (∀ id ∈ (parent.map Reference.id).toList, r π id) →
    FunctionDecl.AllUnfold r (.ofMethods parent π) methods methods' →
    Stmt.Unfolds r π (.classDecl x parent methods) (.classDecl x parent methods')

inductive Stmt.AllUnfold (r : Layers → NodeId → Prop) : Layers → List Stmt → List Stmt → Prop
  | nil {π} : Stmt.AllUnfold r π [] []
  | cons {π s s' ss ss'} : Stmt.Unfolds r π s s' → Stmt.AllUnfold r π ss ss' →
    Stmt.AllUnfold r π (s :: ss) (s' :: ss')

inductive FunctionDecl.Unfolds (r : Layers → NodeId → Prop) :
    Layers → FunctionDecl → FunctionDecl → Prop
  | mk {π x params body body'} : Stmt.AllUnfold r (.shared :: π) body body' →
    FunctionDecl.Unfolds r π ⟨x, params, body⟩ ⟨x, params, body'⟩

inductive FunctionDecl.AllUnfold (r : Layers → NodeId → Prop) :
    Layers → List FunctionDecl → List FunctionDecl → Prop
  | nil {π} : FunctionDecl.AllUnfold r π [] []
  | cons {π decl decl' decls decls'} : FunctionDecl.Unfolds r π decl decl' →
    FunctionDecl.AllUnfold r π decls decls' →
    FunctionDecl.AllUnfold r π (decl :: decls) (decl' :: decls')

end

section
variable {r r' : Layers → NodeId → Prop} {π : Layers}

/-- What a statement unfolds to declares the same name. -/
theorem Stmt.Unfolds.declared? {s s' : Stmt} (h : s.Unfolds r π s') :
    s'.declared? = s.declared? := by
  cases h with
  | function _ hdecl => cases hdecl; rfl
  | _ => rfl

theorem FunctionDecl.Unfolds.name {decl decl' : FunctionDecl} (h : decl.Unfolds r π decl') :
    decl'.name = decl.name := by
  cases h
  rfl

theorem FunctionDecl.Unfolds.params {decl decl' : FunctionDecl} (h : decl.Unfolds r π decl') :
    decl'.params = decl.params := by
  cases h
  rfl

mutual

theorem Stmt.Unfolds.mono (h : ∀ π id, r π id → r' π id) {π : Layers} {s s' : Stmt} :
    s.Unfolds r π s' → s.Unfolds r' π s'
  | .expression he => .expression fun id hid => h _ _ (he id hid)
  | .print he => .print fun id hid => h _ _ (he id hid)
  | .var hπ he => .var hπ fun id hid => h _ _ (he id hid)
  | .block hss => .block (hss.mono h)
  | .branch he hs => .branch (fun id hid => h _ _ (he id hid)) (hs.mono h)
  | .branchElse he hs ho => .branchElse (fun id hid => h _ _ (he id hid)) (hs.mono h) (ho.mono h)
  | .loop hbody he hs => .loop hbody (fun id hid => h _ _ (he id hid)) (hs.mono h)
  | .counting hinitial hcondition hbody hstep =>
    .counting (hinitial.mono h) (fun id hid => h _ _ (hcondition id hid)) (hbody.mono h)
      fun id hid => h _ _ (hstep id hid)
  | .function hπ hdecl => .function hπ (hdecl.mono h)
  | .giveBack he => .giveBack fun id hid => h _ _ (he id hid)
  | .classDecl hπ hparent hmethods =>
    .classDecl hπ (fun id hid => h _ _ (hparent id hid)) (hmethods.mono h)

theorem Stmt.AllUnfold.mono (h : ∀ π id, r π id → r' π id) {π : Layers} {ss ss' : List Stmt} :
    Stmt.AllUnfold r π ss ss' → Stmt.AllUnfold r' π ss ss'
  | .nil => .nil
  | .cons hs hrest => .cons (hs.mono h) (hrest.mono h)

theorem FunctionDecl.Unfolds.mono (h : ∀ π id, r π id → r' π id) {π : Layers}
    {decl decl' : FunctionDecl} : decl.Unfolds r π decl' → decl.Unfolds r' π decl'
  | .mk hbody => .mk (hbody.mono h)

theorem FunctionDecl.AllUnfold.mono (h : ∀ π id, r π id → r' π id) {π : Layers}
    {decls decls' : List FunctionDecl} :
    FunctionDecl.AllUnfold r π decls decls' → FunctionDecl.AllUnfold r' π decls decls'
  | .nil => .nil
  | .cons hdecl hrest => .cons (hdecl.mono h) (hrest.mono h)

end

end

/-! ### The scopes around each occurrence -/

/-- A place for each of some occurrences. -/
abbrev Placing := List (NodeId × Layers)

namespace Placing

/-- The occurrence is given this place. -/
def Places (L : Placing) (π : Layers) (id : NodeId) : Prop := (id, π) ∈ L

/-- All occurrences lie in the same place. -/
def one (π : Layers) (ids : List NodeId) : Placing := ids.map (·, π)

variable {L L' : Placing} {π : Layers} {id : NodeId} {ids : List NodeId}

@[simp] theorem fst_one : (one π ids).map Prod.fst = ids := by simp [one, Function.comp_def]

theorem places_one (h : id ∈ ids) : (one π ids).Places π id :=
  List.mem_map.mpr ⟨id, h, rfl⟩

theorem Places.left (L' : Placing) (h : L.Places π id) : (L ++ L').Places π id :=
  List.mem_append_left _ h

theorem Places.right (L : Placing) (h : L'.Places π id) : (L ++ L').Places π id :=
  List.mem_append_right _ h

/-- The place of an occurrence, which is among those listed. -/
def layers (L : Placing) (id : NodeId) : Layers :=
  (L.lookup id).getD []

theorem layers_of_places (hnodup : (L.map Prod.fst).Nodup) (h : L.Places π id) :
    L.layers id = π := by
  induction L with
  | nil => cases h
  | cons p rest ih =>
    obtain ⟨id', π'⟩ := p
    obtain ⟨hnew, hrest⟩ := List.nodup_cons.mp hnodup
    unfold layers
    rw [List.lookup_cons]
    obtain heq | hmem := List.mem_cons.mp h
    · cases heq
      simp
    · have hne : id ≠ id' := by
        rintro rfl
        exact hnew (List.mem_map.mpr ⟨_, hmem, rfl⟩)
      rw [beq_false_of_ne hne]
      exact ih hrest hmem

theorem layers_of_notMem (h : id ∉ L.map Prod.fst) : L.layers id = [] := by
  unfold layers
  rw [List.lookup_eq_none_iff.mpr]
  · rfl
  · rintro ⟨id', π'⟩ hmem
    rw [bne_iff_ne]
    rintro rfl
    exact h (List.mem_map.mpr ⟨_, hmem, rfl⟩)

end Placing

section
variable {r : Layers → NodeId → Prop} {π : Layers}

open Placing

mutual

/-- There is a place for every occurrence in what a statement unfolds to. -/
theorem Stmt.Unfolds.placing {π : Layers} {s s' : Stmt} : s.Unfolds r π s' →
    ∃ L : Placing, L.map Prod.fst = s'.ids ∧ s.Unfolds L.Places π s'
  | .expression _ => ⟨one π _, by simp [Stmt.ids], .expression fun _ => places_one⟩
  | .print _ => ⟨one π _, by simp [Stmt.ids], .print fun _ => places_one⟩
  | .var (e := none) hπ _ => ⟨[], rfl, .var hπ (by simp [Expr.allIds])⟩
  | .var (e := some e) hπ _ =>
    ⟨one π e.ids, by simp [Stmt.ids], .var hπ fun _ hid => places_one (by simpa [Expr.allIds] using hid)⟩
  | .block hss => by
    obtain ⟨L, hL, hss⟩ := hss.placing
    exact ⟨L, hL, .block hss⟩
  | .branch (e := e) _ hs => by
    obtain ⟨L, hL, hs⟩ := hs.placing
    refine ⟨one π e.ids ++ L, by simp [hL, Stmt.ids], .branch (fun _ hid => (places_one hid).left L) ?_⟩
    exact hs.mono fun _ _ => .right _
  | .branchElse (e := e) _ hs ho => by
    obtain ⟨L, hL, hs⟩ := hs.placing
    obtain ⟨L', hL', ho⟩ := ho.placing
    refine ⟨one π e.ids ++ L ++ L', by simp [hL, hL', Stmt.ids],
      .branchElse (fun _ hid => ((places_one hid).left L).left L') ?_ ?_⟩
    · exact hs.mono fun _ _ h => .left L' (.right _ h)
    · exact ho.mono fun _ _ => .right _
  | .loop (e := e) hbody _ hs => by
    obtain ⟨L, hL, hs⟩ := hs.placing
    refine ⟨one π e.ids ++ L, by simp [hL, Stmt.ids],
      .loop hbody (fun _ hid => (places_one hid).left L) ?_⟩
    exact hs.mono fun _ _ => .right _
  | .counting (c := c) hinitial _ hbody _ => by
    obtain ⟨L, hL, hinitial⟩ := hinitial.placing
    obtain ⟨L', hL', hbody⟩ := hbody.placing
    refine ⟨L ++ (one (.shared :: π) (Expr.allIds c.condition.toList) ++
      (L' ++ one (.added :: .shared :: π) (Expr.allIds c.step.toList))), ?_, .counting ?_ ?_ ?_ ?_⟩
    · simp [hL, hL', Stmt.ids_counting]
    · exact hinitial.mono fun _ _ => .left _
    · exact fun _ hid => .right _ ((places_one hid).left _)
    · exact hbody.mono fun _ _ h => .right _ (.right _ (.left _ h))
    · exact fun _ hid => .right _ (.right _ (.right _ (places_one hid)))
  | .function hπ hdecl => by
    obtain ⟨L, hL, hdecl⟩ := hdecl.placing
    exact ⟨L, hL, .function hπ hdecl⟩
  | .giveBack (e := none) _ => ⟨[], rfl, .giveBack (by simp [Expr.allIds])⟩
  | .giveBack (e := some e) _ =>
    ⟨one π e.ids, by simp [Stmt.ids], .giveBack fun _ hid => places_one (by simpa [Expr.allIds] using hid)⟩
  | @Stmt.Unfolds.classDecl _ _ _ parent _ _ hπ _ hmethods => by
    obtain ⟨L, hL, hmethods⟩ := hmethods.placing
    refine ⟨one π (parent.map Reference.id).toList ++ L, by simp [hL, Stmt.ids],
      .classDecl hπ (fun _ hid => (places_one hid).left L) ?_⟩
    exact hmethods.mono fun _ _ => .right _

theorem Stmt.AllUnfold.placing {π : Layers} {ss ss' : List Stmt} : Stmt.AllUnfold r π ss ss' →
    ∃ L : Placing, L.map Prod.fst = Stmt.allIds ss' ∧ Stmt.AllUnfold L.Places π ss ss'
  | .nil => ⟨[], rfl, .nil⟩
  | .cons hs hrest => by
    obtain ⟨L, hL, hs⟩ := hs.placing
    obtain ⟨L', hL', hrest⟩ := hrest.placing
    exact ⟨L ++ L', by simp [hL, hL', Stmt.allIds],
      .cons (hs.mono fun _ _ => .left _) (hrest.mono fun _ _ => .right _)⟩

theorem FunctionDecl.Unfolds.placing {π : Layers} {decl decl' : FunctionDecl} :
    decl.Unfolds r π decl' →
      ∃ L : Placing, L.map Prod.fst = decl'.ids ∧ decl.Unfolds L.Places π decl'
  | .mk hbody => by
    obtain ⟨L, hL, hbody⟩ := hbody.placing
    exact ⟨L, hL, .mk hbody⟩

theorem FunctionDecl.AllUnfold.placing {π : Layers} {decls decls' : List FunctionDecl} :
    FunctionDecl.AllUnfold r π decls decls' →
      ∃ L : Placing, L.map Prod.fst = FunctionDecl.allIds decls' ∧
        FunctionDecl.AllUnfold L.Places π decls decls'
  | .nil => ⟨[], rfl, .nil⟩
  | .cons hdecl hrest => by
    obtain ⟨L, hL, hdecl⟩ := hdecl.placing
    obtain ⟨L', hL', hrest⟩ := hrest.placing
    exact ⟨L ++ L', by simp [hL, hL', FunctionDecl.allIds],
      .cons (hdecl.mono fun _ _ => .left _) (hrest.mono fun _ _ => .right _)⟩

end

end

/-! ### Programs without nodes -/

section
variable {r : Layers → NodeId → Prop} {P : NodeId → Prop} {N : Token → Prop}

mutual

/-- A statement of the grammar unfolds to itself where all scopes are shared. -/
theorem Stmt.unfolds_self (hr : ∀ π id, π.AllShared → P id → r π id) {π : Layers}
    (hπ : π.AllShared) : (s : Stmt) → s.Spelled N → (∀ id ∈ s.ids, P id) → s.Unfolds r π s
  | .expression _, _, hids => .expression fun id hid => hr π id hπ (hids id hid)
  | .print _, _, hids => .print fun id hid => hr π id hπ (hids id hid)
  | .var _ none, _, _ => .var hπ.declares (by simp [Expr.allIds])
  | .var _ (some _), _, hids =>
    .var hπ.declares fun id hid => hr π id hπ (hids id (by simpa [Stmt.ids, Expr.allIds] using hid))
  | .block body, hs, hids => .block (Stmt.allUnfold_self hr hπ.shared body hs hids)
  | .branch e s none, hs, hids => by
    rw [Stmt.ids, List.forall_mem_append] at hids
    exact .branch (fun id hid => hr π id hπ (hids.1 id hid)) (s.unfolds_self hr hπ hs.2.1 hids.2)
  | .branch e s (some o), hs, hids => by
    rw [Stmt.ids, List.forall_mem_append, List.forall_mem_append] at hids
    exact .branchElse (fun id hid => hr π id hπ (hids.1.1 id hid))
      (s.unfolds_self hr hπ hs.2.1.1 hids.1.2) (o.unfolds_self hr hπ hs.2.2.1 hids.2)
  | .loop e s, hs, hids => by
    rw [Stmt.ids, List.forall_mem_append] at hids
    exact .loop hs.2.2 (fun id hid => hr π id hπ (hids.1 id hid))
      (s.unfolds_self hr hπ hs.2.1 hids.2)
  | .function decl, hs, hids => .function hπ.declares (decl.unfolds_self hr hπ hs hids)
  | .giveBack _ none, _, _ => .giveBack (by simp [Expr.allIds])
  | .giveBack _ (some _), _, hids =>
    .giveBack fun id hid => hr π id hπ (hids id (by simpa [Stmt.ids, Expr.allIds] using hid))
  | .classDecl _ none methods, hs, hids =>
    .classDecl hπ.declares (by simp) (FunctionDecl.allUnfold_self hr hπ.shared methods hs.2.2 hids)
  | .classDecl _ (some ref) methods, hs, hids => by
    rw [Stmt.ids, List.forall_mem_append] at hids
    exact .classDecl hπ.declares (fun id hid => hr π id hπ (hids.1 id hid))
      (FunctionDecl.allUnfold_self hr hπ.shared.shared methods hs.2.2 hids.2)

theorem Stmt.allUnfold_self (hr : ∀ π id, π.AllShared → P id → r π id) {π : Layers}
    (hπ : π.AllShared) : (ss : List Stmt) → Stmt.AllSpelled N ss → (∀ id ∈ Stmt.allIds ss, P id) →
      Stmt.AllUnfold r π ss ss
  | [], _, _ => .nil
  | s :: rest, hs, hids => by
    rw [Stmt.allIds, List.forall_mem_append] at hids
    exact .cons (s.unfolds_self hr hπ hs.1 hids.1) (Stmt.allUnfold_self hr hπ rest hs.2 hids.2)

theorem FunctionDecl.unfolds_self (hr : ∀ π id, π.AllShared → P id → r π id) {π : Layers}
    (hπ : π.AllShared) : (decl : FunctionDecl) → decl.Spelled N → (∀ id ∈ decl.ids, P id) →
      decl.Unfolds r π decl
  | ⟨_, _, body⟩, hs, hids => .mk (Stmt.allUnfold_self hr hπ.shared body hs.2.2 hids)

theorem FunctionDecl.allUnfold_self (hr : ∀ π id, π.AllShared → P id → r π id) {π : Layers}
    (hπ : π.AllShared) : (decls : List FunctionDecl) → FunctionDecl.AllSpelled N decls →
      (∀ id ∈ FunctionDecl.allIds decls, P id) → FunctionDecl.AllUnfold r π decls decls
  | [], _, _ => .nil
  | decl :: rest, hs, hids => by
    rw [FunctionDecl.allIds, List.forall_mem_append] at hids
    exact .cons (decl.unfolds_self hr hπ hs.1 hids.1)
      (FunctionDecl.allUnfold_self hr hπ rest hs.2 hids.2)

end

end

end Treewalk
