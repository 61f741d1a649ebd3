import Mathlib.Order.Nat
import Treewalk.Proofs.Session.Confinement
import Treewalk.Proofs.Store.Octets
import Treewalk.Proofs.Store.Walks

/-! Frames as a table of cells. Whatever was made and written so far, a walk reads, writes or misses one
cell of the table: the one of the nearest frame that binds the name, or of the frame so many steps out. -/

namespace Treewalk

/-- A table of cells: how many frames there are, the frame around each, and the value in the cell of a
frame and a name, if it has one. -/
@[ext]
structure Cells where
  count : Nat
  around : FrameId → Option FrameId
  value : FrameId → String → Option Value

namespace Cells

/-- The frame so many steps out. -/
def hop (t : Cells) : (distance : Nat) → FrameId → Option FrameId
  | 0, f => some f
  | distance + 1, f => (t.around f).bind (t.hop distance)

/-- The value in the cell of the frame so many steps out. -/
def at? (t : Cells) (f : FrameId) (distance : Nat) (name : String) : Option Value :=
  (t.hop distance f).bind (t.value · name)

/-- The table with another value in one cell. -/
def write (t : Cells) (f : FrameId) (name : String) (v : Value) : Cells :=
  { t with value := fun g other => if g = f ∧ other = name then some v else t.value g other }

/-- The distance of the nearest frame that binds the name. -/
def Nearest (t : Cells) (f : FrameId) (name : String) (distance : Nat) : Prop :=
  IsLeast {d | (t.at? f d name).isSome} distance

section
variable {t : Cells} {f g p : FrameId} {d : Nat} {name other : String} {v : Value}

theorem at?_succ (h : t.around f = some p) (d : Nat) (name : String) :
    t.at? f (d + 1) name = t.at? p d name := by
  rw [at?, at?, hop, h, Option.bind_some]

theorem at?_outermost (h : t.around f = none) (d : Nat) (name : String) :
    t.at? f (d + 1) name = none := by
  rw [at?, hop, h, Option.bind_none, Option.bind_none]

theorem exists_nearest (h : (t.at? f d name).isSome) : ∃ d, t.Nearest f name d :=
  ⟨_, Nat.isLeast_find ⟨d, h⟩⟩

/-- In front of the nearest frame the name is not bound. -/
theorem Nearest.unbound (h : t.Nearest f name (d + 1)) : t.value f name = none := by
  rw [← Option.not_isSome_iff_eq_none]
  intro hbound
  exact absurd (h.2 (show (t.at? f 0 name).isSome from hbound)) (Nat.not_succ_le_zero d)

theorem Nearest.succ (hp : t.around f = some p) (h : t.Nearest f name (d + 1)) :
    t.Nearest p name d := by
  refine ⟨?_, fun e he => Nat.le_of_succ_le_succ (h.2 ?_)⟩
  · have hbound : (t.at? f (d + 1) name).isSome := h.1
    rwa [at?_succ hp] at hbound
  · show (t.at? f (e + 1) name).isSome
    rwa [at?_succ hp]

theorem hop_write (t : Cells) (f : FrameId) (name : String) (v : Value) (d : Nat) (g : FrameId) :
    (t.write f name v).hop d g = t.hop d g := by
  induction d generalizing g with
  | zero => rfl
  | succ d ih =>
    rw [hop, hop]
    show (t.around g).bind _ = _
    cases t.around g with
    | none => rfl
    | some p => exact ih p

/-- Whoever comes to the frame reads the new value. -/
theorem at?_write_same (h : t.hop d f = some g) (name : String) (v : Value) :
    (t.write g name v).at? f d name = some v := by
  rw [at?, hop_write, h, Option.bind_some]
  exact if_pos ⟨rfl, rfl⟩

/-- Whoever comes to another frame, or asks for another name, reads what was there. -/
theorem at?_write_other (h : ¬(t.hop d f = some g ∧ other = name)) (v : Value) :
    (t.write g name v).at? f d other = t.at? f d other := by
  rw [at?, at?, hop_write]
  cases hhop : t.hop d f with
  | none => rfl
  | some k => exact if_neg fun ⟨hk, hother⟩ => h ⟨by rw [hhop, hk], hother⟩

end

end Cells

namespace Store

/-- The table that a store stands for. -/
def cells (s : Store) : Cells := ⟨s.frames.size, s.link?, s.binding?⟩

/-- The frames that can be made, one after the other, each alone or in a frame that is there, and written
to in between. A write that fails counts with what it leaves. -/
inductive Built : Store → Prop
  | empty : Built .empty
  | new {s} : Built s → Built (s.addFrame ∅ none).2
  | child {s f} : Built s → f < s.frames.size → Built (s.addFrame ∅ (some f)).2
  | define {s f name v} : Built s → f < s.frames.size → Built (s.define f name v)
  | assign {s f name v} : Built s → f < s.frames.size → Built (Walk.left (Walk.assign f name v s))
  | assignAt {s f name v d} : Built s → f < s.frames.size →
      Built (Walk.left (Walk.assignAt name v s d f))

variable {s : Store} {f g p : FrameId} {d : Nat} {name : Token} {v w : Value}

theorem link?_define (s : Store) (f : FrameId) (name : String) (v : Value) (g : FrameId) :
    (s.define f name v).link? g = s.link? g := by
  rw [link?, link?, define, Array.getElem?_modify]
  split
  · next h =>
    subst h
    cases s.frames[f]? <;> rfl
  · rfl

/-- A frame is linked to an older one, or to none. -/
def Linked (s : Store) : Prop := ∀ f p, s.link? f = some p → p < f

theorem Linked.addFrame (h : s.Linked) {around : Option FrameId}
    (haround : ∀ p, around = some p → p < s.frames.size) : (s.addFrame ∅ around).2.Linked := by
  intro f p hp
  rw [link?, Store.addFrame, Array.getElem?_push] at hp
  split at hp
  · next hf =>
    rw [hf]
    exact haround p hp
  · exact h f p hp

theorem Linked.define (h : s.Linked) (f : FrameId) (name : String) (v : Value) :
    (s.define f name v).Linked := by
  intro g p hp
  rw [link?_define] at hp
  exact h g p hp

/-- What a write leaves is a store with one cell written, or the store itself. -/
theorem Linked.changed (h : s.Linked) {found : Option FrameId} (name : Token) (v : Value) :
    (Walk.left (Walk.changed name s (found.map (s.define · name.lexeme v)))).Linked := by
  cases found with
  | none => exact h
  | some g => exact h.define g name.lexeme v

theorem Built.linked (h : s.Built) : s.Linked := by
  induction h with
  | empty => exact fun f p hp => by simp [link?, Store.empty] at hp
  | new _ ih =>
    refine ih.addFrame ?_
    rintro p hp
    cases hp
  | child _ hf ih =>
    refine ih.addFrame ?_
    rintro p ⟨⟩
    exact hf
  | define _ _ ih => exact ih.define _ _ _
  | assign _ _ ih =>
    rw [(Walk.search_eq _ _ _ _).2]
    exact ih.changed _ _
  | assignAt _ hf ih =>
    rw [Walk.assignAt_eq hf]
    exact ih.changed _ _

theorem Built.enclosing?_eq (h : s.Built) (f : FrameId) : s.enclosing? f = s.cells.around f := by
  show (s.link? f).filter (· < f) = s.link? f
  cases hp : s.link? f with
  | none => rfl
  | some p =>
    rw [Option.filter_some, if_pos]
    exact decide_eq_true (h.linked f p hp)

theorem Built.getAt_eq (h : s.Built) (name : String) (d : Nat) (f : FrameId) :
    Walk.getAt s name d f = s.cells.at? f d name := by
  induction d generalizing f with
  | zero => rfl
  | succ d ih =>
    rw [Walk.getAt, h.enclosing?_eq]
    cases hp : s.cells.around f with
    | none => rw [Cells.at?_outermost hp, Option.bind_none]
    | some p => rw [Cells.at?_succ hp, Option.bind_some, ih]

theorem Built.assignAt_eq (h : s.Built) (name : Token) (v : Value) (d : Nat) (f : FrameId) :
    Walk.assignAt name v s d f =
      Walk.changed name s ((s.cells.hop d f).map (s.define · name.lexeme v)) := by
  induction d generalizing f with
  | zero => rfl
  | succ d ih =>
    rw [Walk.assignAt, h.enclosing?_eq, Cells.hop]
    cases s.cells.around f with
    | none => rfl
    | some p => exact ih p

/-- A name that is bound is read and overwritten in the nearest frame that binds it. -/
theorem Built.search_of_nearest (h : s.Built) (hd : s.cells.Nearest f name.lexeme d) (v : Value) :
    ∃ w, s.cells.at? f d name.lexeme = some w ∧ Walk.get f name s = .ok w s ∧
      Walk.assign f name v s = Walk.assignAt name v s d f := by
  induction d generalizing f with
  | zero =>
    obtain ⟨w, hw⟩ := Option.isSome_iff_exists.mp hd.1
    have hbound : s.binding? f name.lexeme = some w := hw
    exact ⟨w, hw, Walk.get_of_bound hbound, Walk.assign_of_bound hbound v⟩
  | succ d ih =>
    have hnone : s.binding? f name.lexeme = none := hd.unbound
    cases hp : s.cells.around f with
    | none =>
      have hbound : (s.cells.at? f (d + 1) name.lexeme).isSome := hd.1
      rw [Cells.at?_outermost hp] at hbound
      cases hbound
    | some p =>
      have henclosing : s.enclosing? f = some p := (h.enclosing?_eq f).trans hp
      obtain ⟨w, hw, hget, hassign⟩ := ih (hd.succ hp)
      refine ⟨w, by rw [Cells.at?_succ hp, hw], ?_, ?_⟩
      · rw [Walk.get_of_enclosing? hnone henclosing, hget]
      · rw [Walk.assign_of_enclosing? hnone henclosing, hassign, Walk.assignAt, henclosing]

/-- A name that is bound in no frame outward is neither read nor written. -/
theorem Built.search_of_unbound (h : s.Built) (hnone : ∀ d, s.cells.at? f d name.lexeme = none)
    (v : Value) : Walk.get f name s = .error (Walk.undefined name) s ∧
      Walk.assign f name v s = .error (Walk.undefined name) s := by
  induction f using Nat.strongRecOn with
  | _ f ih =>
    have hunbound : s.binding? f name.lexeme = none := hnone 0
    cases hp : s.cells.around f with
    | none =>
      have henclosing : s.enclosing? f = none := (h.enclosing?_eq f).trans hp
      exact ⟨Walk.get_of_outermost hunbound henclosing,
        Walk.assign_of_outermost hunbound henclosing v⟩
    | some p =>
      have henclosing : s.enclosing? f = some p := (h.enclosing?_eq f).trans hp
      rw [Walk.get_of_enclosing? hunbound henclosing, Walk.assign_of_enclosing? hunbound henclosing]
      exact ih p (lt_of_enclosing? henclosing) fun d => by rw [← Cells.at?_succ hp, hnone]

theorem Built.lt_of_hop (h : s.Built) (hf : f < s.frames.size) (hg : s.cells.hop d f = some g) :
    g < s.frames.size := by
  induction d generalizing f with
  | zero =>
    cases hg
    exact hf
  | succ d ih =>
    obtain ⟨p, hp, hhop⟩ := Option.bind_eq_some_iff.mp hg
    exact ih (Nat.lt_trans (h.linked f p hp) hf) hhop

theorem cells_define (hg : g < s.frames.size) (name : String) (v : Value) :
    (s.define g name v).cells = s.cells.write g name v := by
  refine Cells.ext (s.size_define g name v) (funext (s.link?_define g name v)) ?_
  funext f other
  show (s.define g name v).binding? f other = _
  rw [binding?_define]
  refine if_congr ⟨fun h => ⟨h.1.symm, h.2.1.symm⟩, fun h => ⟨h.1.symm, h.2.symm, hg⟩⟩ rfl rfl

/-- A walk that counts its steps writes the cell that it comes to, or finds no frame. -/
theorem Built.assignAt_cells (h : s.Built) (hf : f < s.frames.size) (name : Token) (v : Value)
    (hg : s.cells.hop d f = some g) : ∃ s' : Store, s'.Built ∧
      Walk.assignAt name v s d f = .ok () s' ∧ s'.cells = s.cells.write g name.lexeme v := by
  have hassign : Walk.assignAt name v s d f = .ok () (s.define g name.lexeme v) := by
    rw [h.assignAt_eq, hg]
    rfl
  have hbuilt : (Walk.left (Walk.assignAt name v s d f)).Built := .assignAt h hf
  rw [hassign] at hbuilt
  exact ⟨_, hbuilt, hassign, cells_define (h.lt_of_hop hf hg) _ _⟩

/-- Frames are a table of cells. A name is searched for in the nearest frame that binds it: it is read
there, and overwritten as by so many steps; both fail if no frame outward binds it, and leave the frames as
they are. A write after so many steps fails only if there is no such frame, and else writes one cell: all
who come to that frame read the new value, and everything else is read as before. A listing has the cells
of a frame, upward in the bytes of the names. What the store answers is what the walks come to. -/
theorem Built.refines_cells (h : s.Built) (hf : f < s.frames.size) (name : Token) (v : Value) :
    (∀ x d, Walk.getAt s x d f = s.cells.at? f d x) ∧
    (∀ d, s.cells.Nearest f name.lexeme d →
      (∃ w, Walk.getAt s name.lexeme d f = some w ∧ Walk.get f name s = .ok w s) ∧
      ∃ s', Walk.assignAt name v s d f = .ok () s' ∧ Walk.assign f name v s = .ok () s') ∧
    (Walk.get f name s = .error (Walk.undefined name) s ↔
      ∀ d, s.cells.at? f d name.lexeme = none) ∧
    (Walk.assign f name v s = .error (Walk.undefined name) s ↔
      Walk.get f name s = .error (Walk.undefined name) s) ∧
    (∀ d, (Walk.assignAt name v s d f = .error (Walk.undefined name) s ↔ s.cells.hop d f = none) ∧
      ∀ g, s.cells.hop d f = some g → ∃ s' : Store, Walk.assignAt name v s d f = .ok () s' ∧
        s'.cells = s.cells.write g name.lexeme v ∧
        (∀ k e, s.cells.hop e k = some g → Walk.getAt s' name.lexeme e k = some v) ∧
        ∀ k e x, ¬(s.cells.hop e k = some g ∧ x = name.lexeme) →
          Walk.getAt s' x e k = Walk.getAt s x e k) ∧
    (∀ x w, (x, w) ∈ s.bindings f ↔ s.cells.value f x = some w) ∧
    ((s.bindings f).Pairwise fun a b => octets a.1 < octets b.1) ∧
    Walk.get f name s = Walk.found name s (s.get? f name.lexeme) ∧
    Walk.assign f name v s = Walk.changed name s (s.assign? f name.lexeme v) ∧
    ∀ d, Walk.getAt s name.lexeme d f = s.getAt? f d name.lexeme ∧
      Walk.assignAt name v s d f = Walk.changed name s (s.assignAt? f d name.lexeme v) := by
  have hnearest (d : Nat) (hd : s.cells.Nearest f name.lexeme d) :
      (∃ w, Walk.getAt s name.lexeme d f = some w ∧ Walk.get f name s = .ok w s) ∧
      ∃ s', Walk.assignAt name v s d f = .ok () s' ∧ Walk.assign f name v s = .ok () s' := by
    obtain ⟨w, hw, hget, hassign⟩ := h.search_of_nearest hd v
    obtain ⟨g, hg, -⟩ := Option.bind_eq_some_iff.mp hw
    obtain ⟨s', -, hwrite, -⟩ := h.assignAt_cells hf name v hg
    exact ⟨⟨w, by rw [h.getAt_eq, hw], hget⟩, s', hwrite, hassign.trans hwrite⟩
  -- A name is bound somewhere outward, or nowhere.
  have hcases : (∃ d, s.cells.Nearest f name.lexeme d) ∨
      ∀ d, s.cells.at? f d name.lexeme = none := by
    by_cases hbound : ∃ d, (s.cells.at? f d name.lexeme).isSome
    · exact .inl (Cells.exists_nearest hbound.choose_spec)
    · exact .inr fun d => Option.not_isSome_iff_eq_none.mp fun hd => hbound ⟨d, hd⟩
  have hunbound : Walk.get f name s = .error (Walk.undefined name) s →
      ∀ d, s.cells.at? f d name.lexeme = none := by
    intro hfail
    refine hcases.resolve_left fun ⟨d, hd⟩ => ?_
    obtain ⟨⟨w, -, hget⟩, -⟩ := hnearest d hd
    cases hget.symm.trans hfail
  refine ⟨fun x d => h.getAt_eq x d f, hnearest,
    ⟨hunbound, fun hnone => (h.search_of_unbound hnone v).1⟩, ⟨fun hfail => ?_, fun hfail =>
      (h.search_of_unbound (hunbound hfail) v).2⟩, fun d => ⟨?_, fun g hg => ?_⟩,
    fun x w => mem_bindings_iff, s.bindings_ascend f, (Walk.search_eq s f name v).1,
    (Walk.search_eq s f name v).2, fun d => ⟨Walk.getAt_eq s _ d f, Walk.assignAt_eq hf name v d⟩⟩
  · refine (h.search_of_unbound (hcases.resolve_left fun ⟨d, hd⟩ => ?_) v).1
    obtain ⟨-, s', -, hassign⟩ := hnearest d hd
    cases hassign.symm.trans hfail
  · rw [h.assignAt_eq]
    cases s.cells.hop d f with
    | none => exact ⟨fun _ => rfl, fun _ => rfl⟩
    | some g => exact ⟨nofun, nofun⟩
  · obtain ⟨s', hbuilt, hwrite, hcells⟩ := h.assignAt_cells hf name v hg
    refine ⟨s', hwrite, hcells, fun k e hk => ?_, fun k e x hother => ?_⟩
    · rw [hbuilt.getAt_eq, hcells, Cells.at?_write_same hk]
    · rw [hbuilt.getAt_eq, h.getAt_eq, hcells, Cells.at?_write_other hother]

/-- Three frames, one in the other, of which the two outer ones bind the same name. -/
def shadowing : Store :=
  let outer := (Store.empty.addFrame ∅ none).2.define 0 "a" .null
  let inner := (outer.addFrame ∅ (some 0)).2.define 1 "a" (.bool true)
  (inner.addFrame ∅ (some 1)).2

theorem nearest_shadowing : shadowing.cells.Nearest 2 "a" 1 := by
  have hinner : (shadowing.cells.at? 2 1 "a").isSome := by decide +kernel
  have hinnermost : ¬(shadowing.cells.at? 2 0 "a").isSome := by decide +kernel
  refine ⟨hinner, fun d hd => Nat.pos_of_ne_zero ?_⟩
  rintro rfl
  exact hinnermost hd

theorem built_shadowing : shadowing.Built :=
  .child (.define (.child (.define (.new .empty) (by decide)) (by decide)) (by decide)) (by decide)

theorem Built.refines_cells_shadowing : shadowing.Built ∧ 2 < shadowing.frames.size ∧
    shadowing.cells.Nearest 2 "a" 1 ∧
    Walk.get 2 ⟨.identifier, "a", 1⟩ shadowing = .ok (.bool true) shadowing ∧
    ∃ s', Walk.assign 2 ⟨.identifier, "a", 1⟩ (.bool false) shadowing = .ok () s' ∧
      Walk.getAt s' "a" 0 1 = some (.bool false) ∧
      Walk.getAt s' "a" 2 2 = Walk.getAt shadowing "a" 2 2 := by
  have hsize : 2 < shadowing.frames.size := by decide
  obtain ⟨hgetAt, hnearest, -, -, hassignAt, -⟩ :=
    Built.refines_cells built_shadowing hsize ⟨.identifier, "a", 1⟩ (.bool false)
  obtain ⟨⟨w, hw, hget⟩, s', hwrite, hassign⟩ := hnearest 1 nearest_shadowing
  obtain ⟨s'', hwrite', -, hsame, hother⟩ := (hassignAt 1).2 1 rfl
  cases hwrite.symm.trans hwrite'
  have hvalue : shadowing.cells.at? 2 1 "a" = some (.bool true) := by rfl
  obtain rfl : w = .bool true := Option.some.inj (hw.symm.trans ((hgetAt "a" 1).trans hvalue))
  exact ⟨built_shadowing, hsize, nearest_shadowing, hget, s', hassign, hsame 1 0 rfl,
    hother 2 2 "a" (by decide)⟩

end Store

end Treewalk
