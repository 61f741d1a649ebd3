import Treewalk.Proofs.Direct.Trees
import Treewalk.Proofs.Evaluation.Correspondence
import Treewalk.Proofs.Evaluation.Frames

/-! Frames with nodes and without. Every frame that is made with nodes has its seat among those that
are made without them; the frames of the scopes that are added have none. Two frames are aligned
with the scopes around a place if, going outward, one seat follows the other, but for these. -/

namespace Treewalk

/-- What two runs have in common: the distances that were found with nodes, those that were found
without, and the number of frames that there were before. -/
structure Setting where
  direct : Distances
  unfolded : Distances
  base : FrameId

/-- The distances of an occurrence differ by the scopes that are added. -/
def Setting.Lies (W : Setting) (π : Layers) (id : NodeId) : Prop :=
  W.unfolded[id]? = W.direct[id]?.map π.lift

/-- The stores with nodes and without, and where the frames of the one are in the other. -/
structure Seating where
  seat : FrameId → FrameId
  direct : Store
  unfolded : Store

/-- The frame is made for a scope that is added. -/
def Seating.Unseated (S : Seating) (f' : FrameId) : Prop :=
  ∀ f < S.direct.frames.size, S.seat f ≠ f'

/-- Both stores have grown, no frame has changed its seat, and new frames have new seats. -/
structure Seating.Extends (S S' : Seating) : Prop where
  direct : S.direct.Grows S'.direct
  unfolded : S.unfolded.Grows S'.unfolded
  seat : ∀ f < S.direct.frames.size, S'.seat f = S.seat f
  fresh : ∀ f < S'.direct.frames.size, S.direct.frames.size ≤ f →
    S.unfolded.frames.size ≤ S'.seat f

namespace Seating.Extends

variable {S S' S'' : Seating}

theorem refl (S : Seating) : S.Extends S :=
  ⟨.refl _, .refl _, fun _ _ => rfl, fun _ hf hnew => absurd hf (Nat.not_lt_of_le hnew)⟩

theorem trans (h : S.Extends S') (h' : S'.Extends S'') : S.Extends S'' where
  direct := h.direct.trans h'.direct
  unfolded := h.unfolded.trans h'.unfolded
  seat f hf := by rw [h'.seat f (Nat.lt_of_lt_of_le hf h.direct.size), h.seat f hf]
  fresh f hf hnew := by
    obtain hlt | hge := Nat.lt_or_ge f S'.direct.frames.size
    · rw [h'.seat f hlt]
      exact h.fresh f hlt hnew
    · exact Nat.le_trans h.unfolded.size (h'.fresh f hf hge)

/-- No frames are made with nodes. -/
theorem of_size (hdirect : S.direct.Grows S'.direct) (hunfolded : S.unfolded.Grows S'.unfolded)
    (hseat : S'.seat = S.seat) (hsize : S'.direct.frames.size = S.direct.frames.size) :
    S.Extends S' where
  direct := hdirect
  unfolded := hunfolded
  seat _ _ := by rw [hseat]
  fresh _ hf hnew := absurd (hsize ▸ hf) (Nat.not_lt_of_le hnew)

theorem unseated {f' : FrameId} (h : S.Extends S') (hf' : f' < S.unfolded.frames.size)
    (hnone : S.Unseated f') : S'.Unseated f' := by
  intro f hf
  obtain hlt | hge := Nat.lt_or_ge f S.direct.frames.size
  · rw [h.seat f hlt]
    exact hnone f hlt
  · exact Nat.ne_of_gt (Nat.lt_of_lt_of_le hf' (h.fresh f hf hge))

end Seating.Extends

/-- The frames are those of a place with these scopes around it, with nodes and without. -/
inductive Layers.Aligned (W : Setting) (S : Seating) : Layers → FrameId → FrameId → Prop
  | base {f} : f < W.base → Aligned W S [] f f
  | shared {π f p p'} : f < S.direct.frames.size → S.seat f < S.unfolded.frames.size →
    S.direct.enclosing? f = some p → S.unfolded.enclosing? (S.seat f) = some p' →
    Aligned W S π p p' → Aligned W S (.shared :: π) f (S.seat f)
  | added {π f f' p'} : f' < S.unfolded.frames.size → S.Unseated f' →
    S.unfolded.enclosing? f' = some p' → Aligned W S π f p' → Aligned W S (.added :: π) f f'

theorem Layers.Aligned.mono {W : Setting} {S S' : Seating} {π : Layers} {f f' : FrameId}
    (h : π.Aligned W S f f') (hS : S.Extends S') : π.Aligned W S' f f' := by
  induction h with
  | base hf => exact .base hf
  | @shared π f p p' hf hf' hp hp' _ ih =>
    rw [← hS.seat f hf] at hf' hp' ⊢
    exact .shared (Nat.lt_of_lt_of_le hf hS.direct.size) (Nat.lt_of_lt_of_le hf' hS.unfolded.size)
      (by rw [hS.direct.enclosing f hf, hp]) (by rw [hS.unfolded.enclosing _ hf', hp']) ih
  | added hf' hnone hp' _ ih =>
    exact .added (Nat.lt_of_lt_of_le hf' hS.unfolded.size) (hS.unseated hf' hnone)
      (by rw [hS.unfolded.enclosing _ hf', hp']) ih

/-- The second function is what the first one unfolds to, `inner` being the scopes between the
function and its frame. -/
structure Closure.Mirrors (W : Setting) (S : Seating) (inner : Layers) (f f' : Closure) : Prop where
  identity : f'.identity = f.identity
  isInitializer : f'.isInitializer = f.isInitializer
  spelled : f'.decl.Spelled Token.IsName
  placed : ∃ π : Layers, π.Declares ∧ π.Aligned W S f.frame f'.frame ∧
    f.decl.Unfolds W.Lies (inner ++ π) f'.decl

section
variable {W : Setting} {S S' : Seating} {inner : Layers}

theorem Closure.Mirrors.mono {f f' : Closure} (h : f.Mirrors W S inner f') (hS : S.Extends S') :
    f.Mirrors W S' inner f' := by
  obtain ⟨π, hπ, haligned, hdecl⟩ := h.placed
  exact ⟨h.identity, h.isInitializer, h.spelled, π, hπ, haligned.mono hS, hdecl⟩

theorem Closure.indistinct_mirrors :
    Closure.Indistinct (Closure.Mirrors W S inner) where
  identity h := h.identity
  name h := by
    obtain ⟨π, -, -, hdecl⟩ := h.placed
    exact congrArg Token.lexeme hdecl.name
  arity h := by
    obtain ⟨π, -, -, hdecl⟩ := h.placed
    exact congrArg List.length hdecl.params

end

/-- Methods of classes have a scope for the receiver between them and their frames. -/
abbrev Class.Mirrors (W : Setting) (S : Seating) : Class → Class → Prop :=
  Class.Corresponds (Closure.Mirrors W S [.shared])

/-- The second value is what the first one is without nodes. -/
abbrev Value.Mirrors (W : Setting) (S : Seating) : Value → Value → Prop :=
  Value.Corresponds (Closure.Mirrors W S []) (Closure.Mirrors W S [.shared])

section
variable {W : Setting} {S S' : Seating} (hS : S.Extends S')
include hS

theorem Class.Mirrors.mono {c c' : Class} (h : c.Mirrors W S c') : c.Mirrors W S' c' :=
  Class.Corresponds.mono (fun _ _ hf => hf.mono hS) h

theorem Value.Mirrors.mono {v v' : Value} (h : v.Mirrors W S v') : v.Mirrors W S' v' :=
  Value.Corresponds.mono (fun _ _ hf => hf.mono hS) (fun _ _ hf => hf.mono hS) h

end

end Treewalk
