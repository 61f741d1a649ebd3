import Treewalk.Proofs.Session.History
import Treewalk.Proofs.Twins.Simulation

/-! Runs of like programs on twin machines, from the first statement to the last. -/

namespace Treewalk

open Treewalk.Action

namespace Program

variable {G : Disguise} {K : Marks} {m m' : Machine} {host : Host} {depth : Nat} {p p' : Program}

/-- At no moment of a run a local name is missing that changes. -/
def Clear (G : Disguise) (host : Host) (depth : Nat) (p : Program) (m : Machine) : Prop :=
  ∀ t m₁, p.Passes host depth m t m₁ → t.Clear G m₁

theorem clear_of_plain (hG : G.Plain) : p.Clear G host depth m := by
  intro t m₁ _
  have hclear : t.AllClear G host 0 m₁ := hG.allClear
  exact hclear t m₁ .self

section
variable (hhost : host.AnswersNumbers) (hdeaf : host.IgnoresArguments)
include hhost hdeaf

/-- Like programs run alike on twin machines, outside of all local scopes. -/
theorem alike_execute (hm : m.Twin G K m') (hactive : K m.active = none)
    (hp : Stmt.AllLike G none p p') (hclear : p.Clear G host depth m) :
    Alike G K (executeProgram host depth p) (executeProgram host depth p') m m'
      fun _ _ _ _ => True := by
  induction p generalizing p' K m m' with
  | nil =>
    cases hp
    exact .pure hm trivial
  | cons s rest ih =>
    obtain _ | ⟨hs, hrest⟩ := hp
    rw [← hactive] at hs
    refine ((simulates G hhost hdeaf depth).statement hm hs fun t m₁ hwithin =>
      hclear t m₁ (.first hwithin)).bind ?_
    intro K₁ _ _ m₁ m₁' hrun hfollows _
    exact ih hfollows.twin ((hfollows.mark hm).trans hactive) hrest fun t m₂ hpasses =>
      hclear t m₂ (.rest hrun hpasses)

theorem alike_interpret (hm : m.Twin G K m') (hactive : K m.active = none)
    (hp : Stmt.AllLike G none p p') (hclear : p.Clear G host depth m) :
    Alike G K (interpret host depth p) (interpret host depth p') m m' fun _ _ _ _ => True :=
  (alike_execute hhost hdeaf hm hactive hp hclear).bind fun _ _ _ _ _ _ hfollows _ =>
    alike_flush hfollows.twin

end

/-- Consecutive programs run one after the other. -/
theorem execute_append (p q : Program) : executeProgram host depth (p ++ q) =
    (executeProgram host depth p >>= fun _ => executeProgram host depth q) := by
  induction p with
  | nil => rfl
  | cons s rest ih =>
    rw [List.cons_append, executeProgram, ih, executeProgram, bind_assoc]

end Program

end Treewalk
