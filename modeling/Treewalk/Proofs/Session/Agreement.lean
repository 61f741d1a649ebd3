import Mathlib
import Treewalk.Proofs.Session.Soundness

/-! Resolution and evaluation agree on frames. Resolution walks through scopes before a program
runs, evaluation makes frames while it runs; at every moment of every run, the frames around the
active one are those made for the scopes that resolution found there. -/

namespace Treewalk

/-- The frame at a distance is the one that stands there in the chain. -/
theorem Store.getElem?_chain {s : Store} {f frame : FrameId} {d : Nat}
    (h : s.ancestor? f d = some frame) : (s.chain f)[d]? = some frame := by
  induction d generalizing f with
  | zero =>
    rw [Store.ancestor?] at h
    split at h
    · cases h
      rw [Store.chain]
      split <;> rfl
    · cases h
  | succ d ih =>
    rw [Store.ancestor?] at h
    split at h
    · next p hp => rw [Store.chain_of_enclosing? hp, List.getElem?_cons_succ, ih h]
    · cases h

/-- The frames from the active one outward, without the global one, are as many as the scopes around
a point, and each was made for what its scope was opened for. -/
structure History.FramesFor (h : History) (sink : Sink) (time : Nat → Float) (m : Machine)
    (ctx : Context) (os : List Opening) (frames : List FrameId) : Prop where
  chain : m.store.chain m.active = frames ++ [m.globals]
  length : frames.length = ctx.scopes.length
  made : List.Forall₂ (h.Made sink time) frames os

/-- The frame `d` hops out is the frame of the scope that declares `name`, and no scope nearer
declares it. -/
structure Machine.Meets (m : Machine) (ctx : Context) (frames : List FrameId) (name : String)
    (d : Nat) (frame : FrameId) : Prop where
  distance : ctx.distance? name = some d
  hops : m.store.ancestor? m.active d = some frame
  stands : frames[d]? = some frame

/-- An expression that reads a name, and the name that it reads. -/
def Expr.read? : Expr → Option (Reference × String)
  | .variable ref => some (ref, ref.name.lexeme)
  | .this ref => some (ref, "this")
  | .parent ref _ => some (ref, "parent")
  | _ => none

/-- The expression stands in the initial value of a variable `name` that is being declared in the
innermost scope. -/
def Expr.InInitialValue (program : Program) (ctx : Context) (os : List Opening) (name : String)
    (e : Expr) : Prop :=
  ∃ x initial ctx', Visits program (.statement (.var x (some initial))) ctx' os ∧
    x.lexeme = name ∧ ctx = ctx'.declare name ∧
    Relation.ReflTransGen (fun e e' => e' ∈ Expr.children e) initial e

theorem Visits.inInitialValue {program : Program} {ctx : Context} {os : List Opening}
    {name : String} {e : Expr} (h : Visits program (.expression (some name) e) ctx os)
    (hne : ∀ ref, e ≠ .variable ref) : e.InInitialValue program ctx os name := by
  generalize hnode : Node.expression (some name) e = node at h
  induction h generalizing e with
  | initial hvar =>
    cases hnode
    exact ⟨_, _, _, hvar, rfl, rfl, .refl⟩
  | heritage =>
    cases hnode
    exact absurd rfl (hne _)
  | @inside underway outer inner ctx os _ hinner ih =>
    cases hnode
    have houter : ∀ ref, outer ≠ .variable ref := by
      rintro ref rfl
      cases hinner
    obtain ⟨x, initial, ctx', hvar, hname, hctx, hpath⟩ := ih houter rfl
    exact ⟨x, initial, ctx', hvar, hname, hctx, hpath.tail hinner⟩
  | _ => cases hnode

namespace History

variable {sink : Sink} {time : Nat → Float} {h : History} {t : Task} {m : Machine}

theorem framesFor {W : World} {except : Option String} {ctx : Context} {os : List Opening}
    (hm : m.Sound W) (hW : W.Extends (h.world sink time))
    (hfits : Fits W m.store except m.active ctx.scopes os) :
    ∃ frames, h.FramesFor sink time m ctx os frames := by
  obtain ⟨frames, hchain, hlength, hmade⟩ := hfits.chain hm.store.outermost
  exact ⟨frames, hm.globals ▸ hchain, hlength, hmade.imp fun f o hmade => (hW.made f o hmade).made⟩

/-- Where a scope declares a name, its frame stands at its distance. -/
theorem FramesFor.meets {W : World} {except : Option String} {ctx : Context} {os : List Opening}
    {frames : List FrameId} {name : String} {d : Nat} (hframes : h.FramesFor sink time m ctx os frames)
    (hfits : Fits W m.store except m.active ctx.scopes os) (hd : ctx.distance? name = some d) :
    ∃ frame, m.Meets ctx frames name d frame ∧
      ((m.store.binding? frame name).isSome ∨ d = 0 ∧ except = some name) := by
  obtain ⟨scope, hscope, hname⟩ := Context.scope_of_distance? hd
  obtain ⟨frame, -, hhops, -, -, hbound⟩ := hfits.frame_of_scope hscope
  have hlt : d < frames.length := by
    rw [hframes.length]
    exact (List.getElem?_eq_some_iff.mp hscope).1
  have hstands := Store.getElem?_chain hhops
  rw [hframes.chain, List.getElem?_append_left hlt] at hstands
  exact ⟨frame, ⟨hd, hhops, hstands⟩, hbound name hname⟩

/-- A local occurrence that is read has its frame, which binds it. -/
theorem FramesFor.read {W : World} {p : Program} {underway : Option String} {ctx : Context}
    {os : List Opening} {frames : List FrameId} {e : Expr} {ref : Reference} {name : String} {d : Nat}
    (hframes : h.FramesFor sink time m ctx os frames) (hW : W.Accepted) (hp : p ∈ W.programs)
    (hvisits : Visits p (.expression underway e) ctx os) (hm : m.Sound W)
    (hfits : Fits W m.store underway m.active ctx.scopes os) (hread : e.read? = some (ref, name))
    (hd : m.distances[ref.id]? = some d) :
    ∃ frame, m.Meets ctx frames name d frame ∧ (m.store.binding? frame name).isSome := by
  have hlocal : ctx.distance? name = some d ∧ (d = 0 → underway ≠ some name) := by
    rw [hm.distances] at hd
    cases e with
    | this ref' =>
      cases hread
      obtain ⟨-, d', hd', hdistance⟩ := hvisits.this (hW.resolved p hp) (hW.spelled p hp)
      cases hd.symm.trans hd'
      refine ⟨hdistance, fun _ hunder => ?_⟩
      exact ((hunder ▸ hvisits).ordinary (hW.spelled p hp)).1 rfl
    | parent ref' method =>
      cases hread
      obtain ⟨-, k, scope, hd', hdistance, -⟩ := hvisits.parent (hW.resolved p hp) (hW.spelled p hp)
      cases hd.symm.trans hd'
      exact ⟨hdistance, nofun⟩
    | _ =>
      first
      | cases hread; done
      | cases hread
        obtain ⟨hdistance, hnot⟩ := hvisits.read (hW.resolved p hp)
        rw [hdistance] at hd
        exact ⟨hd, fun hzero => (hnot d hd).resolve_left (absurd hzero)⟩
  obtain ⟨frame, hmeets, hbound⟩ := hframes.meets hfits hlocal.1
  refine ⟨frame, hmeets, hbound.resolve_right ?_⟩
  rintro ⟨hzero, hunder⟩
  exact hlocal.2 hzero hunder

/-- A local occurrence that is written to has its frame, which binds it, unless it is assigned in its
own initial value. -/
theorem FramesFor.assigned {W : World} {p : Program} {underway : Option String} {ctx : Context}
    {os : List Opening} {frames : List FrameId} {ref : Reference} {value : Expr} {d : Nat}
    (hframes : h.FramesFor sink time m ctx os frames) (hW : W.Accepted) (hp : p ∈ W.programs)
    (hvisits : Visits p (.expression underway (.assign ref value)) ctx os) (hm : m.Sound W)
    (hfits : Fits W m.store underway m.active ctx.scopes os)
    (hd : m.distances[ref.id]? = some d) :
    ∃ frame, m.Meets ctx frames ref.name.lexeme d frame ∧
      ((m.store.binding? frame ref.name.lexeme).isSome ∨
        d = 0 ∧ (Expr.assign ref value).InInitialValue p ctx os ref.name.lexeme) := by
  rw [hm.distances, hvisits.assigned (hW.resolved p hp)] at hd
  obtain ⟨frame, hmeets, hbound⟩ := hframes.meets hfits hd
  refine ⟨frame, hmeets, hbound.imp_right ?_⟩
  rintro ⟨hzero, rfl⟩
  exact ⟨hzero, hvisits.inInitialValue nofun⟩

/-- At every moment of every run, resolution and evaluation agree on frames. Where a statement is run
or an expression is evaluated, the program that it belongs to was accepted, resolution came to it
with some scopes, and the frames around the active one are those made for these scopes. What is read
at a distance stands at that distance in the frame of the scope that declares it, and is bound
there; so is what is written to, unless it is assigned in its own initial value. -/
theorem frames_agree_with_scopes (hpasses : h.Passes sink time t m) :
    (∀ s, t = .statement s → ∃ p ∈ h.programs sink time, ∃ ctx os frames,
      Visits p (.statement s) ctx os ∧ h.FramesFor sink time m ctx os frames) ∧
    (∀ e, t = .expression e → ∃ p ∈ h.programs sink time, ∃ underway ctx os frames,
      Visits p (.expression underway e) ctx os ∧ h.FramesFor sink time m ctx os frames ∧
      ∀ ref name d, e.read? = some (ref, name) → m.distances[ref.id]? = some d →
        ∃ frame, m.Meets ctx frames name d frame ∧ (m.store.binding? frame name).isSome) ∧
    ∀ ref value, (t = .expression (.assign ref value) ∨ ∃ v, t = .write ref value v) →
      ∃ p ∈ h.programs sink time, ∃ underway ctx os frames,
        Visits p (.expression underway (.assign ref value)) ctx os ∧
        h.FramesFor sink time m ctx os frames ∧
        ∀ d, m.distances[ref.id]? = some d →
          ∃ frame, m.Meets ctx frames ref.name.lexeme d frame ∧
            ((m.store.binding? frame ref.name.lexeme).isSome ∨
              d = 0 ∧ (Expr.assign ref value).InInitialValue p ctx os ref.name.lexeme) := by
  obtain ⟨W, hW, hextends, hm, ht⟩ := hpasses.fitting
  refine ⟨?_, ?_, ?_⟩
  · rintro s rfl
    obtain ⟨p, hp, ctx, os, hvisits, hfits⟩ := ht
    obtain ⟨frames, hframes⟩ := framesFor hm hextends hfits
    exact ⟨p, hextends.programs p hp, ctx, os, frames, hvisits, hframes⟩
  · rintro e rfl
    obtain ⟨underway, p, hp, ctx, os, hvisits, hfits⟩ := ht
    obtain ⟨frames, hframes⟩ := framesFor hm hextends hfits
    exact ⟨p, hextends.programs p hp, underway, ctx, os, frames, hvisits, hframes,
      fun ref name d hread hd => hframes.read hW hp hvisits hm hfits hread hd⟩
  · intro ref value htask
    have hat : ∃ underway, m.At W (.expression underway (.assign ref value)) := by
      obtain rfl | ⟨v, rfl⟩ := htask
      · exact ht
      · exact ht.1
    obtain ⟨underway, p, hp, ctx, os, hvisits, hfits⟩ := hat
    obtain ⟨frames, hframes⟩ := framesFor hm hextends hfits
    exact ⟨p, hextends.programs p hp, underway, ctx, os, frames, hvisits, hframes,
      fun d hd => hframes.assigned hW hp hvisits hm hfits hd⟩

theorem frames_agree_at_local_read : ∃ m,
    let h : History := [(9, "\x7b var x; x; \x7d")]
    let e := Expr.variable ⟨0, ⟨.identifier, "x", 1⟩⟩
    h.Passes .unbounded (fun _ => 0) (.expression e) m ∧
      ∃ p ∈ h.programs .unbounded (fun _ => 0), ∃ underway ctx os frames,
        Visits p (.expression underway e) ctx os ∧
        h.FramesFor .unbounded (fun _ => 0) m ctx os frames ∧
        ∀ ref name d, e.read? = some (ref, name) → m.distances[ref.id]? = some d →
          ∃ frame, m.Meets ctx frames name d frame ∧ (m.store.binding? frame name).isSome := by
  have haccepted : (session .unbounded (fun _ => 0) []).accepted? "\x7b var x; x; \x7d" =
      some [.block [.var ⟨.identifier, "x", 1⟩ none,
        .expression (.variable ⟨0, ⟨.identifier, "x", 1⟩⟩)]] := by
    cbv
  have hpasses : ∃ m, Passes .unbounded (fun _ => 0) [(9, "\x7b var x; x; \x7d")]
      (.expression (.variable ⟨0, ⟨.identifier, "x", 1⟩⟩)) m :=
    ⟨_, .inl ⟨_, haccepted, .first (.step (.block rfl) (.step (.rest rfl) (.step .first
      (.step .value .self))))⟩⟩
  obtain ⟨m, hpasses⟩ := hpasses
  exact ⟨m, hpasses, (frames_agree_with_scopes hpasses).2.1 _ rfl⟩

end History

end Treewalk
