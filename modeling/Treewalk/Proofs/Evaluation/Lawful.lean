import Treewalk.Proofs.Evaluation.Preservation
import Treewalk.Proofs.Evaluation.Story

/-! What changes are made. A task that fits binds a name only in the global frame or in a frame whose
scope has the name, and makes a frame around which there is an older one; the new frame binds only
names of its scope. -/

namespace Treewalk

namespace Task

variable {W : World} {k : Nat} {t : Task} {m : Machine} {s : Store} {f p : FrameId} {name : String}
  {names : List String} {v : Value} {b : Bindings}

/-- Whatever a frame is made for, it is added with the names of its scope; one that is there for a single
name binds that name from the start, and nothing else. -/
theorem MakesWithin.adds {o : Opening} (h : t.MakesWithin k m o) :
    ∃ s b p, t.Adds k m s o.names b p ∧ s.frames.size = m.store.frames.size ∧
      ∀ name ∈ o.single?, ∃ v, b = (∅ : Bindings).insert name v := by
  have hbind (f : Closure) (i : Instance) (methods : List FunctionDecl) : ∃ s b p,
      Adds k (.bind f i) m s (Opening.receiver methods).names b p ∧
        s.frames.size = m.store.frames.size ∧
        ∀ name ∈ (Opening.receiver methods).single?, ∃ v, b = (∅ : Bindings).insert name v :=
    ⟨_, _, _, .bind, rfl, fun _ hname => by cases hname; exact ⟨_, rfl⟩⟩
  cases h with
  | bind _ => exact hbind _ _ _
  | deeper h =>
    cases h with
    | block => exact ⟨_, _, _, .block, rfl, nofun⟩
    | call => exact ⟨_, _, _, .call, rfl, nofun⟩
    | bind _ => exact hbind _ _ _
    | subclass hvalue =>
      exact ⟨_, _, _, .subclass hvalue, by simp, fun _ hname => by cases hname; exact ⟨_, rfl⟩⟩

theorem Adds.makes (h : t.Adds k m s names b p) :
    ∃ o, t.MakesWithin k m o ∧ o.names = names ∧ s.frames.size = m.store.frames.size := by
  cases h with
  | block => exact ⟨_, .deeper .block, rfl, rfl⟩
  | call => exact ⟨_, .deeper .call, rfl, rfl⟩
  | @bind _ f i _ => exact ⟨.receiver [f.decl], .bind (List.mem_singleton.mpr rfl), rfl, rfl⟩
  | subclass hvalue => exact ⟨_, .deeper (.subclass hvalue), rfl, by simp⟩

theorem Does.made (h : t.Does k m s (.make names b p)) : t.Adds k m s names b p := by
  cases h with
  | adds hadds => exact hadds

/-- Around a frame that is made there is one that exists, and the new one binds only names of its
scope. -/
theorem Adds.lawful (h : t.Adds k m s names b p) (hm : m.Sound W) (ht : t.Fitting W m) :
    p < m.store.frames.size ∧ ∀ name : String, (b[name]?).isSome → name ∈ names := by
  cases h with
  | block =>
    obtain ⟨q, -, ctx, os, -, hfits⟩ := ht
    exact ⟨hfits.lt_size hm.store.globals, by simp⟩
  | call =>
    obtain ⟨⟨q, -, kind, ctx, os, -, -, hfits⟩, hlength, -⟩ := ht
    refine ⟨hfits.lt_size hm.store.globals, fun name hname => ?_⟩
    obtain ⟨param, hparam, rfl⟩ := (argumentBindings_binds hlength).mp hname
    exact List.mem_append_left _ (List.mem_map_of_mem hparam)
  | bind =>
    obtain ⟨⟨q, -, kind, ctx, methods, os, scope, scopes, -, -, -, -, -, hfits⟩, -⟩ := ht
    refine ⟨hfits.lt_size hm.store.globals, fun name hname => ?_⟩
    by_cases heq : "this" = name
    · exact List.mem_singleton.mpr heq.symm
    · simp [heq] at hname
  | subclass =>
    obtain ⟨q, -, ctx, os, -, hfits⟩ := ht
    refine ⟨hfits.lt_size hm.store.globals, fun name hname => ?_⟩
    by_cases heq : "parent" = name
    · exact List.mem_singleton.mpr heq.symm
    · simp [heq] at hname

/-- Where a task binds a name: in a frame whose scope has it, or in the global frame, which binds it
already unless the task is its declaration. -/
structure Places (W : World) (m : Machine) (t : Task) (f : FrameId) (name : String) : Prop where
  ne_this : name ≠ "this"
  ne_parent : name ≠ "parent"
  frame : (∃ o, W.made f o ∧ name ∈ o.names) ∨
    f = W.globals ∧ ((m.store.binding? f name).isSome ∨
      ∃ s, t = .statement s ∧ name ∈ Stmt.names [s] ∧ m.active = W.globals)

theorem Does.places (h : t.Does k m s (.bind f name v)) (hW : W.Accepted) (hm : m.Sound W)
    (ht : t.Fitting W m) : Places W m t f name := by
  cases h with
  | declares hdeclared hf =>
    obtain ⟨p, hp, ctx, os, hvisits, hfits⟩ := ht
    obtain rfl := hf (hfits.lt_size hm.store.globals)
    have hname := (hvisits.spelled (hW.spelled p hp)).declared hdeclared
    have hmem := Stmt.mem_names_of_declared hdeclared
    obtain ⟨-, hnamed⟩ := hvisits.named (hW.spelled p hp)
    refine ⟨hname.ne_this, hname.ne_parent, ?_⟩
    generalize ctx.scopes = scopes at hfits
    generalize hactive : m.active = active at hfits ⊢
    cases hfits with
    | globals => exact .inr ⟨rfl, .inr ⟨_, rfl, hmem, rfl⟩⟩
    | frame hmade => exact .inl ⟨_, hmade, hnamed _ hmem _ rfl⟩
  | @writes _ ref e _ _ _ htarget =>
    obtain ⟨⟨underway, p, hp, ctx, os, hvisits, hfits⟩, -⟩ := ht
    have hname : ref.name.IsName := (hvisits.spelled (hW.spelled p hp)).1
    refine ⟨hname.ne_this, hname.ne_parent, ?_⟩
    unfold Machine.target? at htarget
    split at htarget
    · next d hd =>
      rw [hm.distances, hvisits.assigned (hW.resolved p hp)] at hd
      obtain ⟨scope, hscope, hcontains⟩ := Context.scope_of_distance? hd
      obtain ⟨frame, o, hframe, ho, hmade, -⟩ := hfits.frame_of_scope hscope
      cases htarget.symm.trans hframe
      obtain ⟨hnamed, -⟩ := hvisits.named (hW.spelled p hp)
      exact .inl ⟨o, hmade, hnamed.getElem hscope ho _ hcontains⟩
    · rw [hm.globals, Store.holder?_of_outermost hm.store.outermost] at htarget
      split at htarget
      · next hbound =>
        cases htarget
        exact .inr ⟨rfl, .inl hbound⟩
      · cases htarget

end Task

end Treewalk
