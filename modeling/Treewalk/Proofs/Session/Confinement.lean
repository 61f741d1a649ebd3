import Treewalk.Proofs.Session.Chronicle

/-! The frames of a session. Over all runs of a session, a frame keeps the link that it was made with, to
an older frame; the names bound in it are among those of the scope that it was made for, and they stay
bound; blocks and calls get frames that no earlier state of the store had. -/

namespace Treewalk

namespace Store

/-- The link of a frame to the frame around it, just as the frame has it. -/
def link? (s : Store) (f : FrameId) : Option FrameId := s.frames[f]?.bind (·.enclosing)

/-- The frames that are held at once while a name is searched for from `f` outward, up to the one that
binds it. -/
def heldBySearch (s : Store) (f : FrameId) (name : String) : List FrameId :=
  if (s.binding? f name).isSome then [f]
  else
    match _h : s.enclosing? f with
    | some p => f :: s.heldBySearch p name
    | none => [f]
termination_by f
decreasing_by exact lt_of_enclosing? _h

/-- The frames that are held at once on the way to the frame at a distance. -/
def heldBySteps (s : Store) (f : FrameId) : (distance : Nat) → List FrameId
  | 0 => [f]
  | distance + 1 =>
    match s.enclosing? f with
    | some p => f :: s.heldBySteps p distance
    | none => [f]

/-- The frames of a store are in order: the global one is the outermost, every other one is linked to an
older frame, and whoever goes from frame to frame along the links comes to the global frame in the end
and never to one frame twice. -/
structure Orderly (globals : FrameId) (s : Store) : Prop where
  outermost : s.link? globals = none
  older : ∀ f < s.frames.size, f ≠ globals → ∃ p < f, s.link? f = some p
  steps : ∀ f, s.enclosing? f = s.link? f
  ends : ∀ f < s.frames.size, (s.chain f).getLast? = some globals
  apart : ∀ f name distance, (s.heldBySearch f name).Nodup ∧ (s.heldBySteps f distance).Nodup

variable {s : Store} {f g p : FrameId} {name other : String} {v : Value} {b : Bindings} {c : Change}

theorem enclosing?_eq (s : Store) (f : FrameId) : s.enclosing? f = (s.link? f).filter (· < f) := rfl

theorem le_of_mem_chain (h : g ∈ s.chain f) : g ≤ f := by
  induction f using Nat.strongRecOn with
  | _ f ih =>
    cases hp : s.enclosing? f with
    | none =>
      rw [chain_of_outermost hp] at h
      exact Nat.le_of_eq (List.mem_singleton.mp h)
    | some p =>
      rw [chain_of_enclosing? hp] at h
      have hlt := lt_of_enclosing? hp
      obtain rfl | hmem := List.mem_cons.mp h
      · exact Nat.le_refl _
      · exact Nat.le_trans (ih p hlt hmem) (Nat.le_of_lt hlt)

/-- No frame comes twice in a chain. -/
theorem nodup_chain (s : Store) (f : FrameId) : (s.chain f).Nodup := by
  induction f using Nat.strongRecOn with
  | _ f ih =>
    cases hp : s.enclosing? f with
    | none =>
      rw [chain_of_outermost hp]
      exact List.nodup_singleton f
    | some p =>
      rw [chain_of_enclosing? hp]
      have hlt := lt_of_enclosing? hp
      exact List.nodup_cons.mpr ⟨fun hmem => Nat.not_le_of_lt hlt (le_of_mem_chain hmem), ih p hlt⟩

theorem head_prefix_chain (s : Store) (f : FrameId) : [f] <+: s.chain f := by
  rw [chain]
  split <;> exact ⟨_, rfl⟩

theorem heldBySearch_of_enclosing? (hunbound : ¬(s.binding? f name).isSome)
    (hp : s.enclosing? f = some p) : s.heldBySearch f name = f :: s.heldBySearch p name := by
  rw [heldBySearch, if_neg hunbound]
  split
  · next p' hp' => rw [Option.some.inj (hp.symm.trans hp')]
  · next hnone => cases hp.symm.trans hnone

theorem heldBySearch_of_last (h : (s.binding? f name).isSome ∨ s.enclosing? f = none) :
    s.heldBySearch f name = [f] := by
  rw [heldBySearch]
  split
  · rfl
  · next hunbound =>
    split
    · next p hp => cases (h.resolve_left hunbound).symm.trans hp
    · rfl

theorem heldBySteps_of_enclosing? (hp : s.enclosing? f = some p) (distance : Nat) :
    s.heldBySteps f (distance + 1) = f :: s.heldBySteps p distance := by
  rw [heldBySteps, hp]

theorem heldBySearch_prefix (s : Store) (f : FrameId) (name : String) :
    s.heldBySearch f name <+: s.chain f := by
  induction f using Nat.strongRecOn with
  | _ f ih =>
    by_cases hbound : (s.binding? f name).isSome
    · rw [heldBySearch_of_last (.inl hbound)]
      exact s.head_prefix_chain f
    · cases hp : s.enclosing? f with
      | none =>
        rw [heldBySearch_of_last (.inr hp)]
        exact s.head_prefix_chain f
      | some p =>
        rw [heldBySearch_of_enclosing? hbound hp, chain_of_enclosing? hp]
        exact (List.prefix_cons_inj f).mpr (ih p (lt_of_enclosing? hp))

theorem heldBySteps_prefix (s : Store) (f : FrameId) (distance : Nat) :
    s.heldBySteps f distance <+: s.chain f := by
  induction distance generalizing f with
  | zero => exact s.head_prefix_chain f
  | succ distance ih =>
    cases hp : s.enclosing? f with
    | none =>
      rw [heldBySteps, hp]
      exact s.head_prefix_chain f
    | some p =>
      rw [heldBySteps_of_enclosing? hp, chain_of_enclosing? hp]
      exact (List.prefix_cons_inj f).mpr (ih p)

/-- The frame that a search finds is the last one held. -/
theorem getLast?_heldBySearch (h : s.holder? f name = some g) :
    (s.heldBySearch f name).getLast? = some g := by
  induction f using Nat.strongRecOn with
  | _ f ih =>
    by_cases hbound : (s.binding? f name).isSome
    · rw [holder?_of_bound hbound] at h
      rw [heldBySearch_of_last (.inl hbound)]
      exact h
    · cases hp : s.enclosing? f with
      | none =>
        rw [holder?_of_outermost hp, if_neg hbound] at h
        cases h
      | some p =>
        rw [holder?_of_enclosing? hbound hp] at h
        rw [heldBySearch_of_enclosing? hbound hp, List.getLast?_cons, ih p (lt_of_enclosing? hp) h]
        rfl

/-- The frame at a distance is the last one held on the way to it. -/
theorem getLast?_heldBySteps {distance : Nat} (h : s.ancestor? f distance = some g) :
    (s.heldBySteps f distance).getLast? = some g := by
  induction distance generalizing f with
  | zero =>
    rw [ancestor?] at h
    split at h
    · exact h
    · cases h
  | succ distance ih =>
    cases hp : s.enclosing? f with
    | none =>
      rw [ancestor?, hp] at h
      cases h
    | some p =>
      rw [ancestor?, hp] at h
      rw [heldBySteps_of_enclosing? hp, List.getLast?_cons, ih h]
      rfl

/-- If all links go to older frames, the frames are in order. -/
theorem Orderly.of_older {globals : FrameId} (houtermost : s.link? globals = none)
    (holder : ∀ f < s.frames.size, f ≠ globals → ∃ p < f, s.link? f = some p) :
    s.Orderly globals := by
  have hsteps (f : FrameId) : s.enclosing? f = s.link? f := by
    rw [enclosing?_eq]
    by_cases hf : f < s.frames.size ∧ f ≠ globals
    · obtain ⟨p, hlt, hp⟩ := holder f hf.1 hf.2
      simp [hp, hlt]
    · have hnone : s.link? f = none := by
        by_cases hlt : f < s.frames.size
        · rw [not_and_not_right.mp hf hlt, houtermost]
        · simp [link?, Array.getElem?_eq_none (Nat.le_of_not_lt hlt)]
      rw [hnone]
      rfl
  refine ⟨houtermost, holder, hsteps, fun f hf => ?_, fun f name distance => ?_⟩
  · induction f using Nat.strongRecOn with
    | _ f ih =>
      by_cases hglobal : f = globals
      · rw [hglobal, chain_of_outermost ((hsteps globals).trans houtermost)]
        rfl
      · obtain ⟨p, hlt, hp⟩ := holder f hf hglobal
        have hlast := ih p hlt (Nat.lt_trans hlt hf)
        rw [chain_of_enclosing? ((hsteps f).trans hp), List.getLast?_cons, hlast]
        rfl
  · exact ⟨(s.heldBySearch_prefix f name).sublist.nodup (s.nodup_chain f),
      (s.heldBySteps_prefix f distance).sublist.nodup (s.nodup_chain f)⟩

/-- A change leaves the links of the frames as they are. -/
theorem link?_apply (s : Store) (c : Change) (hf : f < s.frames.size) :
    (s.apply c).link? f = s.link? f := by
  cases c with
  | bind g name v =>
    simp only [apply, define, link?, Array.getElem?_modify]
    split
    · cases s.frames[f]? <;> rfl
    · rfl
  | make names b p => simp [apply, addFrame, link?, Array.getElem?_push, Nat.ne_of_lt hf]
  | object => rfl
  | field => rfl

theorem link?_make (s : Store) (names : List String) (b : Bindings) (p : FrameId) :
    (s.apply (.make names b p)).link? s.frames.size = some p := by
  simp [apply, addFrame, link?]

end Store

/-- What is entered is seen to make its frame, in which the statements are then run. -/
theorem Task.Starts.entered {host : Host} {k : Nat} {t : Task} {m m' : Machine} {ss : List Stmt}
    (hstart : Starts host k t m (.statements ss) m') (ht : t.Enters) :
    ∃ names b p, t.Adds (k + 1) m m.store names b p ∧
      m'.store = m.store.apply (.make names b p) ∧ m'.active = m.store.frames.size := by
  cases hstart with
  | block hnew =>
    cases hnew
    exact ⟨_, _, _, .block, rfl, rfl⟩
  | body hnew =>
    cases hnew
    exact ⟨_, _, _, .call, rfl, rfl⟩
  | rest => exact ht.elim

namespace History

variable {sink : Sink} {time : Nat → Float} {h : History} {cs : List Change} {i j : Nat}
  {f p : FrameId} {o o' : Opening} {name : String} {names names' : List String} {v : Value}
  {b b' : Bindings} {t : Task} {m : Machine}

/-- The store of every moment is one of the stages. -/
theorem Chronicle.passes (hcs : h.Chronicle sink time cs) (hpasses : h.Passes sink time t m) :
    ∃ i ≤ cs.length, m.store = (start sink).stage cs i := by
  obtain ⟨k, hreaches⟩ := hpasses.reaches
  obtain ⟨i, hi, hstage, -⟩ := hcs.seen_at ⟨k, t, m, hreaches, .here⟩
  exact ⟨i, hi, hstage⟩

/-- The global frame is there from the start. -/
theorem globals_lt_stage (sink : Sink) (cs : List Change) (i : Nat) :
    (Machine.initial sink).globals < ((start sink).stage cs i).frames.size :=
  Nat.lt_of_lt_of_le Nat.one_pos ((start sink).size_le_stage cs i)

/-- A frame that was made for something is added at some stage. -/
theorem Chronicle.created (hcs : h.Chronicle sink time cs) (hcreated : h.Created sink time f o) :
    ∃ i b p, cs[i]? = some (.make o.names b p) ∧ ((start sink).stage cs i).frames.size = f ∧
      ∀ name ∈ o.single?, ∃ v, b = (∅ : Bindings).insert name v := by
  obtain ⟨k, t, m, hreaches, hmakes, rfl⟩ := hcreated
  obtain ⟨s, b, p, hadds, hsize, hsingle⟩ := hmakes.adds
  obtain ⟨i, -, rfl, hi⟩ := hcs.seen_at ⟨k, t, m, hreaches, .adds hadds⟩
  exact ⟨i, b, p, hi _ rfl, hsize, hsingle⟩

/-- No two changes make the same frame. -/
theorem make_unique (hi : cs[i]? = some (.make names b p)) {p' : FrameId}
    (hj : cs[j]? = some (.make names' b' p'))
    (hsize : ((start sink).stage cs i).frames.size = ((start sink).stage cs j).frames.size) :
    i = j := by
  have hle {i j : Nat} {names : List String} {b : Bindings} {p : FrameId}
      (hi : cs[i]? = some (.make names b p)) (hlt : i < j) :
      ((start sink).stage cs i).frames.size < ((start sink).stage cs j).frames.size := by
    have hgrows := ((start sink).grows_stage cs (Nat.succ_le_of_lt hlt)).size
    rw [Store.stage_succ hi] at hgrows
    exact Nat.lt_of_lt_of_le (Store.lt_size_make _ names b p) hgrows
  obtain hlt | heq | hlt := Nat.lt_trichotomy i j
  · exact absurd hsize (Nat.ne_of_lt (hle hi hlt))
  · exact heq
  · exact absurd hsize.symm (Nat.ne_of_lt (hle hj hlt))

/-- Whatever a frame was made for, the names are the same. -/
theorem Chronicle.names_eq (hcs : h.Chronicle sink time cs) (ho : h.Created sink time f o)
    (ho' : h.Created sink time f o') : o.names = o'.names := by
  obtain ⟨i, b, p, hi, hsize, -⟩ := hcs.created ho
  obtain ⟨j, b', p', hj, hsize', -⟩ := hcs.created ho'
  obtain rfl := make_unique hi hj (hsize.trans hsize'.symm)
  rw [hi] at hj
  injection hj with hj
  injection hj

theorem Chronicle.ne_globals (hcs : h.Chronicle sink time cs) (ho : h.Created sink time f o) :
    f ≠ (Machine.initial sink).globals := by
  obtain ⟨i, -, -, -, rfl, -⟩ := hcs.created ho
  exact Nat.ne_of_gt (globals_lt_stage sink cs i)

/-- A name is bound in the global frame or in a frame whose scope has the name. -/
theorem Chronicle.binds (hcs : h.Chronicle sink time cs) (hi : cs[i]? = some (.bind f name v)) :
    name ≠ "this" ∧ name ≠ "parent" ∧
      (f = (Machine.initial sink).globals ∨ ∃ o, h.Created sink time f o ∧ name ∈ o.names) := by
  obtain ⟨k, t, m, hreaches, hdoes, -⟩ := hcs.allowed.at_stage hi
  obtain ⟨W, hW, hextends, hm, ht⟩ := hreaches.passes.fitting
  obtain ⟨hthis, hparent, hframe⟩ := hdoes.places hW hm ht
  refine ⟨hthis, hparent, ?_⟩
  obtain ⟨o, hmade, hname⟩ | ⟨rfl, -⟩ := hframe
  · exact .inr ⟨o, hextends.made f o hmade, hname⟩
  · exact .inl hextends.globals.symm

/-- A frame is made within an older one, for something, and binds only names of its scope. -/
theorem Chronicle.makes (hcs : h.Chronicle sink time cs) (hi : cs[i]? = some (.make names b p)) :
    p < ((start sink).stage cs i).frames.size ∧
      (∀ name : String, (b[name]?).isSome → name ∈ names) ∧
      ∃ o, h.Created sink time ((start sink).stage cs i).frames.size o ∧ o.names = names := by
  obtain ⟨k, t, m, hreaches, hdoes, hgrows⟩ := hcs.allowed.at_stage hi
  obtain ⟨W, hW, hextends, hm, ht⟩ := hreaches.passes.fitting
  obtain ⟨hp, hnames⟩ := hdoes.made.lawful hm ht
  obtain ⟨o, hmakes, ho, hsize⟩ := hdoes.made.makes
  exact ⟨Nat.lt_of_lt_of_le hp hgrows.size, hnames, o, ⟨k, t, m, hreaches, hmakes, hsize.symm⟩, ho⟩

/-- At every stage the frames are in order. -/
theorem Chronicle.orderly (hcs : h.Chronicle sink time cs) (i : Nat) :
    ((start sink).stage cs i).Orderly (Machine.initial sink).globals := by
  refine Store.stage_induction (motive := Store.Orderly (Machine.initial sink).globals) ?_ ?_ i
  · refine .of_older rfl fun f hf hne => ?_
    exact absurd (Nat.lt_one_iff.mp hf) hne
  · intro i c hc ih
    have hglobals := globals_lt_stage sink cs i
    refine .of_older ((Store.link?_apply _ c hglobals).trans ih.outermost) fun f hf hne => ?_
    obtain hlt | ⟨names, b, p, rfl, rfl⟩ := Store.old_or_made hf
    · rw [Store.link?_apply _ c hlt]
      exact ih.older f hlt hne
    · exact ⟨p, (hcs.makes hc).1, Store.link?_make _ names b p⟩

/-- At every stage, each frame but the global one was made for something. -/
theorem Chronicle.exists_created (hcs : h.Chronicle sink time cs) (i : Nat) :
    ∀ f < ((start sink).stage cs i).frames.size, f ≠ (Machine.initial sink).globals →
      ∃ o, h.Created sink time f o := by
  refine Store.stage_induction (motive := fun s => ∀ f < s.frames.size,
    f ≠ (Machine.initial sink).globals → ∃ o, h.Created sink time f o) ?_ ?_ i
  · intro f hf hne
    exact absurd (Nat.lt_one_iff.mp hf) hne
  · intro i c hc ih f hf hne
    obtain hlt | ⟨names, b, p, rfl, rfl⟩ := Store.old_or_made hf
    · exact ih f hlt hne
    · obtain ⟨-, -, o, ho, -⟩ := hcs.makes hc
      exact ⟨o, ho⟩

/-- A frame that was made for something binds only the names of it. -/
theorem Chronicle.confined (hcs : h.Chronicle sink time cs) (ho : h.Created sink time f o) (i : Nat) :
    ∀ name, (((start sink).stage cs i).binding? f name).isSome → name ∈ o.names := by
  refine Store.stage_induction
    (motive := fun s => ∀ name, (s.binding? f name).isSome → name ∈ o.names) ?_ ?_ i
  · intro name hbound
    obtain ⟨v, hv⟩ := Option.isSome_iff_exists.mp hbound
    exact absurd (Nat.lt_one_iff.mp (Store.lt_size_of_binding? hv)) (hcs.ne_globals ho)
  · intro i c hc ih name hbound
    obtain hsame | ⟨v, rfl, -⟩ | ⟨names, b, p, rfl, rfl, hb⟩ :=
      Store.binding?_apply ((start sink).stage cs i) c f name
    · exact ih name (hsame ▸ hbound)
    · obtain ⟨-, -, hglobals | ⟨o', ho', hname⟩⟩ := hcs.binds hc
      · exact absurd hglobals (hcs.ne_globals ho)
      · exact hcs.names_eq ho' ho ▸ hname
    · obtain ⟨-, hnames, o', ho', rfl⟩ := hcs.makes hc
      exact hcs.names_eq ho' ho ▸ hnames name (hb ▸ hbound)

/-- A frame that was made for one name binds that one from the start, and nothing else, and never to
another value. -/
theorem Chronicle.single (hcs : h.Chronicle sink time cs) (ho : h.Created sink time f o)
    (hname : o.single? = some name) :
    ∃ v, ∀ i, f < ((start sink).stage cs i).frames.size → ∀ other,
      ((start sink).stage cs i).binding? f other = if name = other then some v else none := by
  obtain ⟨i₀, b₀, p₀, hi₀, hsize₀, hsingle⟩ := hcs.created ho
  obtain ⟨v, rfl⟩ := hsingle name hname
  refine ⟨v, Store.stage_induction (motive := fun s => f < s.frames.size → ∀ other,
    s.binding? f other = if name = other then some v else none) ?_ ?_⟩
  · intro hf
    exact absurd (Nat.lt_one_iff.mp hf) (hcs.ne_globals ho)
  · intro i c hc ih hf other
    obtain hlt | ⟨names, b, p, rfl, hsize⟩ := Store.old_or_made hf
    · obtain hsame | ⟨w, rfl, -⟩ | ⟨names, b, p, rfl, hsize, -⟩ :=
        Store.binding?_apply ((start sink).stage cs i) c f other
      · rw [hsame, ih hlt]
      · obtain ⟨hthis, hparent, hglobals | ⟨o', ho', hother⟩⟩ := hcs.binds hc
        · exact absurd hglobals (hcs.ne_globals ho)
        · obtain ⟨hnames, hword⟩ := Opening.names_of_single? hname
          rw [hcs.names_eq ho' ho, hnames, List.mem_singleton] at hother
          subst hother
          exact (hword.elim hthis hparent).elim
      · exact absurd hsize (Nat.ne_of_lt hlt)
    · obtain rfl := make_unique hc hi₀ (hsize.symm.trans hsize₀.symm)
      cases hc.symm.trans hi₀
      rw [hsize, Store.apply, Store.binding?_addFrame_self]
      simp [Std.TreeMap.getElem?_insert]

/-- A block or a call runs its statements in a frame that no stage before had. -/
theorem Chronicle.fresh {k : Nat} {m' : Machine} {ss : List Stmt} (hcs : h.Chronicle sink time cs)
    (hreaches : h.Reaches sink time (k + 1) t m) (ht : t.Enters)
    (hstart : Task.Starts (.reading time) k t m (.statements ss) m') :
    ∃ i < cs.length, m.store = (start sink).stage cs i ∧ m'.store = (start sink).stage cs (i + 1) ∧
      m'.active < ((start sink).stage cs (i + 1)).frames.size ∧
      ∀ j ≤ i, ((start sink).stage cs j).frames.size ≤ m'.active := by
  obtain ⟨names, b, p, hadds, hstore, hactive⟩ := hstart.entered ht
  obtain ⟨i, -, hstage, hi⟩ := hcs.seen_at ⟨k + 1, t, m, hreaches, .adds hadds⟩
  have hnext := hi _ rfl
  refine ⟨i, (List.getElem?_eq_some_iff.mp hnext).1, hstage, ?_, ?_, fun j hj => ?_⟩
  · rw [hstore, hstage, Store.stage_succ hnext]
  · rw [hactive, hstage, Store.stage_succ hnext]
    exact Store.lt_size_make _ names b p
  · rw [hactive, hstage]
    exact ((start sink).grows_stage cs hj).size

/-- The frames of a session keep to their scopes. The store of a session comes about by single changes,
and at every moment of every run it is at one of the stages in between. At every stage the frames are in
order: but for the global frame, each one is linked to an older one, all chains of links end in the
global frame, and the frames that a write holds at once are different ones. From one stage to a later
one, the frames keep their links and go on binding whatever names they bound. Every frame but the global
one was made for something; whatever it was made for, it binds at every stage only names of that: what a
block declares, the parameters of a function and what its body declares, `this` for a receiver, `parent`
for a parent class; and in the last two cases it binds the name from the start, always to the same value.
A block that is executed and a function that is called run their statements in a frame that is made by
the very next change and that no stage before had. -/
theorem frames_keep_to_scopes (sink : Sink) (time : Nat → Float) (h : History) :
    ∃ cs : List Change,
      let stage := (start sink).stage cs
      let globals := (Machine.initial sink).globals
      (h.session sink time).machine.store = stage cs.length ∧
      (∀ t m, h.Passes sink time t m → ∃ i ≤ cs.length, m.store = stage i) ∧
      (∀ i, (stage i).Orderly globals) ∧
      (∀ i j, i ≤ j → ∀ f < (stage i).frames.size,
        f < (stage j).frames.size ∧ (stage j).link? f = (stage i).link? f ∧
        ∀ name, ((stage i).binding? f name).isSome → ((stage j).binding? f name).isSome) ∧
      (∀ i, ∀ f < (stage i).frames.size, f ≠ globals → ∃ o, h.Created sink time f o) ∧
      (∀ f o, h.Created sink time f o →
        (∀ i name, ((stage i).binding? f name).isSome → name ∈ o.names) ∧
        ∀ name, o.single? = some name → ∃ v, ∀ i, f < (stage i).frames.size → ∀ other,
          (stage i).binding? f other = if name = other then some v else none) ∧
      ∀ k t m ss m', h.Reaches sink time (k + 1) t m → t.Enters →
        Task.Starts (.reading time) k t m (.statements ss) m' →
        ∃ i < cs.length, m.store = stage i ∧ m'.store = stage (i + 1) ∧
          m'.active < (stage (i + 1)).frames.size ∧ ∀ j ≤ i, (stage j).frames.size ≤ m'.active := by
  obtain ⟨cs, hcs⟩ := exists_chronicle sink time h
  refine ⟨cs, hcs.ends.trans Store.stage_length.symm, fun t m hpasses => hcs.passes hpasses,
    hcs.orderly, fun i j hij f hf => ?_, hcs.exists_created, fun f o ho => ?_, ?_⟩
  · have hgrows := (start sink).grows_stage cs hij
    refine ⟨Nat.lt_of_lt_of_le hf hgrows.size, ?_, hgrows.bound f⟩
    rw [← (hcs.orderly j).steps, ← (hcs.orderly i).steps, hgrows.enclosing f hf]
  · exact ⟨fun i name => hcs.confined ho i name, fun name hname => hcs.single ho hname⟩
  · exact fun k t m ss m' hreaches ht hstart => hcs.fresh hreaches ht hstart

end History

end Treewalk
