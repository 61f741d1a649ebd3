import Treewalk.Proofs.Renaming.Renaming
import Treewalk.Proofs.Resolution.Occurrences

/-! Scopes under a renaming. Around a renamed point the chosen scope knows every name under its new
name and all other scopes stay, so that what a renamed occurrence means lies as far away as before. -/

namespace Treewalk

/-- The chosen scope, one scope further out. -/
def Renaming.outward : Option Nat → Option Nat
  | some (k + 1) => some k
  | _ => none

/-- The second stack of scopes is the first one renamed, the chosen scope being its `k`-th one. The
new name does not occur in the first one. -/
inductive ScopesRenamed (R : Renaming) : Option Nat → List Scope → List Scope → Prop
  | nil : ScopesRenamed R none [] []
  | cons {k s s' rest rest'} : (∀ n : String, s'[R.disguise.nameIf (k = some 0) n]? = s[n]?) →
    s[R.new]? = none → ScopesRenamed R (Renaming.outward k) rest rest' →
    ScopesRenamed R k (s :: rest) (s' :: rest')

/-- The second surroundings are the first ones renamed. -/
structure Context.Renamed (R : Renaming) (k : Option Nat) (ctx ctx' : Context) : Prop where
  scopes : ScopesRenamed R k ctx.scopes ctx'.scopes
  function : ctx'.function = ctx.function
  classContext : ctx'.classContext = ctx.classContext

variable {R : Renaming} {k : Option Nat} {n : String}

/-- The innermost scope knows a renamed occurrence as it knew the occurrence, `d` being the distance
of its name. -/
theorem getElem?_renamed {s s' : Scope} {d : Option Nat}
    (hs : ∀ n : String, s'[R.disguise.nameIf (k = some 0) n]? = s[n]?) (hnew : s[R.new]? = none)
    (hn : n ≠ R.new) (hd : d = some 0 ↔ s[n]?.isSome) :
    s'[R.disguise.nameIf (k.isSome ∧ d = k) n]? = s[n]? := by
  by_cases hold : n = R.old
  · subst hold
    by_cases hk : k = some 0
    · subst hk
      by_cases hzero : d = some 0
      · simpa [hzero] using hs R.old
      · have hnone : s[R.old]? = none := by simpa [hzero] using hd
        have hback := hs R.new
        rw [hnew, ← R.name_old, decide_eq_true rfl, Disguise.nameIf_true,
          Renaming.name_disguise, Renaming.name_name] at hback
        simpa [hzero, hnone] using hback
    · have hsame (n : String) : s'[n]? = s[n]? := by simpa [hk] using hs n
      rw [hsame]
      by_cases hb : k.isSome ∧ d = k
      · have hnone : s[R.old]? = none := by
          have hzero : d ≠ some 0 := fun h => hk (hb.2 ▸ h)
          simpa [hzero] using hd
        simp [hb, hnone, hnew]
      · simp [hb]
  · have hsame (chosen : Bool) : R.disguise.nameIf chosen n = n := by
      cases chosen
      · rfl
      · exact Renaming.name_of_ne hold hn
    have hlookup := hs n
    rw [hsame] at hlookup
    rw [hsame, hlookup]

namespace ScopesRenamed

variable {scopes scopes' : List Scope}

/-- What a renamed occurrence means lies as far away as before. -/
theorem findIdx? (h : ScopesRenamed R k scopes scopes') (hn : n ≠ R.new) :
    scopes'.findIdx? (·.contains
        (R.disguise.nameIf (k.isSome ∧ scopes.findIdx? (·.contains n) = k) n)) =
      scopes.findIdx? (·.contains n) := by
  induction h with
  | nil => simp
  | @cons k s s' rest rest' hs hnew _ ih =>
    have hd : (s :: rest).findIdx? (·.contains n) = some 0 ↔ s[n]?.isSome := by
      rw [List.findIdx?_cons, Std.TreeMap.isSome_getElem?_eq_contains]
      split <;> simp_all
    have hinner := getElem?_renamed hs hnew hn hd
    have hcontains := congrArg Option.isSome hinner
    rw [Std.TreeMap.isSome_getElem?_eq_contains, Std.TreeMap.isSome_getElem?_eq_contains]
      at hcontains
    rw [List.findIdx?_cons, hcontains, List.findIdx?_cons]
    split
    · rfl
    · next hnot =>
      have houter : R.disguise.nameIf (k.isSome ∧ (s :: rest).findIdx? (·.contains n) = k) n =
          R.disguise.nameIf ((Renaming.outward k).isSome ∧
            rest.findIdx? (·.contains n) = Renaming.outward k) n := by
        congr 1
        rw [List.findIdx?_cons, if_neg hnot]
        cases k with
        | none => rfl
        | some k => cases k <;> simp [Renaming.outward]
      rw [List.findIdx?_cons, if_neg hnot] at houter
      rw [houter, ih]

end ScopesRenamed

namespace Context.Renamed

variable {ctx ctx' : Context}

theorem outermost : Context.outermost.Renamed R none .outermost := ⟨.nil, rfl, rfl⟩

/-- A renamed occurrence has the distance that the occurrence had. -/
theorem distance? (h : ctx.Renamed R k ctx') (hn : n ≠ R.new) :
    ctx'.distance? (R.disguise.nameIf (k.isSome ∧ ctx.distance? n = k) n) = ctx.distance? n :=
  h.scopes.findIdx? hn

/-- A renamed occurrence is one of a name under way if the occurrence was. -/
theorem isPending (h : ctx.Renamed R k ctx') (hn : n ≠ R.new) :
    ctx'.isPending (R.disguise.nameIf (k.isSome ∧ ctx.distance? n = k) n) = ctx.isPending n := by
  obtain ⟨scopes, fn, cls⟩ := ctx
  obtain ⟨scopes', fn', cls'⟩ := ctx'
  obtain ⟨hscopes, -, -⟩ := h
  cases hscopes with
  | nil => rfl
  | @cons _ s s' rest rest' hs hnew _ =>
    have hd : (s :: rest).findIdx? (·.contains n) = some 0 ↔ s[n]?.isSome := by
      rw [List.findIdx?_cons, Std.TreeMap.isSome_getElem?_eq_contains]
      split <;> simp_all
    have hinner := getElem?_renamed hs hnew hn hd
    exact congrArg (· == some false) hinner

/-- A name that is declared is declared here already if it was before. -/
theorem declaresHere (h : ctx.Renamed R k ctx') (n : String) :
    ctx'.declaresHere (R.disguise.nameIf (k = some 0) n) = ctx.declaresHere n := by
  obtain ⟨scopes, fn, cls⟩ := ctx
  obtain ⟨scopes', fn', cls'⟩ := ctx'
  obtain ⟨hscopes, -, -⟩ := h
  cases hscopes with
  | nil => rfl
  | cons hs hnew _ =>
    have hcontains := congrArg Option.isSome (hs n)
    rwa [Std.TreeMap.isSome_getElem?_eq_contains, Std.TreeMap.isSome_getElem?_eq_contains]
      at hcontains

/-- The innermost scope takes up a name, the renamed one under its new name. -/
theorem withInnermost (h : ctx.Renamed R k ctx') {f f' : Scope → Scope}
    (hf : ∀ s s' : Scope, (∀ n : String, s'[R.disguise.nameIf (k = some 0) n]? = s[n]?) →
      s[R.new]? = none →
      (∀ n : String, (f' s')[R.disguise.nameIf (k = some 0) n]? = (f s)[n]?) ∧ (f s)[R.new]? = none) :
    Context.Renamed R k { ctx with scopes := ctx.scopes.modifyHead f }
      { ctx' with scopes := ctx'.scopes.modifyHead f' } := by
  obtain ⟨scopes, fn, cls⟩ := ctx
  obtain ⟨scopes', fn', cls'⟩ := ctx'
  obtain ⟨hscopes, hfunction, hclass⟩ := h
  refine ⟨?_, hfunction, hclass⟩
  cases hscopes with
  | nil => exact .nil
  | cons hs hnew hrest => exact .cons (hf _ _ hs hnew).1 (hf _ _ hs hnew).2 hrest

theorem define (h : ctx.Renamed R k ctx') (hn : n ≠ R.new) :
    (ctx.define n).Renamed R k (ctx'.define (R.disguise.nameIf (k = some 0) n)) := by
  have hmodify (ctx : Context) (n : String) :
      ctx.define n = { ctx with scopes := ctx.scopes.modifyHead (·.insert n true) } := by
    obtain ⟨scopes, fn, cls⟩ := ctx
    cases scopes <;> rfl
  rw [hmodify, hmodify]
  refine h.withInnermost fun s s' hs hnew => ⟨fun m => ?_, ?_⟩
  · rw [Std.TreeMap.getElem?_insert, Std.TreeMap.getElem?_insert, hs]
    simp [Disguise.nameIf_inj]
  · simp [Std.TreeMap.getElem?_insert, hn, hnew]

theorem declare (h : ctx.Renamed R k ctx') (hn : n ≠ R.new) :
    (ctx.declare n).Renamed R k (ctx'.declare (R.disguise.nameIf (k = some 0) n)) := by
  have hmodify (ctx : Context) (n : String) :
      ctx.declare n = { ctx with scopes := ctx.scopes.modifyHead (·.insertIfNew n false) } := by
    obtain ⟨scopes, fn, cls⟩ := ctx
    cases scopes <;> rfl
  rw [hmodify, hmodify]
  refine h.withInnermost fun s s' hs hnew => ⟨fun m => ?_, ?_⟩
  · have hmem : R.disguise.nameIf (k = some 0) n ∈ s' ↔ n ∈ s := by
      rw [Std.TreeMap.mem_iff_isSome_getElem?, hs, ← Std.TreeMap.mem_iff_isSome_getElem?]
    simp only [Std.TreeMap.getElem?_insertIfNew, hs, hmem, Std.compare_eq_iff_eq,
      Disguise.nameIf_inj]
  · simp [Std.TreeMap.getElem?_insertIfNew, hn, hnew]

/-- A scope is opened that declares the same names in both, and is not the chosen one. -/
theorem opened (h : ctx.Renamed R k ctx') {s : Scope} (hnew : s[R.new]? = none)
    (fn : FunctionContext) (cls : ClassContext) :
    Context.Renamed R (k.map (· + 1)) ⟨s :: ctx.scopes, fn, cls⟩ ⟨s :: ctx'.scopes, fn, cls⟩ := by
  refine ⟨.cons (fun n => ?_) hnew ?_, rfl, rfl⟩
  · cases k <;> simp
  · have hback : Renaming.outward (k.map (· + 1)) = k := by cases k <;> rfl
    rw [hback]
    exact h.scopes

/-- A scope is opened for a block or a function. -/
theorem enter {params : List Token} {body : List Stmt} {k' : Option Nat} (h : ctx.Renamed R k ctx')
    (hopens : R.Opens params body k k') : ctx.enter.Renamed R k' ctx'.enter := by
  refine ⟨?_, h.function, h.classContext⟩
  obtain rfl | ⟨rfl, rfl, -⟩ := hopens
  · exact (h.opened (s := ∅) (by simp) .topLevel .outside).scopes
  · exact .cons (by simp) (by simp) h.scopes

theorem withFunction (h : ctx.Renamed R k ctx') (kind : FunctionContext) :
    Context.Renamed R k { ctx with function := kind } { ctx' with function := kind } :=
  ⟨h.scopes, rfl, h.classContext⟩

/-- The scopes around the methods of a class. -/
theorem methods (h : ctx.Renamed R k ctx') (parent : Option Reference) :
    (ctx.methods parent).Renamed R (k.map (· + methodScopes parent))
      (ctx'.methods (parent.map (R.reference k))) := by
  have hword (word : Keyword) : ((∅ : Scope).insert word.spelling true)[R.new]? = none := by
    have hne : word.spelling ≠ R.new := fun heq => by
      have hfree := R.new_free
      rw [← heq, Keyword.ofSpelling?_spelling] at hfree
      cases hfree
    simp [hne]
  cases parent with
  | none => exact ⟨(h.opened (hword .thisWord) .topLevel .outside).scopes, h.function, rfl⟩
  | some ref =>
    have houter := h.opened (hword .parentWord) ctx.function .withParent
    have hboth := houter.opened (hword .thisWord) ctx.function .withParent
    rw [Option.map_map] at hboth
    exact ⟨hboth.scopes, h.function, rfl⟩

end Context.Renamed

end Treewalk
