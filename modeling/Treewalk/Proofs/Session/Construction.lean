import Treewalk.Proofs.Session.Confinement
import Treewalk.Proofs.Session.Provenance

/-! Construction. A call of a class gives back a new instance of that very class, whatever its initializer
does; and a method that was made of an initializer gives back the instance that it is bound to, wherever
it is called. Between binding and the end of the call nothing can change the frame that holds the
instance. -/

namespace Treewalk

/-- No method of the body has the name. -/
def ClassBody.Lacks (body : ClassBody) (name : String) : Prop := ∀ f ∈ body.methods, f.name ≠ name

/-- The last method of the body that has the name. -/
def ClassBody.Finds (body : ClassBody) (name : String) (f : Closure) : Prop :=
  ∃ before after, body.methods = before ++ f :: after ∧ f.name = name ∧ ∀ g ∈ after, g.name ≠ name

/-- Neither the class nor any of its ancestors declares a method of the name. -/
def Class.Lacks (c : Class) (name : String) : Prop := ∀ body ∈ c.bodies, body.Lacks name

/-- The method of the name that is declared in the class, or else in its nearest ancestor that declares
one. -/
def Class.Finds (c : Class) (name : String) (f : Closure) : Prop :=
  ∃ nearer body farther, c.bodies = nearer ++ body :: farther ∧ (∀ b ∈ nearer, b.Lacks name) ∧
    body.Finds name f

/-- The number of arguments that a call of the class takes: those of its initializer, or none. -/
inductive Class.Takes (c : Class) : Nat → Prop
  | parameters {f} : c.Finds initializerName f → Takes c f.decl.params.length
  | nothing : c.Lacks initializerName → Takes c 0

section
variable {body : ClassBody} {c : Class} {name : String} {f : Closure}

theorem ClassBody.method?_eq_some_iff : body.method? name = some f ↔ body.Finds name f := by
  unfold method? Finds
  rw [List.find?_eq_some_iff_append]
  constructor
  · rintro ⟨hname, later, earlier, hmethods, hlater⟩
    refine ⟨earlier.reverse, later.reverse, ?_, by simpa using hname, fun g hg => ?_⟩
    · simpa using congrArg List.reverse hmethods
    · simpa using hlater g (List.mem_reverse.mp hg)
  · rintro ⟨before, after, hmethods, hname, hafter⟩
    refine ⟨by simpa using hname, after.reverse, before.reverse, by simp [hmethods], fun g hg => ?_⟩
    simpa using hafter g (List.mem_reverse.mp hg)

theorem ClassBody.method?_eq_none_iff : body.method? name = none ↔ body.Lacks name := by
  simp [method?, Lacks]

theorem Class.method?_eq_some_iff : c.method? name = some f ↔ c.Finds name f := by
  unfold method? Finds
  rw [List.findSome?_eq_some_iff]
  constructor
  · rintro ⟨nearer, body, farther, hbodies, hbody, hnearer⟩
    exact ⟨nearer, body, farther, hbodies, fun b hb => ClassBody.method?_eq_none_iff.mp (hnearer b hb),
      ClassBody.method?_eq_some_iff.mp hbody⟩
  · rintro ⟨nearer, body, farther, hbodies, hnearer, hbody⟩
    exact ⟨nearer, body, farther, hbodies, ClassBody.method?_eq_some_iff.mpr hbody, fun b hb =>
      ClassBody.method?_eq_none_iff.mpr (hnearer b hb)⟩

theorem Class.method?_eq_none_iff : c.method? name = none ↔ c.Lacks name := by
  simp [method?, Lacks, ClassBody.method?_eq_none_iff]

theorem Class.takes_iff {n : Nat} : c.Takes n ↔ c.arity initializerName = n := by
  unfold arity
  constructor
  · rintro (hfinds | hlacks)
    · rw [method?_eq_some_iff.mpr hfinds]
      rfl
    · rw [method?_eq_none_iff.mpr hlacks]
      rfl
  · rintro rfl
    cases hmethod : c.method? initializerName with
    | none => exact .nothing (method?_eq_none_iff.mp hmethod)
    | some f => exact .parameters (method?_eq_some_iff.mp hmethod)

end

/-- The values in the hands of a task. -/
def Task.values : Task → List Value
  | .call callee _ args => callee :: args
  | .invoke f _ args => .function f :: args
  | .bind _ i => [.instanceRef i]
  | .write _ _ v => [v]
  | _ => []

section
variable {host : Host} {n : Nat} {m m' : Machine} {f : Closure} {c : Class} {paren : Token}
  {args : List Value} {v : Value}

theorem Task.Traced.values {O : Moments} {s : Store} {t : Task} (h : t.Traced O s) (hv : v ∈ t.values) :
    v.Traced O s := by
  cases t with
  | call callee paren args =>
    obtain rfl | hv := List.mem_cons.mp hv
    · exact h.1
    · exact h.2 v hv
  | invoke f paren args =>
    obtain rfl | hv := List.mem_cons.mp hv
    · exact h.1
    · exact h.2 v hv
  | bind f i =>
    obtain rfl := List.mem_singleton.mp hv
    exact h.2
  | write ref e w =>
    obtain rfl := List.mem_singleton.mp hv
    exact h
  | _ => cases hv

/-- A call of a class that succeeds gives back the instance that it began with. -/
theorem call_classRef_ok (h : call host n (.classRef c) paren args m = .ok v m') :
    v = .instanceRef ⟨m.store.fields.size, c⟩ := by
  cases n with
  | zero => cases h
  | succ n =>
    simp only [call] at h
    obtain ⟨_, m₁, hcount, hrest⟩ := bind_eq_ok.mp h
    obtain ⟨-, rfl⟩ := Task.checkCount_eq_ok hcount
    obtain ⟨i, m₂, hnew, hmade⟩ := bind_eq_ok.mp hrest
    cases hnew
    cases hmethod : c.method? initializerName with
    | none =>
      rw [hmethod] at hmade
      cases hmade
      rfl
    | some f =>
      rw [hmethod] at hmade
      obtain ⟨g, m₃, -, hbound⟩ := bind_eq_ok.mp hmade
      obtain ⟨_, m₄, -, hdone⟩ := bind_eq_ok.mp hbound
      cases hdone
      rfl

/-- With a wrong number of arguments a call of a class does nothing at all. -/
theorem call_classRef_count (hcount : args.length ≠ c.arity initializerName) :
    call host (n + 1) (.classRef c) paren args m =
      .error (.fault paren (.argumentCount (c.arity initializerName) args.length)) m := by
  have hfails : Action.checkCount paren (c.arity initializerName) args.length m =
      .error (.fault paren (.argumentCount (c.arity initializerName) args.length)) m := by
    rw [Action.checkCount, if_neg hcount]
    rfl
  simp only [call]
  exact bind_of_error hfails

/-- The call of a function that succeeds ran its body. -/
theorem call_function_ok (h : call host n (.function f) paren args m = .ok v m') :
    ∃ k, n = k + 1 ∧ args.length = f.arity ∧ invoke host k f paren args m = .ok v m' := by
  cases n with
  | zero => cases h
  | succ k =>
    simp only [call] at h
    obtain ⟨_, m₁, hcount, hinvoke⟩ := bind_eq_ok.mp h
    obtain ⟨hlength, rfl⟩ := Task.checkCount_eq_ok hcount
    exact ⟨k, rfl, hlength, hinvoke⟩

/-- What an initializer gives back stands for `this` in its frame when its body is done. -/
theorem invoke_initializer_ok (hf : f.isInitializer = true)
    (h : invoke host n f paren args m = .ok v m') :
    ∃ k frame m₁, n = k + 1 ∧
      Action.newFrame (argumentBindings f.decl.params args) f.frame m = .ok frame m₁ ∧
      ((Task.statements f.decl.body).action host k).storeAfter { m₁ with active := frame } = m'.store ∧
      m'.store.binding? f.frame "this" = some v := by
  cases n with
  | zero => cases h
  | succ k =>
    rw [invoke] at h
    obtain ⟨frame, m₁, hnew, h⟩ := bind_eq_ok.mp h
    obtain ⟨completion, m₂, hbody, h⟩ := bind_eq_ok.mp h
    rw [if_pos hf] at h
    have hthis : m₂.store.getAt? f.frame 0 "this" = some v ∧ m₂ = m' := by
      have hrequire : Action.require paren .unboundInitializer (m₂.store.getAt? f.frame 0 "this") m₂ =
        .ok v m' := h
      cases hvalue : m₂.store.getAt? f.frame 0 "this" with
      | none =>
        rw [hvalue] at hrequire
        cases hrequire
      | some w =>
        rw [hvalue] at hrequire
        cases hrequire
        exact ⟨rfl, rfl⟩
    obtain ⟨hthis, rfl⟩ := hthis
    refine ⟨k, frame, m₁, rfl, hnew, ?_, ?_⟩
    · unfold Action.inFrame at hbody
      dsimp only at hbody
      split at hbody
      · next hrun =>
        cases hbody
        exact (Action.storeAfter_of_ok hrun).trans rfl
      · cases hbody
    · obtain ⟨g, hg, hv⟩ := Option.bind_eq_some_iff.mp hthis
      rw [Store.ancestor?] at hg
      split at hg
      · cases hg
        exact hv
      · cases hg

end

namespace History

/-- The values that are around in a session at some machine: bound in a frame, held by a field, in the
hands of a task, or just what an expression came to. -/
inductive Around (sink : Sink) (time : Nat → Float) (h : History) : Value → Machine → Prop
  | bound {k t f name} {v : Value} {m : Machine} : h.Reaches sink time k t m →
    m.store.binding? f name = some v → Around sink time h v m
  | field {k t object name} {v : Value} {m : Machine} : h.Reaches sink time k t m →
    m.store.field? object name = some v → Around sink time h v m
  | held {k t} {v : Value} {m : Machine} : h.Reaches sink time k t m → v ∈ t.values →
    Around sink time h v m
  | result {k e m₀} {v : Value} {m : Machine} : h.Reaches sink time k (.expression e) m₀ →
    evaluate (.reading time) k e m₀ = .ok v m → Around sink time h v m

variable {sink : Sink} {time : Nat → Float} {h : History} {k : Nat} {t : Task} {m m' : Machine}
  {v : Value} {f : Closure} {i : Instance}

/-- Whatever is around was made in the session. -/
theorem Around.traced (haround : h.Around sink time v m) : v.Traced (h.moments sink time) m.store := by
  cases haround with
  | bound hreaches hv => exact hreaches.traced.1.bound _ _ _ hv
  | field hreaches hv => exact hreaches.traced.1.fields _ _ _ hv
  | held hreaches hv => exact hreaches.traced.2.values hv
  | @result k e m₀ v m hreaches hrun =>
    have htraces : (evaluate (.reading time) k e).Traces (h.moments sink time) m₀ fun v s =>
      v.Traced (h.moments sink time) s := hreaches.traces
    exact (htraces.of_ok hrun).2

/-- A frame that a task makes has the link that it was made with at every moment at which it is there. -/
theorem Reaches.links (hreaches : h.Reaches sink time k t m) {s : Store} {names : List String}
    {b : Bindings} {p : FrameId} (hadds : t.Adds k m s names b p) {k' : Nat} {t' : Task}
    (hlater : h.Reaches sink time k' t' m') (hsize : s.frames.size < m'.store.frames.size) :
    m'.store.enclosing? s.frames.size = some p := by
  obtain ⟨cs, hcs⟩ := exists_chronicle sink time h
  obtain ⟨j, -, rfl, hmake⟩ := hcs.seen_at ⟨k, t, m, hreaches, .adds hadds⟩
  obtain ⟨j', -, hj'⟩ := hcs.passes hlater.passes
  rw [hj'] at hsize ⊢
  have hlt : j < j' := by
    by_contra hle
    have hgrows := ((start sink).grows_stage cs (Nat.le_of_not_lt hle)).size
    exact absurd hsize (Nat.not_lt_of_le hgrows)
  have hgrows := (start sink).grows_stage cs (Nat.succ_le_of_lt hlt)
  rw [Store.stage_succ (hmake _ rfl)] at hgrows
  rw [hgrows.enclosing _ (Store.lt_size_make _ _ _ _)]
  exact Store.enclosing?_addFrame_self (hcs.makes (hmake _ rfl)).1

/-- A frame that a task makes for one name binds that name to the value that it was made with, and
nothing else, at every moment at which it is there. -/
theorem Reaches.single (hreaches : h.Reaches sink time k t m) {s : Store} {names : List String}
    {word : String} {p : FrameId} {o : Opening}
    (hadds : t.Adds k m s names ((∅ : Bindings).insert word v) p) (hmakes : t.MakesWithin k m o)
    (hword : o.single? = some word) (hs : s.frames.size = m.store.frames.size) {k' : Nat} {t' : Task}
    (hlater : h.Reaches sink time k' t' m') (hsize : s.frames.size < m'.store.frames.size)
    (name : String) :
    m'.store.binding? s.frames.size name = if word = name then some v else none := by
  obtain ⟨cs, hcs⟩ := exists_chronicle sink time h
  have hcreated : h.Created sink time s.frames.size o := ⟨k, t, m, hreaches, hmakes, hs.symm⟩
  obtain ⟨w, hw⟩ := hcs.single hcreated hword
  obtain ⟨j, -, rfl, hmake⟩ := hcs.seen_at ⟨k, t, m, hreaches, .adds hadds⟩
  obtain rfl : w = v := by
    have hthis := hw (j + 1)
    rw [Store.stage_succ (hmake _ rfl)] at hthis
    have hbinding := hthis (Store.lt_size_make _ _ _ _) word
    rw [Store.apply, Store.binding?_addFrame_self] at hbinding
    simpa [eq_comm] using hbinding
  obtain ⟨j', -, hj'⟩ := hcs.passes hlater.passes
  rw [hj'] at hsize ⊢
  exact hw j' hsize name

/-- The frame of a receiver binds `this` to that receiver. -/
theorem Reaches.receiver (hbind : h.Reaches sink time k (.bind f i) m) {k' : Nat} {t' : Task}
    (hlater : h.Reaches sink time k' t' m') (hsize : m.store.frames.size < m'.store.frames.size)
    (name : String) : m'.store.binding? m.store.frames.size name =
      if "this" = name then some (.instanceRef i) else none :=
  hbind.single (o := .receiver [f.decl]) .bind (.bind (List.mem_singleton.mpr rfl)) rfl rfl hlater hsize
    name

/-- An initializer that is called gives back the instance that it is bound to. -/
theorem Reaches.initializes (hbind : h.Reaches sink time k (.bind f i) m)
    (hname : f.name = initializerName) {k' : Nat} {paren : Token} {args : List Value} {m'' : Machine}
    (hcall : h.Reaches sink time k' (.call (.function (f.boundOn m)) paren args) m')
    (hrun : call (.reading time) k' (.function (f.boundOn m)) paren args m' = .ok v m'') :
    v = .instanceRef i := by
  have hinit : (f.boundOn m).isInitializer = true := by
    have hmade : f.MadeMethod (h.moments sink time) := hbind.traced.2.1
    show f.isInitializer = true
    rw [hmade.isInitializer, hname]
    rfl
  obtain ⟨n, rfl, hlength, hinvoke⟩ := call_function_ok hrun
  obtain ⟨n, frame, m₁, rfl, hnew, hbody, hthis⟩ := invoke_initializer_ok hinit hinvoke
  have hinvokes := hcall.trans (.step (.invoke hlength) .self)
  have hbegins := hinvokes.trans (.step (.body hnew) .self)
  have hsize : m.store.frames.size < m'.store.frames.size := by
    obtain ⟨W, -, -, hm, hsound, -⟩ := hinvokes.passes.fitting
    obtain ⟨_, _, _, _, _, _, _, hfits⟩ := hsound
    exact hfits.lt_size hm.store.globals
  cases hnew
  have hsize' := Nat.lt_of_lt_of_le hsize
    (m'.store.grows_addFrame (argumentBindings f.decl.params args) (some m.store.frames.size)).size
  -- the body leaves the frame of the receiver alone, which binds `this` as it did from the start
  have hkept := hbegins.keeps hsize' (.inl rfl)
  have hstart := hbind.receiver hbegins hsize' "this"
  rw [if_pos rfl] at hstart
  rw [← hbody] at hthis
  exact Option.some.inj (hthis.symm.trans (hkept.trans hstart))

/-- Construction gives the right instance. Wherever a class is called in a session and the call succeeds,
it gives back an instance of that class which is none of those that were around before, at any machine
with no more instances than there were when the call began, and which is there afterwards. With another
number of arguments than the nearest initializer of the class takes, or with any if there is none, the
call fails, begins nothing and leaves the machine as it is. Every function that is called was declared as
one or was made by binding a method to an instance; and where the method was declared with the name of
initializers, every successful call of the one that was made of it gives back that instance. -/
theorem construction_gives_instance (sink : Sink) (time : Nat → Float) (h : History) :
    (∀ k c paren args m, h.Reaches sink time k (.call (.classRef c) paren args) m →
      (∀ v m', call (.reading time) k (.classRef c) paren args m = .ok v m' →
        ∃ i, v = .instanceRef i ∧ i.ofClass = c ∧ i.identity < m'.store.fields.size ∧
          ∀ j m₁, h.Around sink time (.instanceRef j) m₁ →
            m₁.store.fields.size ≤ m.store.fields.size → j.identity ≠ i.identity) ∧
      ∀ count, c.Takes count → args.length ≠ count →
        (∃ halt, call (.reading time) k (.classRef c) paren args m = .error halt m ∧
          (0 < k → halt = .fault paren (.argumentCount count args.length))) ∧
        ∀ n t m', ¬Task.Starts (.reading time) n (.call (.classRef c) paren args) m t m') ∧
    (∀ k g paren args m, h.Reaches sink time k (.call (.function g) paren args) m →
      (∃ k decl m, h.Reaches sink time (k + 1) (.statement (.function decl)) m ∧ g = decl.madeOn m) ∨
      ∃ k f i m, h.Reaches sink time k (.bind f i) m ∧ g = f.boundOn m) ∧
    ∀ k f i m, h.Reaches sink time k (.bind f i) m → f.name = initializerName →
      ∀ k' paren args m', h.Reaches sink time k' (.call (.function (f.boundOn m)) paren args) m' →
        ∀ v m'', call (.reading time) k' (.function (f.boundOn m)) paren args m' = .ok v m'' →
          v = .instanceRef i := by
  refine ⟨fun k c paren args m hreaches => ⟨fun v m' hrun => ?_, fun count htakes hcount => ⟨?_, ?_⟩⟩,
    fun k g paren args m hreaches => ?_, ?_⟩
  · obtain rfl := call_classRef_ok hrun
    refine ⟨_, rfl, rfl, ?_, fun j m₁ haround hsize => ?_⟩
    · have htraces : (call (.reading time) k (.classRef c) paren args).Traces (h.moments sink time) m
        fun v s => v.Traced (h.moments sink time) s := hreaches.traces
      exact (htraces.of_ok hrun).2.lt_size
    · have hmade : j.Made (h.moments sink time) m₁.store := haround.traced
      exact Nat.ne_of_lt (Nat.lt_of_lt_of_le hmade.lt_size hsize)
  · obtain rfl := Class.takes_iff.mp htakes
    cases k with
    | zero => exact ⟨.exhausted, rfl, nofun⟩
    | succ k => exact ⟨_, call_classRef_count hcount, fun _ => rfl⟩
  · obtain rfl := Class.takes_iff.mp htakes
    intro n t m' hstart
    cases hstart with
    | bind hlength | initializer hlength => exact hcount hlength
  · have hmade : g.Made (h.moments sink time) := hreaches.traced.2.1
    cases hmade with
    | function hdecl => exact .inl ⟨_, _, _, hdecl, rfl⟩
    | bound hbind => exact .inr ⟨_, _, _, _, hbind, rfl⟩
  · intro k f i m hbind hname k' paren args m' hcall v m'' hrun
    exact hbind.initializes hname hcall hrun

end History

end Treewalk
