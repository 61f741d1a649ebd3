import Treewalk.Proofs.Evaluation.Changes
import Treewalk.Proofs.Evaluation.Steady
import Treewalk.Proofs.Resolution.Names

/-! The story of a task. Everything that happens to the store while a task is done is done by the task
itself or by one of those that it begins, and every moment within it is a state that the store goes
through: by induction on the depth, one step for each task. -/

namespace Treewalk

open Treewalk.Action

namespace Task

/-- A frame that a task makes itself when this depth is left: the store that it is added to, the names
of its scope, what it binds from the start, and the frame around it. -/
inductive Adds : Nat → Task → Machine → Store → List String → Bindings → FrameId → Prop
  | block {k ss m} :
    Adds (k + 1) (.statement (.block ss)) m m.store (Opening.block ss).names ∅ m.active
  | call {k f paren args m} :
    Adds (k + 1) (.invoke f paren args) m m.store (Opening.function f.decl).names
      (argumentBindings f.decl.params args) f.frame
  | bind {k f i m} :
    Adds k (.bind f i) m m.store ["this"] ((∅ : Bindings).insert "this" (.instanceRef i)) f.frame
  | subclass {k name ref methods m c} : m.value? ref = some (.classRef c) →
    Adds (k + 1) (.statement (.classDecl name (some ref) methods)) m
      (m.store.define m.active name.lexeme .null) ["parent"]
      ((∅ : Bindings).insert "parent" (.classRef c)) m.active

/-- What a task may do itself, when this depth is left, to the store as it is then. -/
inductive Does : Nat → Task → Machine → Store → Change → Prop
  | adds {k t m s names b p} : Adds k t m s names b p → Does k t m s (.make names b p)
  | declares {k s name m f after v} : s.declared? = some name →
    (m.active < m.store.frames.size → f = m.active) →
    Does (k + 1) (.statement s) m after (.bind f name.lexeme v)
  | writes {k ref e m f v} : m.target? ref = some f →
    Does k (.write ref e v) m m.store (.bind f ref.name.lexeme v)
  | object {k c paren args m} : Does (k + 1) (.call (.classRef c) paren args) m m.store .object
  | field {k e name value m after object v} :
    Does (k + 1) (.expression (.set e name value)) m after (.field object name.lexeme v)

/-- What is seen of a task itself: the store with which it begins, and the frame that it makes. -/
inductive Shows : Nat → Task → Machine → Sights
  | here {k t m} : Shows k t m m.store none
  | adds {k t m s names b p} : Adds k t m s names b p → Shows k t m s (some (.make names b p))

/-- What is done by the tasks within a task, each to a store that has grown since it began. -/
def Doings (host : Host) (n : Nat) (t : Task) (m : Machine) (s : Store) (c : Change) : Prop :=
  ∃ k t' m', Reaches host n t m k t' m' ∧ t'.Does k m' s c ∧ m'.store.Grows s

/-- What is seen of the tasks within a task. -/
def Views (host : Host) (n : Nat) (t : Task) (m : Machine) : Sights := fun s c? =>
  ∃ k t' m', Reaches host n t m k t' m' ∧ t'.Shows k m' s c?

/-- What comes out of a task. -/
def Result : Task → Type
  | expression _ | call .. | invoke .. => Value
  | expressions _ => List Value
  | bind .. => Closure
  | write .. => Unit
  | statement _ | statements _ | loop .. => Completion

/-- What is done in a task, within a depth. -/
def action (host : Host) (n : Nat) : (t : Task) → Action t.Result
  | expression e => evaluate host n e
  | expressions es => evaluateAll host n es
  | call f paren args => Treewalk.call host n f paren args
  | invoke f paren args => Treewalk.invoke host n f paren args
  | bind f i => bindMethod f i
  | write ref _ v => assign ref v
  | statement s => execute host n s
  | statements ss => executeAll host n ss
  | loop condition body => executeLoop host n condition body

/-- A task has a story of what is done in it and what is seen of it. -/
def Storied (host : Host) (n : Nat) (t : Task) (m : Machine) : Prop :=
  Story (t.action host n) m (Doings host n t m) (Views host n t m)

variable {host : Host} {n : Nat} {t t' : Task} {m m' : Machine}

theorem Does.doings {s : Store} {c : Change} (h : t.Does n m s c) (hgrows : m.store.Grows s) :
    Doings host n t m s c :=
  ⟨n, t, m, .self, h, hgrows⟩

/-- What a task begins has its story, which is part of the story of the task. -/
theorem Starts.story (hstart : Starts host n t m t' m') (ih : ∀ t m, Storied host n t m) :
    Story (t'.action host n) m' (Doings host (n + 1) t m) (Views host n t' m') :=
  (ih t' m').allow fun _ _ ⟨k, t₂, m₂, hreaches, hdoes⟩ => ⟨k, t₂, m₂, .step hstart hreaches, hdoes⟩

/-- A story has in it all that is seen of a task if it has the frame that the task makes itself and
whatever is seen of the tasks that it begins. -/
theorem storied {α : Type} {x : Action α} {D : Store → Change → Prop} {P : Sights}
    (h : Story x m D P)
    (hadds : ∀ s names b p, Adds (n + 1) t m s names b p → P s (some (.make names b p)))
    (hstarts : ∀ t' m', Starts host n t m t' m' → ∀ s c?, Views host n t' m' s c? →
      P s c? ∨ s = m.store ∧ c? = none) :
    Story x m D (Views host (n + 1) t m) := by
  refine h.start fun s c? hview => ?_
  obtain ⟨k, t', m', hreaches, hshows⟩ := hview
  cases hreaches with
  | self =>
    cases hshows with
    | here => exact .inr ⟨rfl, rfl⟩
    | adds hmake => exact .inl (hadds _ _ _ _ hmake)
  | step hstart hreaches => exact hstarts _ _ hstart s c? ⟨k, t', m', hreaches, hshows⟩

/-- A task that leaves the store as it is, begins no other one and makes no frame. -/
theorem storied_still {α : Type} {x : Action α} {D : Store → Change → Prop} (h : x.Still)
    (hadds : ∀ s names b p, ¬Adds (n + 1) t m s names b p)
    (hstarts : ∀ t' m', ¬Starts host n t m t' m') : Story x m D (Views host (n + 1) t m) :=
  storied h.story (fun s names b p hmake => absurd hmake (hadds s names b p))
    fun t' m' hstart => absurd hstart (hstarts t' m')

/-- A task that begins no other one and makes no frame is seen at its start only. -/
theorem Views.here {s : Store} {c? : Option Change} (h : Views host n t m s c?)
    (hadds : ∀ s names b p, ¬Adds n t m s names b p) (hstarts : ∀ k t' m', ¬Starts host k t m t' m') :
    s = m.store ∧ c? = none := by
  obtain ⟨k, t', m', hreaches, hshows⟩ := h
  cases hreaches with
  | step hstart _ => exact absurd hstart (hstarts _ _ _)
  | self =>
    cases hshows with
    | here => exact ⟨rfl, rfl⟩
    | adds hmake => exact absurd hmake (hadds _ _ _ _)

/-- Without any depth nothing is done but binding a method or writing to a variable. -/
theorem storied_exhausted {α : Type} {x : Action α} {D : Store → Change → Prop}
    (h : x.storeAfter m = m.store) (hadds : ∀ s names b p, ¬Adds 0 t m s names b p) :
    Story x m D (Views host 0 t m) := by
  refine (Story.still (P := Unseen) h fun _ _ => id).start ?_
  rintro s c? ⟨k, t', m', ⟨⟩, hshows⟩
  cases hshows with
  | here => exact .inr ⟨rfl, rfl⟩
  | adds hmake => exact absurd hmake (hadds _ _ _ _)

theorem storied_bind (f : Closure) (i : Instance) : Storied host n (.bind f i) m := by
  have hmake : Does n (.bind f i) m m.store (.make ["this"]
      ((∅ : Bindings).insert "this" (.instanceRef i)) f.frame) := .adds .bind
  have hstory : Story (bindMethod f i) m (Doings host n (.bind f i) m) _ :=
    (Story.change (x := newFrame _ _) rfl (hmake.doings (.refl _))).bind fun frame m' _ _ =>
      (still_newIdentity.bind fun _ => .pure _).story
  refine hstory.start ?_
  rintro s c? ⟨k, t', m', hreaches, hshows⟩
  cases hreaches with
  | step hstart _ => cases hstart
  | self =>
    cases hshows with
    | here => exact .inr ⟨rfl, rfl⟩
    | adds hadds =>
      cases hadds
      exact .inl (.inl ⟨rfl, rfl⟩)

/-- A write binds the name in the frame that is its target, or nothing is done. -/
theorem storied_write (ref : Reference) (e : Expr) (v : Value) :
    Storied host n (.write ref e v) m := by
  have hstory : Story (assign ref v) m (Doings host n (.write ref e v) m) Unseen := by
    refine .get_bind ?_
    unfold Action.write
    cases htarget : m.target? ref with
    | none => exact .still rfl fun _ _ => id
    | some f =>
      have hwrite : Does n (.write ref e v) m m.store (.bind f ref.name.lexeme v) := .writes htarget
      exact (Story.change rfl (hwrite.doings (.refl _))).weaken fun _ _ => False.elim
  refine hstory.start fun s c? hview => .inr (hview.here ?_ ?_)
  · rintro _ _ _ _ ⟨⟩
  · rintro _ _ _ ⟨⟩

/-- A call begins with counting the arguments. -/
theorem story_counted {α : Type} {x : Action α} {paren : Token} {expected given : Nat}
    {D : Store → Change → Prop} {P : Sights} (h : given = expected → Story x m D P) :
    Story (do checkCount paren expected given; x) m D fun s c? => given = expected ∧ P s c? := by
  by_cases heq : given = expected
  · have hcount : checkCount paren expected given = pure () := by rw [checkCount, if_pos heq]
    rw [hcount, pure_bind]
    exact (h heq).weaken fun _ _ => And.right
  · refine .still ?_ fun s c? hs => heq hs.1
    rw [checkCount, if_neg heq]
    rfl

/-- A declaration binds its name in the active frame. -/
theorem story_define {s : Stmt} {name : Token} {v : Value} (hdeclared : s.declared? = some name)
    (hactive : m'.active = m.active) (hgrows : m.store.Grows m'.store) :
    Story (define name v) m' (Doings host (n + 1) (.statement s) m) Unseen := by
  have hdoes : Does (n + 1) (.statement s) m m'.store (.bind m'.active name.lexeme v) :=
    .declares hdeclared fun _ => hactive
  exact (Story.change rfl (hdoes.doings hgrows)).weaken fun _ _ => False.elim

theorem lookUp_eq_ok {ref : Reference} {v : Value} :
    lookUp ref m = .ok v m' ↔ m' = m ∧ m.value? ref = some v := by
  have hlookUp : lookUp ref m =
      require ref.name (.undefinedVariable ref.name.lexeme) (m.value? ref) m := rfl
  rw [hlookUp]
  cases m.value? ref with
  | none => exact ⟨nofun, fun h => nomatch h.2⟩
  | some w =>
    constructor
    · rintro ⟨⟩
      exact ⟨rfl, rfl⟩
    · rintro ⟨rfl, ⟨⟩⟩
      rfl

/-- The parent of a class is the class that its occurrence stands for. -/
theorem parentClass_eq_ok {parent : Option Reference} {found : Option Class} :
    parentClass parent m = .ok found m' ↔
      m' = m ∧ ((parent = none ∧ found = none) ∨
        ∃ ref c, parent = some ref ∧ found = some c ∧ m.value? ref = some (.classRef c)) := by
  constructor
  · intro h
    cases parent with
    | none =>
      cases h
      exact ⟨rfl, .inl ⟨rfl, rfl⟩⟩
    | some ref =>
      obtain ⟨v, m₁, hrun, h⟩ := bind_eq_ok.mp h
      obtain ⟨rfl, hvalue⟩ := lookUp_eq_ok.mp hrun
      cases v with
      | classRef c =>
        cases h
        exact ⟨rfl, .inr ⟨ref, c, rfl, rfl, hvalue⟩⟩
      | _ => cases h
  · rintro ⟨rfl, ⟨rfl, rfl⟩ | ⟨ref, c, rfl, rfl, hvalue⟩⟩
    · rfl
    · rw [parentClass, bind_of_ok (lookUp_eq_ok.mpr ⟨rfl, hvalue⟩)]
      rfl

/-- A declaration writes to its name in the active frame, once the frame binds it. -/
theorem story_redefine {s : Stmt} {name : Token} {v : Value} (hdeclared : s.declared? = some name)
    (hbound : m.active < m.store.frames.size → (m'.store.binding? m.active name.lexeme).isSome)
    (hgrows : m.store.Grows m'.store) :
    Story (Action.write (m'.store.holder? m.active name.lexeme) name v) m'
      (Doings host (n + 1) (.statement s) m) Unseen := by
  unfold Action.write
  cases hholder : m'.store.holder? m.active name.lexeme with
  | none => exact .still rfl fun _ _ => id
  | some f =>
    have hdoes : Does (n + 1) (.statement s) m m'.store (.bind f name.lexeme v) := by
      refine .declares hdeclared fun hlt => ?_
      rw [Store.holder?_of_bound (hbound hlt)] at hholder
      exact (Option.some.inj hholder).symm
    exact (Story.change rfl (hdoes.doings hgrows)).weaken fun _ _ => False.elim

/-- The frame of the methods is made for the parent class, if there is one. -/
theorem story_methodFrame {name : Token} {parent : Option Reference} {methods : List FunctionDecl}
    {found : Option Class}
    (hfound : (parent = none ∧ found = none) ∨
      ∃ ref c, parent = some ref ∧ found = some c ∧ m.value? ref = some (.classRef c)) :
    Story (methodFrame found m.active)
      { m with store := m.store.define m.active name.lexeme .null }
      (Doings host (n + 1) (.statement (.classDecl name parent methods)) m) fun s c? =>
        ∃ c, found = some c ∧ s = m.store.define m.active name.lexeme .null ∧
          c? = some (.make ["parent"] ((∅ : Bindings).insert "parent" (.classRef c)) m.active) := by
  obtain ⟨-, rfl⟩ | ⟨ref, c, rfl, rfl, hvalue⟩ := hfound
  · exact .still rfl (by rintro s c? ⟨c, ⟨⟩, -⟩)
  · have hmake : Does (n + 1) (.statement (.classDecl name (some ref) methods)) m
        (m.store.define m.active name.lexeme .null) (.make ["parent"]
          ((∅ : Bindings).insert "parent" (.classRef c)) m.active) := .adds (.subclass hvalue)
    refine (Story.change rfl (hmake.doings (Store.grows_define _ _ _ _))).weaken ?_
    rintro s c? ⟨_, ⟨⟩, hs⟩
    exact hs

/-- The declaration of a class is seen to make a frame, if there is a parent. -/
theorem story_declareClass (name : Token) (parent : Option Reference) (methods : List FunctionDecl) :
    Story (declareClass name parent methods) m
      (Doings host (n + 1) (.statement (.classDecl name parent methods)) m) fun s c? =>
        ∃ ref c, parent = some ref ∧ m.value? ref = some (.classRef c) ∧
          s = m.store.define m.active name.lexeme .null ∧
          c? = some (.make ["parent"] ((∅ : Bindings).insert "parent" (.classRef c)) m.active) := by
  unfold declareClass
  refine ((still_parentClass parent).story.bind (Q := fun found _ s c? => ∃ c, found = some c ∧
    s = m.store.define m.active name.lexeme .null ∧
      c? = some (.make ["parent"] ((∅ : Bindings).insert "parent" (.classRef c)) m.active))
    fun found m₁ hparent _ => ?_).weaken ?_
  · obtain ⟨rfl, hfound⟩ := parentClass_eq_ok.mp hparent
    refine ((story_define rfl rfl (.refl _)).bind (Q := fun _ _ s c? => ∃ c, found = some c ∧
      s = m₁.store.define m₁.active name.lexeme .null ∧
        c? = some (.make ["parent"] ((∅ : Bindings).insert "parent" (.classRef c)) m₁.active))
      fun _ m₂ hdefine hgrows => ?_).weaken fun s c? hs => .inr ⟨_, _, rfl, hs⟩
    cases hdefine
    refine .get_bind (((story_methodFrame hfound).bind fun frame m₃ _ hgrows₃ =>
      (still_newMethods frame methods).story.bind fun closures m₄ _ hgrows₄ =>
        still_newIdentity.story.bind fun identity m₅ _ hgrows₅ => .get_bind (P := Unseen) ?_).weaken
          fun _ _ => .inl)
    have hlater := (hgrows₃.trans hgrows₄).trans hgrows₅
    refine story_redefine rfl (fun hlt => hlater.bound _ _ ?_) (hgrows.trans hlater)
    rw [Store.binding?_define_same hlt]
    rfl
  · rintro s c? ⟨ref, c, rfl, hvalue, hs⟩
    exact .inr ⟨_, _, parentClass_eq_ok.mpr ⟨rfl, .inr ⟨ref, c, rfl, rfl, hvalue⟩⟩, c, rfl, hs⟩

section
variable (ih : ∀ t m, Storied host n t m)
include ih

theorem story_evaluate {e : Expr} (hstart : Starts host n t m (.expression e) m') :
    Story (evaluate host n e) m' (Doings host (n + 1) t m) (Views host n (.expression e) m') :=
  hstart.story ih

theorem story_evaluateAll {es : List Expr} (hstart : Starts host n t m (.expressions es) m') :
    Story (evaluateAll host n es) m' (Doings host (n + 1) t m) (Views host n (.expressions es) m') :=
  hstart.story ih

theorem story_call {f : Value} {paren : Token} {args : List Value}
    (hstart : Starts host n t m (.call f paren args) m') :
    Story (Treewalk.call host n f paren args) m' (Doings host (n + 1) t m)
      (Views host n (.call f paren args) m') :=
  hstart.story ih

theorem story_invoke {f : Closure} {paren : Token} {args : List Value}
    (hstart : Starts host n t m (.invoke f paren args) m') :
    Story (Treewalk.invoke host n f paren args) m' (Doings host (n + 1) t m)
      (Views host n (.invoke f paren args) m') :=
  hstart.story ih

theorem story_bind {f : Closure} {i : Instance} (hstart : Starts host n t m (.bind f i) m') :
    Story (bindMethod f i) m' (Doings host (n + 1) t m) (Views host n (.bind f i) m') :=
  hstart.story ih

theorem story_assign {ref : Reference} {e : Expr} {v : Value}
    (hstart : Starts host n t m (.write ref e v) m') :
    Story (assign ref v) m' (Doings host (n + 1) t m) (Views host n (.write ref e v) m') :=
  hstart.story ih

theorem story_execute {s : Stmt} (hstart : Starts host n t m (.statement s) m') :
    Story (execute host n s) m' (Doings host (n + 1) t m) (Views host n (.statement s) m') :=
  hstart.story ih

theorem story_executeAll {ss : List Stmt} (hstart : Starts host n t m (.statements ss) m') :
    Story (executeAll host n ss) m' (Doings host (n + 1) t m) (Views host n (.statements ss) m') :=
  hstart.story ih

theorem story_executeLoop {e : Expr} {s : Stmt} (hstart : Starts host n t m (.loop e s) m') :
    Story (executeLoop host n e s) m' (Doings host (n + 1) t m) (Views host n (.loop e s) m') :=
  hstart.story ih

/-- The method that is found for an instance is bound to it. -/
theorem story_getProperty {i : Instance} {name : Token}
    (hstart : ∀ f, m'.store.field? i.identity name.lexeme = none →
      i.ofClass.method? name.lexeme = some f → Starts host n t m (.bind f i) m') :
    Story (getProperty i name) m' (Doings host (n + 1) t m) fun s c? =>
      ∃ f, m'.store.field? i.identity name.lexeme = none ∧
        i.ofClass.method? name.lexeme = some f ∧ Views host n (.bind f i) m' s c? := by
  refine .get_bind ?_
  cases hfield : m'.store.field? i.identity name.lexeme with
  | some v => exact .still rfl (by rintro s c? ⟨f, ⟨⟩, -⟩)
  | none =>
    cases hmethod : i.ofClass.method? name.lexeme with
    | none => exact .still rfl (by rintro s c? ⟨f, -, ⟨⟩, -⟩)
    | some f =>
      have hbind := story_bind ih (hstart f hfield hmethod)
      refine (hbind.bind fun g m'' _ _ => (Still.pure (Value.function g)).story).weaken ?_
      rintro s c? ⟨g, -, ⟨⟩, hs⟩
      exact .inl hs

/-- The method that is found in the parent class is bound to the receiver. -/
theorem story_getParentMethod {ref : Reference} {method : Token}
    (hstart : ∀ d c i f, m'.distances[ref.id]? = some (d + 1) →
      m'.store.getAt? m'.active (d + 1) "parent" = some (.classRef c) →
      m'.store.getAt? m'.active d "this" = some (.instanceRef i) →
      c.method? method.lexeme = some f → Starts host n t m (.bind f i) m') :
    Story (getParentMethod ref method) m' (Doings host (n + 1) t m) fun s c? =>
      ∃ d c i f, m'.distances[ref.id]? = some (d + 1) ∧
        m'.store.getAt? m'.active (d + 1) "parent" = some (.classRef c) ∧
        m'.store.getAt? m'.active d "this" = some (.instanceRef i) ∧
        c.method? method.lexeme = some f ∧ Views host n (.bind f i) m' s c? := by
  refine .get_bind ?_
  cases hd : m'.distances[ref.id]? with
  | none => exact .still rfl (by rintro s c? ⟨d, c, i, f, ⟨⟩, -⟩)
  | some d =>
    simp only [require, pure_bind]
    split
    · next c hc =>
      cases d with
      | zero => exact .still rfl (by rintro s c? ⟨d, c, i, f, ⟨⟩, -⟩)
      | succ d =>
        dsimp only
        split
        · next i hi =>
          cases hmethod : c.method? method.lexeme with
          | none =>
            refine .still rfl ?_
            rintro s c? ⟨_, c', i', f, ⟨⟩, hc', -, hmethod', -⟩
            cases hc.symm.trans hc'
            cases hmethod.symm.trans hmethod'
          | some f =>
            have hbind := story_bind ih (hstart d c i f hd hc hi hmethod)
            refine (hbind.bind fun g m'' _ _ => (Still.pure (Value.function g)).story).weaken ?_
            rintro s c? ⟨_, c', i', f', ⟨⟩, hc', hi', hmethod', hs⟩
            cases hc.symm.trans hc'
            cases hi.symm.trans hi'
            cases hmethod.symm.trans hmethod'
            exact .inl hs
        · next hnot =>
          refine .still rfl ?_
          rintro s c? ⟨_, c', i', f, ⟨⟩, -, hi', -⟩
          exact hnot i' hi'
    · next hnot =>
      refine .still rfl ?_
      rintro s c? ⟨d', c', i', f, ⟨⟩, hc', -⟩
      exact hnot c' hc'

theorem storied_get (object : Expr) (name : Token) :
    Storied host (n + 1) (.expression (.get object name)) m := by
  show Story (evaluate host (n + 1) (.get object name)) m _ _
  rw [evaluate]
  refine storied ((story_evaluate ih .object).bind
    (Q := fun v m' s c? => ∃ i f, v = .instanceRef i ∧
      m'.store.field? i.identity name.lexeme = none ∧ i.ofClass.method? name.lexeme = some f ∧
        Views host n (.bind f i) m' s c?) fun v m' hrun _ => ?_) (by rintro _ _ _ _ ⟨⟩) ?_
  · cases v with
    | instanceRef i =>
      refine (story_getProperty ih fun f => .property hrun).weaken ?_
      rintro s c? ⟨_, f, ⟨⟩, hs⟩
      exact ⟨f, hs⟩
    | _ => exact .still rfl (by rintro s c? ⟨i, f, ⟨⟩, -⟩)
  · intro _ _ hstart s c? hs
    cases hstart with
    | object => exact .inl (.inl hs)
    | property hrun hfield hmethod =>
      exact .inl (.inr ⟨_, _, hrun, _, _, rfl, hfield, hmethod, hs⟩)

theorem storied_set (object : Expr) (name : Token) (value : Expr) :
    Storied host (n + 1) (.expression (.set object name value)) m := by
  show Story (evaluate host (n + 1) (.set object name value)) m _ _
  rw [evaluate]
  refine storied ((story_evaluate ih .changed).bind
    (Q := fun v m' s c? => (∃ i, v = .instanceRef i) ∧ Views host n (.expression value) m' s c?)
    fun v m' hrun hgrows => ?_) (by rintro _ _ _ _ ⟨⟩) ?_
  · cases v with
    | instanceRef i =>
      have hset (w : Value) (m'' : Machine) (hgrows' : m'.store.Grows m''.store) :
          Story (setProperty i name w) m''
            (Doings host (n + 1) (.expression (.set object name value)) m) Unseen := by
        have hfield : Does (n + 1) (.expression (.set object name value)) m m''.store
          (.field i.identity name.lexeme w) := .field
        exact (Story.change rfl (hfield.doings (hgrows.trans hgrows'))).weaken fun _ _ => False.elim
      refine ((story_evaluate ih (.change hrun)).bind fun w m'' _ hgrows' =>
        (hset w m'' hgrows').bind fun _ m₃ _ _ => (Still.pure w).story).weaken ?_
      rintro s c? ⟨-, hs⟩
      exact .inl hs
    | _ => exact .still rfl (by rintro s c? ⟨⟨i, ⟨⟩⟩, -⟩)
  · intro _ _ hstart s c? hs
    cases hstart with
    | changed => exact .inl (.inl hs)
    | change hrun => exact .inl (.inr ⟨_, _, hrun, ⟨_, rfl⟩, hs⟩)

theorem storied_expression (e : Expr) : Storied host (n + 1) (.expression e) m := by
  show Story (evaluate host (n + 1) e) m _ _
  cases e with rw [evaluate]
  | literal value =>
    exact storied_still (.pure _) (by rintro _ _ _ _ ⟨⟩) (by rintro _ _ ⟨⟩)
  | grouping inner =>
    refine storied (story_evaluate ih .grouping) (by rintro _ _ _ _ ⟨⟩) ?_
    rintro _ _ ⟨⟩ s c? hs
    exact .inl hs
  | unary op operand =>
    refine storied ((story_evaluate ih .operand).bind fun v m' _ _ =>
      (still_lift _ _).story) (by rintro _ _ _ _ ⟨⟩) ?_
    rintro _ _ ⟨⟩ s c? hs
    exact .inl (.inl hs)
  | binary left op right =>
    refine storied ((story_evaluate ih .left).bind fun a m' hrun _ =>
      (story_evaluate ih (.right hrun)).bind fun b m'' _ _ => (still_lift _ _).story)
      (by rintro _ _ _ _ ⟨⟩) ?_
    intro _ _ hstart s c? hs
    cases hstart with
    | left => exact .inl (.inl hs)
    | right hrun => exact .inl (.inr ⟨_, _, hrun, .inl hs⟩)
  | logical left op right =>
    have hright (a : Value) (m' : Machine) (hrun : evaluate host n left m = .ok a m') :
        Story (if a.decides op.terminal then pure a else evaluate host n right) m'
          (Doings host (n + 1) (.expression (.logical left op right)) m)
          fun s c? => a.decides op.terminal = false ∧ Views host n (.expression right) m' s c? := by
      cases hdecides : a.decides op.terminal with
      | true => exact .still rfl (by rintro s c? ⟨⟨⟩, -⟩)
      | false => exact (story_evaluate ih (.decided hrun hdecides)).weaken fun _ _ => And.right
    refine storied ((story_evaluate ih .decider).bind fun a m' hrun _ => hright a m' hrun)
      (by rintro _ _ _ _ ⟨⟩) ?_
    intro _ _ hstart s c? hs
    cases hstart with
    | decider => exact .inl (.inl hs)
    | decided hrun hdecides => exact .inl (.inr ⟨_, _, hrun, hdecides, hs⟩)
  | «variable» ref =>
    exact storied_still (still_lookUp ref) (by rintro _ _ _ _ ⟨⟩) (by rintro _ _ ⟨⟩)
  | this ref =>
    exact storied_still (still_lookUp ref) (by rintro _ _ _ _ ⟨⟩) (by rintro _ _ ⟨⟩)
  | assign ref value =>
    refine storied ((story_evaluate ih .assigned).bind fun v m' hrun _ =>
      (story_assign ih (.write hrun)).bind fun _ m'' _ _ => (Still.pure v).story)
      (by rintro _ _ _ _ ⟨⟩) ?_
    intro _ _ hstart s c? hs
    cases hstart with
    | assigned => exact .inl (.inl hs)
    | write hrun => exact .inl (.inr ⟨_, _, hrun, .inl hs⟩)
  | call callee paren arguments =>
    refine storied ((story_evaluate ih .callee).bind fun f m' hrun _ =>
      (story_evaluateAll ih (.arguments hrun)).bind fun args m'' hrun' _ =>
        story_call ih (.call hrun hrun')) (by rintro _ _ _ _ ⟨⟩) ?_
    intro _ _ hstart s c? hs
    cases hstart with
    | callee => exact .inl (.inl hs)
    | arguments hrun => exact .inl (.inr ⟨_, _, hrun, .inl hs⟩)
    | call hrun hrun' => exact .inl (.inr ⟨_, _, hrun, .inr ⟨_, _, hrun', hs⟩⟩)
  | get object name => exact storied_get ih object name
  | set object name value => exact storied_set ih object name value
  | parent ref method =>
    refine storied (story_getParentMethod ih fun d c i f => .parentMethod)
      (by rintro _ _ _ _ ⟨⟩) ?_
    intro _ _ hstart s c? hs
    cases hstart with
    | parentMethod hd hc hi hmethod => exact .inl ⟨_, _, _, _, hd, hc, hi, hmethod, hs⟩

theorem storied_expressions (es : List Expr) : Storied host (n + 1) (.expressions es) m := by
  show Story (evaluateAll host (n + 1) es) m _ _
  cases es with rw [evaluateAll]
  | nil =>
    exact storied_still (.pure _) (by rintro _ _ _ _ ⟨⟩) (by rintro _ _ ⟨⟩)
  | cons e rest =>
    refine storied ((story_evaluate ih .firstArgument).bind fun v m' hrun _ =>
      (story_evaluateAll ih (.otherArguments hrun)).bind fun vs m'' _ _ =>
        (Still.pure (v :: vs)).story) (by rintro _ _ _ _ ⟨⟩) ?_
    intro _ _ hstart s c? hs
    cases hstart with
    | firstArgument => exact .inl (.inl hs)
    | otherArguments hrun => exact .inl (.inr ⟨_, _, hrun, .inl hs⟩)

theorem storied_call (f : Value) (paren : Token) (args : List Value) :
    Storied host (n + 1) (.call f paren args) m := by
  show Story (Treewalk.call host (n + 1) f paren args) m _ _
  cases f with simp only [Treewalk.call]
  | function f =>
    refine storied (story_counted fun hlength => story_invoke ih (.invoke hlength))
      (by rintro _ _ _ _ ⟨⟩) ?_
    intro _ _ hstart s c? hs
    cases hstart with
    | invoke hlength => exact .inl ⟨hlength, hs⟩
  | native f =>
    exact storied_still ((still_checkCount _ _ _).bind fun _ => still_callHost _ _ _ _)
      (by rintro _ _ _ _ ⟨⟩) (by rintro _ _ ⟨⟩)
  | classRef c =>
    have hobject : Does (n + 1) (.call (.classRef c) paren args) m m.store .object := .object
    have hnew : Story (newInstance c) m (Doings host (n + 1) (.call (.classRef c) paren args) m) _ :=
      .change rfl (hobject.doings (.refl _))
    refine storied (story_counted fun hlength => hnew.bind
      (Q := fun i m' s c? => ∃ f, c.method? initializerName = some f ∧
        (Views host n (.bind f i) m' s c? ∨ ∃ g m'', bindMethod f i m' = .ok g m'' ∧
          Views host n (.invoke g paren args) m'' s c?)) fun i m' hrun _ => ?_)
      (by rintro _ _ _ _ ⟨⟩) ?_
    · cases hmethod : c.method? initializerName with
      | none => exact .still rfl (by rintro s c? ⟨f, ⟨⟩, -⟩)
      | some f =>
        refine ((story_bind ih (.bind hlength hrun hmethod)).bind fun g m'' hbind _ =>
          (story_invoke ih (.initializer hlength hrun hmethod hbind)).bind fun _ m₃ _ _ =>
            (Still.pure (Value.instanceRef i)).story).weaken ?_
        rintro s c? ⟨_, ⟨⟩, hs | ⟨g, m'', hbind, hs⟩⟩
        · exact .inl hs
        · exact .inr ⟨g, m'', hbind, .inl hs⟩
    · intro _ _ hstart s c? hs
      cases hstart with
      | bind hlength hrun hmethod =>
        exact .inl ⟨hlength, .inr ⟨_, _, hrun, _, hmethod, .inl hs⟩⟩
      | initializer hlength hrun hmethod hbind =>
        exact .inl ⟨hlength, .inr ⟨_, _, hrun, _, hmethod, .inr ⟨_, _, hbind, hs⟩⟩⟩
  | _ => exact storied_still (still_fail _ _) (by rintro _ _ _ _ ⟨⟩) (by rintro _ _ ⟨⟩)

theorem storied_invoke (f : Closure) (paren : Token) (args : List Value) :
    Storied host (n + 1) (.invoke f paren args) m := by
  show Story (Treewalk.invoke host (n + 1) f paren args) m _ _
  rw [Treewalk.invoke]
  have hmake : Does (n + 1) (.invoke f paren args) m m.store (.make (Opening.function f.decl).names
      (argumentBindings f.decl.params args) f.frame) := .adds .call
  have hnew : Story (newFrame (argumentBindings f.decl.params args) f.frame) m
      (Doings host (n + 1) (.invoke f paren args) m) _ :=
    .change rfl (hmake.doings (.refl _))
  refine storied (hnew.bind fun frame m' hrun _ => (story_executeAll ih (.body hrun)).inFrame.bind
    fun completion m'' _ _ => Still.story ?_) ?_ ?_
  · split
    · exact still_get.bind fun _ => still_require _ _ _
    · exact .pure _
  · rintro _ _ _ _ ⟨⟩
    exact .inl ⟨rfl, rfl⟩
  · intro _ _ hstart s c? hs
    cases hstart with
    | body hrun => exact .inl (.inr ⟨_, _, hrun, .inl hs⟩)

theorem storied_statements (ss : List Stmt) : Storied host (n + 1) (.statements ss) m := by
  show Story (executeAll host (n + 1) ss) m _ _
  cases ss with rw [executeAll]
  | nil =>
    exact storied_still (.pure _) (by rintro _ _ _ _ ⟨⟩) (by rintro _ _ ⟨⟩)
  | cons s rest =>
    refine storied ((story_execute ih .first).bind
      (Q := fun c m' s c? => c = .normal ∧ Views host n (.statements rest) m' s c?)
      fun c m' hrun _ => ?_) (by rintro _ _ _ _ ⟨⟩) ?_
    · cases c with
      | normal => exact (story_executeAll ih (.rest hrun)).weaken fun _ _ => And.right
      | returned v => exact .still rfl (by rintro s c? ⟨⟨⟩, -⟩)
    · intro _ _ hstart s c? hs
      cases hstart with
      | first => exact .inl (.inl hs)
      | rest hrun => exact .inl (.inr ⟨_, _, hrun, rfl, hs⟩)

theorem storied_loop (e : Expr) (body : Stmt) : Storied host (n + 1) (.loop e body) m := by
  show Story (executeLoop host (n + 1) e body) m _ _
  rw [executeLoop]
  refine storied ((story_evaluate ih .loopCondition).bind
    (Q := fun v m' s c? => v.isTruthy = true ∧ (Views host n (.statement body) m' s c? ∨
      ∃ m'', execute host n body m' = .ok .normal m'' ∧ Views host n (.loop e body) m'' s c?))
    fun v m' hrun _ => ?_) (by rintro _ _ _ _ ⟨⟩) ?_
  · cases htruthy : v.isTruthy with
    | false => exact .still rfl (by rintro s c? ⟨⟨⟩, -⟩)
    | true =>
      refine ((story_execute ih (.loopBody hrun htruthy)).bind
        (Q := fun c m'' s c? => c = .normal ∧ Views host n (.loop e body) m'' s c?)
        fun c m'' hrun' _ => ?_).weaken ?_
      · cases c with
        | normal => exact (story_executeLoop ih (.again hrun htruthy hrun')).weaken fun _ _ => And.right
        | returned v => exact .still rfl (by rintro s c? ⟨⟨⟩, -⟩)
      · rintro s c? ⟨-, hs | ⟨m'', hrun', hs⟩⟩
        · exact .inl hs
        · exact .inr ⟨_, _, hrun', rfl, hs⟩
  · intro _ _ hstart s c? hs
    cases hstart with
    | loopCondition => exact .inl (.inl hs)
    | loopBody hrun htruthy => exact .inl (.inr ⟨_, _, hrun, htruthy, .inl hs⟩)
    | again hrun htruthy hrun' => exact .inl (.inr ⟨_, _, hrun, htruthy, .inr ⟨_, hrun', hs⟩⟩)

theorem storied_block (body : List Stmt) : Storied host (n + 1) (.statement (.block body)) m := by
  show Story (execute host (n + 1) (.block body)) m _ _
  rw [execute]
  have hmake : Does (n + 1) (.statement (.block body)) m m.store
    (.make (Opening.block body).names ∅ m.active) := .adds .block
  have hnew : Story (newFrame ∅ m.active) m (Doings host (n + 1) (.statement (.block body)) m) _ :=
    .change rfl (hmake.doings (.refl _))
  refine storied (.get_bind (hnew.bind fun frame m' hrun _ =>
    (story_executeAll ih (.block hrun)).inFrame)) ?_ ?_
  · rintro _ _ _ _ ⟨⟩
    exact .inl ⟨rfl, rfl⟩
  · intro _ _ hstart s c? hs
    cases hstart with
    | block hrun => exact .inl (.inr ⟨_, _, hrun, hs⟩)

theorem storied_branch (condition : Expr) (whenTrue : Stmt) (whenFalse : Option Stmt) :
    Storied host (n + 1) (.statement (.branch condition whenTrue whenFalse)) m := by
  show Story (execute host (n + 1) (.branch condition whenTrue whenFalse)) m _ _
  rw [execute.eq_def]
  refine storied ((story_evaluate ih .condition).bind
    (Q := fun v m' s c? =>
      (v.isTruthy = true ∧ Views host n (.statement whenTrue) m' s c?) ∨
      ∃ other, whenFalse = some other ∧ v.isTruthy = false ∧
        Views host n (.statement other) m' s c?) fun v m' hrun _ => ?_) (by rintro _ _ _ _ ⟨⟩) ?_
  · cases htruthy : v.isTruthy with
    | true =>
      refine (story_execute ih (.whenTrue hrun htruthy)).weaken ?_
      rintro s c? (⟨-, hs⟩ | ⟨_, -, ⟨⟩, -⟩)
      exact hs
    | false =>
      cases whenFalse with
      | none => exact .still rfl (by rintro s c? (⟨⟨⟩, -⟩ | ⟨_, ⟨⟩, -⟩))
      | some other =>
        refine (story_execute ih (.whenFalse hrun htruthy)).weaken ?_
        rintro s c? (⟨⟨⟩, -⟩ | ⟨_, ⟨⟩, -, hs⟩)
        exact hs
  · intro _ _ hstart s c? hs
    cases hstart with
    | condition => exact .inl (.inl hs)
    | whenTrue hrun htruthy => exact .inl (.inr ⟨_, _, hrun, .inl ⟨htruthy, hs⟩⟩)
    | whenFalse hrun htruthy => exact .inl (.inr ⟨_, _, hrun, .inr ⟨_, rfl, htruthy, hs⟩⟩)

theorem storied_statement (s : Stmt) : Storied host (n + 1) (.statement s) m := by
  show Story (execute host (n + 1) s) m _ _
  have hsteady := evaluatesSteadily host n
  cases s with
  | expression e =>
    rw [execute]
    refine storied ((story_evaluate ih .value).bind fun _ m' _ _ => (Still.pure _).story)
      (by rintro _ _ _ _ ⟨⟩) ?_
    rintro _ _ ⟨⟩ s c? hs
    exact .inl (.inl hs)
  | print e =>
    rw [execute]
    refine storied ((story_evaluate ih .printed).bind fun _ m' _ _ =>
      ((still_print _).bind fun _ => .pure _).story) (by rintro _ _ _ _ ⟨⟩) ?_
    rintro _ _ ⟨⟩ s c? hs
    exact .inl (.inl hs)
  | var name initial =>
    cases initial with
    | none =>
      rw [execute]
      exact storied ((story_define rfl rfl (.refl _)).bind fun _ m' _ _ => (Still.pure _).story)
        (by rintro _ _ _ _ ⟨⟩) (by rintro _ _ ⟨⟩)
    | some e =>
      rw [execute]
      refine storied ((story_evaluate ih .initial).bind fun v m' hrun hgrows =>
        (story_define rfl ((hsteady.expression e).of_ok hrun).active hgrows).bind fun _ m'' _ _ =>
          (Still.pure _).story) (by rintro _ _ _ _ ⟨⟩) ?_
      rintro _ _ ⟨⟩ s c? hs
      exact .inl (.inl hs)
  | block body => exact storied_block ih body
  | branch condition whenTrue whenFalse => exact storied_branch ih condition whenTrue whenFalse
  | loop condition body =>
    rw [execute]
    refine storied (story_executeLoop ih .loop) (by rintro _ _ _ _ ⟨⟩) ?_
    rintro _ _ ⟨⟩ s c? hs
    exact .inl hs
  | function decl =>
    rw [execute]
    refine storied (.get_bind ((still_newClosure decl m.active false).story.bind fun f m' hrun hgrows =>
      (story_define rfl ((steady_newClosure _ _ _).of_ok hrun).active hgrows).bind fun _ m'' _ _ =>
        (Still.pure _).story)) (by rintro _ _ _ _ ⟨⟩) (by rintro _ _ ⟨⟩)
  | giveBack keyword value =>
    cases value with
    | none =>
      rw [execute]
      exact storied_still (.pure _) (by rintro _ _ _ _ ⟨⟩) (by rintro _ _ ⟨⟩)
    | some e =>
      rw [execute]
      refine storied ((story_evaluate ih .givenBack).bind fun _ m' _ _ => (Still.pure _).story)
        (by rintro _ _ _ _ ⟨⟩) ?_
      rintro _ _ ⟨⟩ s c? hs
      exact .inl (.inl hs)
  | classDecl name parent methods =>
    rw [execute]
    refine storied ((story_declareClass name parent methods).bind fun _ m' _ _ =>
      (Still.pure _).story) ?_ ?_
    · intro _ _ _ _ hadds
      cases hadds with
      | subclass hvalue => exact .inl ⟨_, _, rfl, hvalue, rfl, rfl⟩
    · intro _ _ hstart s c? hs
      cases hstart with
      | heritage => exact .inr (hs.here (by rintro _ _ _ _ ⟨⟩) (by rintro _ _ _ ⟨⟩))

end

/-- Every task has its story. -/
theorem story (host : Host) (n : Nat) (t : Task) (m : Machine) : Storied host n t m := by
  induction n generalizing t m with
  | zero =>
    cases t with
    | bind f i => exact storied_bind f i
    | write ref e v => exact storied_write ref e v
    | _ => exact storied_exhausted rfl (by rintro _ _ _ _ ⟨⟩)
  | succ n ih =>
    cases t with
    | expression e => exact storied_expression ih e
    | expressions es => exact storied_expressions ih es
    | call f paren args => exact storied_call ih f paren args
    | invoke f paren args => exact storied_invoke ih f paren args
    | bind f i => exact storied_bind f i
    | write ref e v => exact storied_write ref e v
    | statement s => exact storied_statement ih s
    | statements ss => exact storied_statements ih ss
    | loop e body => exact storied_loop ih e body

end Task

end Treewalk
