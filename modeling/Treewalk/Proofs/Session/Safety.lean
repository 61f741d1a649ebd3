import Treewalk.Proofs.Session.Soundness

/-! Internal faults. Some faults of the evaluator are there for machines that no session comes to;
whatever the texts and however the runs before ended, no run of a session stops at one of them. -/

namespace Treewalk

namespace History

variable {sink : Sink} {time : Nat → Float} {h : History} {t : Task} {m : Machine}

/-- A run stops, if at all, for a reason that an accepted program may come to. -/
theorem legit_of_halt {depth : Nat} {source : String} {halt : Halt}
    (hhalt : ((h.session sink time).runWithin depth (.reading time) source).1.halt = some halt) :
    halt.Legit := by
  cases haccepted : (h.session sink time).accepted? source with
  | none =>
    rw [(Session.runWithin_of_rejected haccepted).1] at hhalt
    cases hhalt
  | some program =>
    have hstarting : Starting sink time depth source h program :=
      (between sink time h).starting haccepted
    have hsafe := Program.safe_interpret hstarting.accepted (Host.answersNumbers_reading time)
      hstarting.mem hstarting.sound hstarting.active hstarting.covered
    have hrun := Session.runWithin_of_accepted depth (.reading time) haccepted
    split at hrun
    · rw [hrun.1] at hhalt
      cases hhalt
    · next hinterpret =>
      rw [hrun.1] at hhalt
      cases hhalt
      exact (hsafe.of_error hinterpret).2

/-- Where a local variable or `this` is read it has a value. -/
theorem Passes.lookUp {e : Expr} {ref : Reference} (hpasses : h.Passes sink time (.expression e) m)
    (he : e = .variable ref ∨ e = .this ref) (hd : (m.distances[ref.id]?).isSome) :
    ∃ v, Action.lookUp ref m = .ok v m := by
  obtain ⟨W, hW, -, hm, underway, hat⟩ := hpasses.fitting
  obtain ⟨d, hd⟩ := Option.isSome_iff_exists.mp hd
  have hvalue : (m.value? ref).isSome := by
    obtain rfl | rfl := he
    · exact hat.value?_variable hW hm hd
    · obtain ⟨i, hi⟩ := hat.value?_this hW hm
      rw [hi]
      rfl
  obtain ⟨v, hv⟩ := Option.isSome_iff_exists.mp hvalue
  refine ⟨v, ?_⟩
  rw [Action.lookUp, bind_of_ok get_apply, hv]
  rfl

/-- Where a local variable is written to there is a frame. -/
theorem Passes.assign {ref : Reference} {value : Expr} {v : Value}
    (hpasses : h.Passes sink time (.write ref value v) m) (hd : (m.distances[ref.id]?).isSome) :
    ∃ m', Action.assign ref v m = .ok () m' := by
  obtain ⟨W, hW, -, hm, ⟨underway, hat⟩, -⟩ := hpasses.fitting
  obtain ⟨d, hd⟩ := Option.isSome_iff_exists.mp hd
  obtain ⟨frame, hframe⟩ := Option.isSome_iff_exists.mp (hat.target?_assigned hW hm hd)
  refine ⟨{ m with store := m.store.define frame ref.name.lexeme v }, ?_⟩
  rw [Action.assign, bind_of_ok get_apply, hframe]
  rfl

/-- A function is entered with all of its parameters bound. -/
theorem Passes.invoke {f : Closure} {paren : Token} {args : List Value}
    (hpasses : h.Passes sink time (.invoke f paren args) m) :
    args.length = f.decl.params.length ∧
      ∀ n m', Task.Starts (.reading time) n (.invoke f paren args) m (.statements f.decl.body) m' →
        ∀ p ∈ f.decl.params, (m'.store.binding? m'.active p.lexeme).isSome := by
  obtain ⟨W, hW, -, hm, -, hlength, -⟩ := hpasses.fitting
  refine ⟨hlength, fun n m' hstart p hp => ?_⟩
  cases hstart with
  | body hnew =>
    cases hnew
    have hself : (m.store.addFrame (argumentBindings f.decl.params args) (some f.frame)).2.binding?
        m.store.frames.size p.lexeme = (argumentBindings f.decl.params args)[p.lexeme]? :=
      Store.binding?_addFrame_self
    exact (congrArg Option.isSome hself).trans ((argumentBindings_binds hlength).mpr ⟨p, hp, rfl⟩)

/-- No run of a session ends with an internal fault: after any history, a run that stops does so
neither with one of the internal faults nor with a class missing at the word `parent`. At every
moment of a run, a local variable that is read or written to and `this` are found, and a function is
entered with as many arguments as parameters, and with all parameters bound. -/
theorem no_internal_faults (sink : Sink) (time : Nat → Float) (h : History) :
    (∀ depth source token found,
      ((h.session sink time).runWithin depth (.reading time) source).1.halt =
        some (.fault token found) →
      ¬found.IsInternal ∧ (found = .parentNotClass → token.terminal ≠ .keyword .parentWord)) ∧
    (∀ m e ref, h.Passes sink time (.expression e) m → (e = .variable ref ∨ e = .this ref) →
      (m.distances[ref.id]?).isSome → ∃ v, Action.lookUp ref m = .ok v m) ∧
    (∀ m ref value v, h.Passes sink time (.write ref value v) m →
      (m.distances[ref.id]?).isSome → ∃ m', Action.assign ref v m = .ok () m') ∧
    ∀ m f paren args, h.Passes sink time (.invoke f paren args) m →
      args.length = f.decl.params.length ∧
        ∀ n m', Task.Starts (.reading time) n (.invoke f paren args) m (.statements f.decl.body) m' →
          ∀ p ∈ f.decl.params, (m'.store.binding? m'.active p.lexeme).isSome :=
  ⟨fun _ _ _ _ hhalt => legit_of_halt hhalt, fun _ _ _ hpasses he hd => hpasses.lookUp he hd,
    fun _ _ _ _ hpasses hd => hpasses.assign hd, fun _ _ _ _ hpasses => hpasses.invoke⟩

end History

end Treewalk
