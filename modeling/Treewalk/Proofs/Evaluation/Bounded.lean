import Treewalk.Proofs.Evaluation.Closure
import Treewalk.Proofs.Evaluation.Moments

/-! A bound on the output. What is done with a sink that takes so many bytes is what is done with one
that takes all, as long as the bytes fit. The print whose bytes do not fit ends everything. -/

namespace Treewalk

theorem extract_of_size_le {data : ByteArray} {limit : Nat} (h : data.size ≤ limit) :
    data.extract 0 limit = data := by
  have hmax := ByteArray.extract_zero_max_size (a := data) (i := limit)
  rwa [Nat.max_eq_left h] at hmax

/-- The machine, its sink taking no more bytes than these in all. -/
def Machine.bounded (limit : Nat) (m : Machine) : Machine :=
  { m with sink := { m.sink with room := some (limit - m.sink.written.size) } }

/-- From a machine whose sink takes all to a later one, which may have printed more. -/
structure Machine.Prints (m m' : Machine) : Prop where
  room : m'.sink.room = none
  printed : ∃ out, m'.sink.written = m.sink.written ++ out

namespace Machine.Prints

variable {m m' m'' : Machine}

theorem refl (h : m.sink.room = none) : m.Prints m := ⟨h, .empty, ByteArray.append_empty.symm⟩

theorem trans (h : m.Prints m') (h' : m'.Prints m'') : m.Prints m'' := by
  obtain ⟨out, hout⟩ := h.printed
  obtain ⟨out', hout'⟩ := h'.printed
  exact ⟨h'.room, out ++ out', by rw [hout', hout, ByteArray.append_assoc]⟩

theorem size_le (h : m.Prints m') : m.sink.written.size ≤ m'.sink.written.size := by
  obtain ⟨out, hout⟩ := h.printed
  rw [hout, ByteArray.size_append]
  exact Nat.le_add_right _ _

/-- What was printed first is not changed by what is printed later. -/
theorem extract_eq (h : m.Prints m') {limit : Nat} (hlimit : limit ≤ m.sink.written.size) :
    m'.sink.written.extract 0 limit = m.sink.written.extract 0 limit := by
  obtain ⟨out, hout⟩ := h.printed
  have hrest : out.extract (0 - m.sink.written.size) (limit - m.sink.written.size) = .empty :=
    ByteArray.extract_eq_empty_iff.mpr (by omega)
  rw [hout, ByteArray.extract_append, hrest, ByteArray.append_empty]

end Machine.Prints

namespace Action

variable {α β : Type} {x y : Action α} {f : α → Action β} {m m' : Machine} {limit : Nat}

/-- The state in which an action ends, however it does. -/
def after (x : Action α) (m : Machine) : Machine :=
  match x m with
  | .ok _ m' | .error _ m' => m'

theorem after_of_ok {a : α} (h : x m = .ok a m') : x.after m = m' := by rw [after, h]

theorem after_of_error {halt : Halt} (h : x m = .error halt m') : x.after m = m' := by
  rw [after, h]

/-- With a bound, the action does on the machine what it does without one, if the output fits. If it does
not, the sink is filled up, and the action halts for this reason. -/
inductive CutAt (limit : Nat) (x : Action α) (m : Machine) : Prop
  | ok {a m'} : x m = .ok a m' → m'.sink.written.size ≤ limit →
    x (m.bounded limit) = .ok a (m'.bounded limit) → CutAt limit x m
  | error {halt m'} : x m = .error halt m' → m'.sink.written.size ≤ limit →
    x (m.bounded limit) = .error halt (m'.bounded limit) → CutAt limit x m
  | full {m₁} : limit < (x.after m).sink.written.size →
    x (m.bounded limit) = .error (.sink .full) m₁ →
    m₁.sink.written = (x.after m).sink.written.extract 0 limit → CutAt limit x m

/-- On every machine whose sink takes all, the action prints, if anything, behind what was printed
before, and a bound cuts it. -/
def Cut (limit : Nat) (x : Action α) : Prop :=
  ∀ m, m.sink.room = none →
    m.Prints (x.after m) ∧ (m.sink.written.size ≤ limit → CutAt limit x m)

theorem Cut.of_eq (h : ∀ m, x m = y m) (hy : y.Cut limit) : x.Cut limit := by
  rwa [show x = y from funext h]

theorem Cut.pure (a : α) : Cut limit (pure a : Action α) :=
  fun _ hroom => ⟨.refl hroom, fun hfits => .ok rfl hfits rfl⟩

theorem cut_throw (halt : Halt) : Cut limit (throw halt : Action α) :=
  fun _ hroom => ⟨.refl hroom, fun hfits => .error rfl hfits rfl⟩

theorem Cut.prints_of_ok (h : x.Cut limit) (hroom : m.sink.room = none) {a : α}
    (hrun : x m = .ok a m') : m.Prints m' :=
  after_of_ok hrun ▸ (h m hroom).1

theorem Cut.bind (hx : x.Cut limit) (hf : ∀ a, (f a).Cut limit) : (x >>= f).Cut limit := by
  intro m hroom
  obtain ⟨hprints, hcut⟩ := hx m hroom
  cases hrun : x m with
  | error halt m' =>
    rw [after_of_error hrun] at hprints
    refine ⟨after_of_error (bind_of_error hrun) ▸ hprints, fun hfits => ?_⟩
    cases hcut hfits with
    | ok hok => rw [hrun] at hok; cases hok
    | error herror hfits hbounded =>
      exact .error (bind_of_error herror) hfits (bind_of_error hbounded)
    | full hover hbounded hwritten =>
      rw [after_of_error hrun] at hover hwritten
      rw [← after_of_error (bind_of_error (f := f) hrun)] at hover hwritten
      exact .full hover (bind_of_error hbounded) hwritten
  | ok a m' =>
    rw [after_of_ok hrun] at hprints
    obtain ⟨hprints', hcut'⟩ := hf a m' hprints.room
    have hafter : (x >>= f).after m = (f a).after m' := by rw [after, bind_of_ok hrun, after]
    refine ⟨hafter ▸ hprints.trans hprints', fun hfits => ?_⟩
    cases hcut hfits with
    | error herror => rw [hrun] at herror; cases herror
    | full hover hbounded hwritten =>
      rw [after_of_ok hrun] at hover hwritten
      refine .full ?_ (bind_of_error hbounded) ?_
      · rw [hafter]
        exact Nat.lt_of_lt_of_le hover hprints'.size_le
      · rw [hafter, hprints'.extract_eq (Nat.le_of_lt hover), hwritten]
    | ok hok hfits hbounded =>
      rw [hrun] at hok
      cases hok
      cases hcut' hfits with
      | ok hok hfits hbounded' =>
        exact .ok (by rw [bind_of_ok hrun, hok]) hfits (by rw [bind_of_ok hbounded, hbounded'])
      | error herror hfits hbounded' =>
        exact .error (by rw [bind_of_ok hrun, herror]) hfits (by rw [bind_of_ok hbounded, hbounded'])
      | full hover hbounded' hwritten =>
        rw [← hafter] at hover hwritten
        exact .full hover (by rw [bind_of_ok hbounded, hbounded']) hwritten

/-- Whether an action looks at the sink or not, it may depend on the rest of the machine. -/
theorem Cut.get_bind {f : Machine → Action α} (hf : ∀ m sink, f { m with sink } = f m)
    (h : ∀ m, (f m).Cut limit) : (get >>= f).Cut limit := by
  intro m hroom
  obtain ⟨hprints, hcut⟩ := h m m hroom
  have hbounded : (get >>= f) (m.bounded limit) = f m (m.bounded limit) := by
    rw [bind_of_ok get_apply, Machine.bounded, hf]
  refine ⟨hprints, fun hfits => ?_⟩
  cases hcut hfits with
  | ok hrun hfits hrun' => exact .ok hrun hfits (hbounded.trans hrun')
  | error hrun hfits hrun' => exact .error hrun hfits (hbounded.trans hrun')
  | full hover hrun' hwritten => exact .full hover (hbounded.trans hrun') hwritten

theorem inFrame_of_ok {frame : FrameId} {a : α} (h : x { m with active := frame } = .ok a m') :
    inFrame frame x m = .ok a { m' with active := m.active } := by
  rw [inFrame, h]

theorem inFrame_of_error {frame : FrameId} {halt : Halt}
    (h : x { m with active := frame } = .error halt m') :
    inFrame frame x m = .error halt { m' with active := m.active } := by
  rw [inFrame, h]

theorem Cut.inFrame (frame : FrameId) (h : x.Cut limit) : (inFrame frame x).Cut limit := by
  intro m hroom
  obtain ⟨hprints, hcut⟩ := h { m with active := frame } hroom
  have hafter : (Action.inFrame frame x).after m =
      { x.after { m with active := frame } with active := m.active } := by
    cases hrun : x { m with active := frame } with
    | ok a m' => rw [after_of_ok (inFrame_of_ok hrun), after_of_ok hrun]
    | error halt m' => rw [after_of_error (inFrame_of_error hrun), after_of_error hrun]
  refine ⟨hafter ▸ ⟨hprints.room, hprints.printed⟩, fun hfits => ?_⟩
  cases hcut hfits with
  | ok hrun hfits hrun' =>
    exact .ok (inFrame_of_ok hrun) hfits (inFrame_of_ok (m := m.bounded limit) hrun')
  | error hrun hfits hrun' =>
    exact .error (inFrame_of_error hrun) hfits (inFrame_of_error (m := m.bounded limit) hrun')
  | full hover hrun' hwritten =>
    refine .full ?_ (inFrame_of_error (m := m.bounded limit) hrun') ?_
    · rwa [hafter]
    · rwa [hafter]

/-- An action that has nothing to do with the sink. -/
theorem cut_modifyGet {g : Machine → α × Machine}
    (hg : ∀ m sink, g { m with sink } = ((g m).1, { (g m).2 with sink })) :
    Cut limit (modifyGet g : Action α) := by
  intro m hroom
  have hsink : (g m).2.sink = m.sink := by
    have h : g m = ((g m).1, { (g m).2 with sink := m.sink }) := hg m m.sink
    rw [h]
  have hrun : (modifyGet g : Action α) m = .ok (g m).1 (g m).2 := rfl
  have hrun' : (modifyGet g : Action α) (m.bounded limit) = .ok (g m).1 ((g m).2.bounded limit) := by
    have h : g (m.bounded limit) = ((g m).1, (g m).2.bounded limit) := by
      rw [Machine.bounded, hg, Machine.bounded, hsink]
    exact congrArg (fun r : α × Machine => EStateM.Result.ok r.1 r.2) h
  refine ⟨?_, fun hfits => .ok hrun (by rwa [hsink]) hrun'⟩
  rw [after_of_ok hrun]
  exact ⟨by rwa [hsink], .empty, by rw [hsink, ByteArray.append_empty]⟩

/-- To print leaves what was taken, and halts unless this is all. -/
theorem print_apply (line : String) (m : Machine) {sink : Sink} {taken : Bool}
    (h : m.sink.write (line ++ "\n").toUTF8 = (sink, taken)) :
    print line m = if taken then .ok () { m with sink } else .error (.sink .full) { m with sink } := by
  have hrun : (modifyGet fun m : Machine =>
      ((m.sink.write (line ++ "\n").toUTF8).2,
        { m with sink := (m.sink.write (line ++ "\n").toUTF8).1 }) : Action Bool) m =
      .ok taken { m with sink } := by
    rw [modifyGet_apply, h]
  rw [print, bind_of_ok hrun]
  cases taken <;> rfl

theorem cut_print (line : String) : (print line).Cut limit := by
  intro m hroom
  have hrun := print_apply line m (Sink.write_of_unbounded hroom _)
  have hprints : m.Prints { m with
      sink := { m.sink with written := m.sink.written ++ (line ++ "\n").toUTF8 } } :=
    ⟨hroom, _, rfl⟩
  rw [if_pos rfl] at hrun
  refine ⟨after_of_ok hrun ▸ hprints, fun hfits => ?_⟩
  have hroom' : (m.bounded limit).sink.room = some (limit - m.sink.written.size) := rfl
  by_cases hline : (line ++ "\n").toUTF8.size ≤ limit - m.sink.written.size
  · have hrun' := print_apply line (m.bounded limit) (Sink.write_of_fits hroom' hline)
    rw [if_pos rfl] at hrun'
    refine .ok hrun ?_ (hrun'.trans ?_)
    · rw [ByteArray.size_append]
      omega
    · rw [Machine.bounded, Machine.bounded, ByteArray.size_append, Nat.sub_sub]
  · have hrun' :=
      print_apply line (m.bounded limit) (Sink.write_of_overflow hroom' (Nat.lt_of_not_le hline))
    rw [if_neg Bool.false_ne_true] at hrun'
    refine .full ?_ hrun' ?_
    · rw [after_of_ok hrun, ByteArray.size_append]
      omega
    · rw [after_of_ok hrun, ByteArray.extract_append, extract_of_size_le hfits,
        Nat.zero_sub]
      rfl

theorem closed_cut (limit : Nat) : Closed (Cut limit) where
  pure := .pure
  throw := cut_throw
  bind := .bind
  get_bind := .get_bind
  inFrame := .inFrame
  newFrame _ _ := cut_modifyGet fun _ _ => rfl
  newIdentity := cut_modifyGet fun _ _ => rfl
  newInstance _ := cut_modifyGet fun _ _ => rfl
  define _ _ := cut_modifyGet fun _ _ => rfl
  defineIn _ _ _ := cut_modifyGet fun _ _ => rfl
  setProperty _ _ _ := cut_modifyGet fun _ _ => rfl
  nextTurn := cut_modifyGet fun _ _ => rfl
  print := cut_print

theorem cut_flush : flush.Cut limit := by
  intro m hroom
  have hrun (m : Machine) : flush m =
      if m.sink.flushFails then .error (.sink .flushFailed) m else .ok () m := by
    rw [flush, bind_of_ok get_apply]
    cases m.sink.flushFails <;> rfl
  have hrun' : flush (m.bounded limit) = if m.sink.flushFails
      then .error (.sink .flushFailed) (m.bounded limit) else .ok () (m.bounded limit) := hrun _
  have hbefore := hrun m
  split at hbefore
  · next hfails =>
    rw [if_pos hfails] at hrun'
    exact ⟨(after_of_error hbefore).symm ▸ .refl hroom, fun hfits => .error hbefore hfits hrun'⟩
  · next hfails =>
    rw [if_neg hfails] at hrun'
    exact ⟨(after_of_ok hbefore).symm ▸ .refl hroom, fun hfits => .ok hbefore hfits hrun'⟩

end Action

open Treewalk.Action

theorem cut_interpret (limit : Nat) (host : Host) (depth : Nat) (p : Program) :
    (interpret host depth p).Cut limit :=
  ((closed_cut limit).executeProgram host depth p).bind fun _ => cut_flush

/-! ### Moments -/

namespace Action

variable {α : Type} {x : Action α} {m m' m₁ : Machine} {limit : Nat} {a : α}

/-- What fits is done with the bound as well. -/
theorem Cut.bounded_ok (h : x.Cut limit) (hroom : m.sink.room = none) (hrun : x m = .ok a m')
    (hfits : m'.sink.written.size ≤ limit) :
    x (m.bounded limit) = .ok a (m'.bounded limit) := by
  obtain ⟨hprints, hcut⟩ := h m hroom
  rw [after_of_ok hrun] at hprints
  cases hcut (Nat.le_trans hprints.size_le hfits) with
  | ok hok _ hbounded =>
    rw [hrun] at hok
    cases hok
    exact hbounded
  | error herror => rw [hrun] at herror; cases herror
  | full hover =>
    rw [after_of_ok hrun] at hover
    exact absurd hfits (Nat.not_le_of_lt hover)

/-- What is done with the bound is done without it, and fits. -/
theorem Cut.of_bounded_ok (h : x.Cut limit) (hroom : m.sink.room = none)
    (hfits : m.sink.written.size ≤ limit) (hrun : x (m.bounded limit) = .ok a m₁) :
    ∃ m', x m = .ok a m' ∧ m.Prints m' ∧ m'.sink.written.size ≤ limit ∧ m₁ = m'.bounded limit := by
  obtain ⟨hprints, hcut⟩ := h m hroom
  cases hcut hfits with
  | ok hok hfits hbounded =>
    rw [hrun] at hbounded
    cases hbounded
    exact ⟨_, hok, after_of_ok hok ▸ hprints, hfits, rfl⟩
  | error _ _ hbounded => rw [hrun] at hbounded; cases hbounded
  | full _ hbounded => rw [hrun] at hbounded; cases hbounded

end Action

namespace Task

variable {host : Host} {n limit : Nat} {t t' : Task} {m m' m₁ : Machine}

/-- What a task begins with has printed no less than the task. -/
theorem Starts.prints (h : Starts host n t m t' m') (hroom : m.sink.room = none) : m.Prints m' := by
  have heval := (closed_cut 0).evaluates host n
  cases h with
  | right hrun | decided hrun _ | write hrun | arguments hrun | property hrun _ _ | change hrun
  | otherArguments hrun | whenTrue hrun _ | whenFalse hrun _ | loopBody hrun _ =>
    exact (heval.expression _).prints_of_ok hroom hrun
  | call hrun hrun' =>
    have hprints := (heval.expression _).prints_of_ok hroom hrun
    exact hprints.trans ((heval.expressions _).prints_of_ok hprints.room hrun')
  | bind _ hnew _ => exact ((closed_cut 0).newInstance _).prints_of_ok hroom hnew
  | initializer _ hnew _ hbind =>
    have hprints := ((closed_cut 0).newInstance _).prints_of_ok hroom hnew
    exact hprints.trans (((closed_cut 0).bindMethod _ _).prints_of_ok hprints.room hbind)
  | body hnew | block hnew =>
    have hprints := ((closed_cut 0).newFrame _ _).prints_of_ok hroom hnew
    exact ⟨hprints.room, hprints.printed⟩
  | rest hrun => exact (heval.statement _).prints_of_ok hroom hrun
  | again hrun _ hrun' =>
    have hprints := (heval.expression _).prints_of_ok hroom hrun
    exact hprints.trans ((heval.statement _).prints_of_ok hprints.room hrun')
  | _ => exact .refl hroom

/-- What is begun before the bound is passed is begun with the bound as well. -/
theorem Starts.bounded (h : Starts host n t m t' m') (hroom : m.sink.room = none)
    (hfits : m'.sink.written.size ≤ limit) :
    Starts host n t (m.bounded limit) t' (m'.bounded limit) := by
  have hcut := closed_cut limit
  have heval := hcut.evaluates host n
  cases h with
  | grouping => exact .grouping
  | operand => exact .operand
  | left => exact .left
  | right hrun => exact .right ((heval.expression _).bounded_ok hroom hrun hfits)
  | decider => exact .decider
  | decided hrun hdecides =>
    exact .decided ((heval.expression _).bounded_ok hroom hrun hfits) hdecides
  | assigned => exact .assigned
  | write hrun => exact .write ((heval.expression _).bounded_ok hroom hrun hfits)
  | callee => exact .callee
  | arguments hrun => exact .arguments ((heval.expression _).bounded_ok hroom hrun hfits)
  | call hrun hrun' =>
    have hprints := (heval.expression _).prints_of_ok hroom hrun
    have hprints' := (heval.expressions _).prints_of_ok hprints.room hrun'
    exact .call ((heval.expression _).bounded_ok hroom hrun (Nat.le_trans hprints'.size_le hfits))
      ((heval.expressions _).bounded_ok hprints.room hrun' hfits)
  | object => exact .object
  | property hrun hfield hmethod =>
    exact .property ((heval.expression _).bounded_ok hroom hrun hfits) hfield hmethod
  | changed => exact .changed
  | change hrun => exact .change ((heval.expression _).bounded_ok hroom hrun hfits)
  | parentMethod hd hparent hthis hmethod => exact .parentMethod hd hparent hthis hmethod
  | firstArgument => exact .firstArgument
  | otherArguments hrun => exact .otherArguments ((heval.expression _).bounded_ok hroom hrun hfits)
  | invoke hcount => exact .invoke hcount
  | bind hcount hnew hmethod =>
    exact .bind hcount ((hcut.newInstance _).bounded_ok hroom hnew hfits) hmethod
  | initializer hcount hnew hmethod hbind =>
    have hprints := (hcut.newInstance _).prints_of_ok hroom hnew
    have hprints' := (hcut.bindMethod _ _).prints_of_ok hprints.room hbind
    exact .initializer hcount
      ((hcut.newInstance _).bounded_ok hroom hnew (Nat.le_trans hprints'.size_le hfits)) hmethod
      ((hcut.bindMethod _ _).bounded_ok hprints.room hbind hfits)
  | body hnew => exact .body ((hcut.newFrame _ _).bounded_ok hroom hnew hfits)
  | value => exact .value
  | printed => exact .printed
  | initial => exact .initial
  | block hnew => exact .block ((hcut.newFrame _ _).bounded_ok hroom hnew hfits)
  | condition => exact .condition
  | whenTrue hrun htruth =>
    exact .whenTrue ((heval.expression _).bounded_ok hroom hrun hfits) htruth
  | whenFalse hrun htruth =>
    exact .whenFalse ((heval.expression _).bounded_ok hroom hrun hfits) htruth
  | loop => exact .loop
  | givenBack => exact .givenBack
  | heritage => exact .heritage
  | first => exact .first
  | rest hrun => exact .rest ((heval.statement _).bounded_ok hroom hrun hfits)
  | loopCondition => exact .loopCondition
  | loopBody hrun htruth =>
    exact .loopBody ((heval.expression _).bounded_ok hroom hrun hfits) htruth
  | again hrun htruth hrun' =>
    have hprints := (heval.expression _).prints_of_ok hroom hrun
    have hprints' := (heval.statement _).prints_of_ok hprints.room hrun'
    exact .again ((heval.expression _).bounded_ok hroom hrun (Nat.le_trans hprints'.size_le hfits)) htruth
      ((heval.statement _).bounded_ok hprints.room hrun' hfits)

/-- What is begun with the bound is begun without it, before the bound is passed. -/
theorem Starts.of_bounded (h : Starts host n t (m.bounded limit) t' m₁) (hroom : m.sink.room = none)
    (hfits : m.sink.written.size ≤ limit) :
    ∃ m', Starts host n t m t' m' ∧ m'.sink.written.size ≤ limit ∧ m₁ = m'.bounded limit := by
  have hcut := closed_cut limit
  have heval := hcut.evaluates host n
  cases h with
  | grouping => exact ⟨m, .grouping, hfits, rfl⟩
  | operand => exact ⟨m, .operand, hfits, rfl⟩
  | left => exact ⟨m, .left, hfits, rfl⟩
  | right hrun =>
    obtain ⟨m', hwhole, -, hfits, rfl⟩ := (heval.expression _).of_bounded_ok hroom hfits hrun
    exact ⟨m', .right hwhole, hfits, rfl⟩
  | decider => exact ⟨m, .decider, hfits, rfl⟩
  | decided hrun hdecides =>
    obtain ⟨m', hwhole, -, hfits, rfl⟩ := (heval.expression _).of_bounded_ok hroom hfits hrun
    exact ⟨m', .decided hwhole hdecides, hfits, rfl⟩
  | assigned => exact ⟨m, .assigned, hfits, rfl⟩
  | write hrun =>
    obtain ⟨m', hwhole, -, hfits, rfl⟩ := (heval.expression _).of_bounded_ok hroom hfits hrun
    exact ⟨m', .write hwhole, hfits, rfl⟩
  | callee => exact ⟨m, .callee, hfits, rfl⟩
  | arguments hrun =>
    obtain ⟨m', hwhole, -, hfits, rfl⟩ := (heval.expression _).of_bounded_ok hroom hfits hrun
    exact ⟨m', .arguments hwhole, hfits, rfl⟩
  | call hrun hrun' =>
    obtain ⟨m', hwhole, hprints, hfits, rfl⟩ := (heval.expression _).of_bounded_ok hroom hfits hrun
    obtain ⟨m'', hwhole', -, hfits, rfl⟩ :=
      (heval.expressions _).of_bounded_ok hprints.room hfits hrun'
    exact ⟨m'', .call hwhole hwhole', hfits, rfl⟩
  | object => exact ⟨m, .object, hfits, rfl⟩
  | property hrun hfield hmethod =>
    obtain ⟨m', hwhole, -, hfits, rfl⟩ := (heval.expression _).of_bounded_ok hroom hfits hrun
    exact ⟨m', .property hwhole hfield hmethod, hfits, rfl⟩
  | changed => exact ⟨m, .changed, hfits, rfl⟩
  | change hrun =>
    obtain ⟨m', hwhole, -, hfits, rfl⟩ := (heval.expression _).of_bounded_ok hroom hfits hrun
    exact ⟨m', .change hwhole, hfits, rfl⟩
  | parentMethod hd hparent hthis hmethod =>
    exact ⟨m, .parentMethod hd hparent hthis hmethod, hfits, rfl⟩
  | firstArgument => exact ⟨m, .firstArgument, hfits, rfl⟩
  | otherArguments hrun =>
    obtain ⟨m', hwhole, -, hfits, rfl⟩ := (heval.expression _).of_bounded_ok hroom hfits hrun
    exact ⟨m', .otherArguments hwhole, hfits, rfl⟩
  | invoke hcount => exact ⟨m, .invoke hcount, hfits, rfl⟩
  | bind hcount hnew hmethod =>
    obtain ⟨m', hwhole, -, hfits, rfl⟩ := (hcut.newInstance _).of_bounded_ok hroom hfits hnew
    exact ⟨m', .bind hcount hwhole hmethod, hfits, rfl⟩
  | initializer hcount hnew hmethod hbind =>
    obtain ⟨m', hwhole, hprints, hfits, rfl⟩ := (hcut.newInstance _).of_bounded_ok hroom hfits hnew
    obtain ⟨m'', hwhole', -, hfits, rfl⟩ :=
      (hcut.bindMethod _ _).of_bounded_ok hprints.room hfits hbind
    exact ⟨m'', .initializer hcount hwhole hmethod hwhole', hfits, rfl⟩
  | body hnew =>
    obtain ⟨m', hwhole, -, hfits, rfl⟩ := (hcut.newFrame _ _).of_bounded_ok hroom hfits hnew
    exact ⟨_, .body hwhole, hfits, rfl⟩
  | value => exact ⟨m, .value, hfits, rfl⟩
  | printed => exact ⟨m, .printed, hfits, rfl⟩
  | initial => exact ⟨m, .initial, hfits, rfl⟩
  | block hnew =>
    obtain ⟨m', hwhole, -, hfits, rfl⟩ := (hcut.newFrame _ _).of_bounded_ok hroom hfits hnew
    exact ⟨_, .block hwhole, hfits, rfl⟩
  | condition => exact ⟨m, .condition, hfits, rfl⟩
  | whenTrue hrun htruth =>
    obtain ⟨m', hwhole, -, hfits, rfl⟩ := (heval.expression _).of_bounded_ok hroom hfits hrun
    exact ⟨m', .whenTrue hwhole htruth, hfits, rfl⟩
  | whenFalse hrun htruth =>
    obtain ⟨m', hwhole, -, hfits, rfl⟩ := (heval.expression _).of_bounded_ok hroom hfits hrun
    exact ⟨m', .whenFalse hwhole htruth, hfits, rfl⟩
  | loop => exact ⟨m, .loop, hfits, rfl⟩
  | givenBack => exact ⟨m, .givenBack, hfits, rfl⟩
  | heritage => exact ⟨m, .heritage, hfits, rfl⟩
  | first => exact ⟨m, .first, hfits, rfl⟩
  | rest hrun =>
    obtain ⟨m', hwhole, -, hfits, rfl⟩ := (heval.statement _).of_bounded_ok hroom hfits hrun
    exact ⟨m', .rest hwhole, hfits, rfl⟩
  | loopCondition => exact ⟨m, .loopCondition, hfits, rfl⟩
  | loopBody hrun htruth =>
    obtain ⟨m', hwhole, -, hfits, rfl⟩ := (heval.expression _).of_bounded_ok hroom hfits hrun
    exact ⟨m', .loopBody hwhole htruth, hfits, rfl⟩
  | again hrun htruth hrun' =>
    obtain ⟨m', hwhole, hprints, hfits, rfl⟩ := (heval.expression _).of_bounded_ok hroom hfits hrun
    obtain ⟨m'', hwhole', -, hfits, rfl⟩ :=
      (heval.statement _).of_bounded_ok hprints.room hfits hrun'
    exact ⟨m'', .again hwhole htruth hwhole', hfits, rfl⟩

theorem Within.prints (h : Within host n t m t' m') (hroom : m.sink.room = none) : m.Prints m' := by
  induction h with
  | self => exact .refl hroom
  | step hstart _ ih =>
    have hprints := hstart.prints hroom
    exact hprints.trans (ih hprints.room)

/-- The moments within a task with the bound are those without it before the bound is passed. -/
theorem within_bounded_iff (hroom : m.sink.room = none) (hfits : m.sink.written.size ≤ limit) :
    Within host n t (m.bounded limit) t' m₁ ↔
      ∃ m', Within host n t m t' m' ∧ m'.sink.written.size ≤ limit ∧ m₁ = m'.bounded limit := by
  constructor
  · intro h
    generalize hm : m.bounded limit = m₀ at h
    induction h generalizing m with
    | self => exact ⟨m, .self, hfits, hm.symm⟩
    | step hstart _ ih =>
      subst hm
      obtain ⟨m', hwhole, hfits', rfl⟩ := hstart.of_bounded hroom hfits
      obtain ⟨m'', hwithin, hfits'', rfl⟩ := ih (hwhole.prints hroom).room hfits' rfl
      exact ⟨m'', .step hwhole hwithin, hfits'', rfl⟩
  · rintro ⟨m', h, hfits', rfl⟩
    induction h with
    | self => exact .self
    | step hstart hwithin ih =>
      have hprints := hstart.prints hroom
      have hfits₁ := Nat.le_trans (hwithin.prints hprints.room).size_le hfits'
      exact .step (hstart.bounded hroom hfits₁) (ih hprints.room hfits₁ hfits')

end Task

end Treewalk
