import Treewalk.Proofs.Grammar.Counting
import Treewalk.Proofs.Twins.Likeness

/-! Reading like tokens. The parser looks at the classes of tokens and at the constants they spell,
and at nothing else: from tokens with the same text, whatever their lines and whatever numbers are
free, it makes like trees, or finds the same faults at the same places. -/

namespace Treewalk

/-- The same static fault, at tokens of which the second stands for the first one. -/
inductive Diagnostic.Like (r : Token → Token → Prop) : Diagnostic → Diagnostic → Prop
  | lex {line fault} : Like r (.lex line fault) (.lex line fault)
  | parse {t t' fault} : r t t' → Like r (.parse t fault) (.parse t' fault)
  | resolve {t t' fault} : r t t' → Like r (.resolve t fault) (.resolve t' fault)

/-- The same reason for yielding nothing. -/
inductive Unparsed.Like (r : Token → Token → Prop) : Unparsed → Unparsed → Prop
  | fault {found found'} : found.Like r found' → Like r (.fault found) (.fault found')
  | exhausted : Like r .exhausted .exhausted

/-- Occurrences that are numbered from `i` on and those numbered from `i'` on stand for each
other. -/
def Disguise.Counts (G : Disguise) (i i' : NodeId) : Prop :=
  ∀ n, ∃ d, G.place (i + n) (i' + n) d

/-- Two cursors before like tokens. -/
structure Cursor.Alike (G : Disguise) (c c' : Cursor) : Prop where
  ahead : List.Forall₂ G.token c.ahead c'.ahead
  finish : G.token c.finish c'.finish
  counts : G.Counts c.nextId c'.nextId
  faults : List.Forall₂ (Diagnostic.Like G.token) c.faults c'.faults

section
variable {G : Disguise}

theorem Disguise.Counts.succ {i i' : NodeId} (h : G.Counts i i') : G.Counts (i + 1) (i' + 1) := by
  intro n
  rw [Nat.add_right_comm, Nat.add_right_comm i']
  exact h (n + 1)

theorem Disguise.Counts.refers {i i' : NodeId} {t t' : Token} (h : G.Counts i i')
    (ht : G.token t t') : G.Refers none ⟨i, t⟩ ⟨i', t'⟩ := by
  obtain ⟨d, hd⟩ := h 0
  exact ⟨d, hd, Disguise.named_false.mpr ht⟩

theorem Disguise.literal?_eq {t t' : Token} (h : G.token t t') : t'.literal? = t.literal? := by
  rw [Token.literal?, G.kind_eq h, Token.literal?]

/-- A level puts like operands together to like trees. -/
theorem Level.like_node {level : Level} (hlevel : level ∈ Level.all) {k : Option Nat}
    {left left' right right' : Expr} {op op' : Token} (hleft : left.Like G k left')
    (hop : G.token op op') (hright : right.Like G k right') :
    (level.node left op right).Like G k (level.node left' op' right') := by
  simp only [Level.all, List.mem_cons, List.not_mem_nil, or_false] at hlevel
  obtain rfl | rfl | rfl | rfl | rfl | rfl := hlevel
  · exact .logical hleft hop hright
  · exact .logical hleft hop hright
  all_goals exact .binary hleft hop hright

/-- Loops with like clauses are alike. -/
theorem Stmt.Like.counting {initial initial' : Option Stmt} {condition condition' : Option Expr}
    {step step' : Option Expr} {body body' : Stmt}
    (hinitial : Option.Rel (Stmt.Like G none) initial initial')
    (hcondition : Option.Rel (Expr.Like G none) condition condition')
    (hstep : Option.Rel (Expr.Like G none) step step') (hbody : body.Like G none body') :
    (Stmt.counting initial condition step body).Like G none
      (Stmt.counting initial' condition' step' body') := by
  have hloop {body body' : Stmt} (hbody : body.Like G none body') :
      (Stmt.block (initial.toList ++ [.loop (condition.getD (.literal (.bool true))) body])).Like G
        none
        (.block (initial'.toList ++ [.loop (condition'.getD (.literal (.bool true))) body'])) := by
    refine .block .none (Stmt.AllLike.append ?_ (.cons ?_ .nil))
    · cases hinitial with
      | none => exact .nil
      | some hs => exact .cons hs .nil
    · cases hcondition with
      | none => exact .loop .literal hbody
      | some he => exact .loop he hbody
  cases hstep with
  | none => exact hloop hbody
  | some he => exact hloop (.block .none (.cons hbody (.cons (.expression he) .nil)))

/-- Statements go on alike behind one that was read or given up. -/
theorem Stmt.AllLike.consOption {s s' : Option Stmt} {ss ss' : List Stmt}
    (hs : Option.Rel (Stmt.Like G none) s s') (hss : Stmt.AllLike G none ss ss') :
    Stmt.AllLike G none (s.toList ++ ss) (s'.toList ++ ss') := by
  cases hs with
  | none => exact hss
  | some hs => exact .cons hs hss

theorem Disguise.startsStatement_eq {t t' : Token} (h : G.token t t') :
    startsStatement t' = startsStatement t := by
  rw [startsStatement, G.kind_eq h, startsStatement]

end

namespace Rule

variable {G : Disguise} {α β : Type} {x x' : Rule α} {f f' : α → Rule β} {P Q : α → α → Prop}
  {R : β → β → Prop}

/-- Before like tokens the two rules do the same: both yield, `Q` relating what they yield, or both
fail for the same reason. Like tokens are left. -/
def Alike (G : Disguise) (x x' : Rule α) (Q : α → α → Prop) : Prop :=
  ∀ c c', c.Alike G c' →
    match x c, x' c' with
    | .ok a c₁, .ok a' c₁' => c₁.Alike G c₁' ∧ Q a a'
    | .error reason c₁, .error reason' c₁' => c₁.Alike G c₁' ∧ reason.Like G.token reason'
    | _, _ => False

theorem Alike.mono (h : Alike G x x' P) (hPQ : ∀ a a', P a a' → Q a a') : Alike G x x' Q := by
  intro c c' hc
  have hrun := h c c' hc
  split at hrun
  · exact ⟨hrun.1, hPQ _ _ hrun.2⟩
  · exact hrun
  · exact hrun

theorem Alike.pure {a a' : α} (h : Q a a') : Alike G (pure a) (pure a') Q :=
  fun _ _ hc => ⟨hc, h⟩

theorem alike_throw {reason reason' : Unparsed} (h : reason.Like G.token reason') :
    Alike G (throw reason : Rule α) (throw reason') Q :=
  fun _ _ hc => ⟨hc, h⟩

theorem alike_get : Alike G (get : Rule Cursor) get (Cursor.Alike G) := fun _ _ hc => ⟨hc, hc⟩

theorem Alike.bind (hx : Alike G x x' P) (hf : ∀ a a', P a a' → Alike G (f a) (f' a') R) :
    Alike G (x >>= f) (x' >>= f') R := by
  intro c c' hc
  have hrun := hx c c' hc
  cases hok : x c with
  | ok a c₁ =>
    cases hok' : x' c' with
    | ok a' c₁' =>
      rw [hok, hok'] at hrun
      rw [bind_of_ok hok, bind_of_ok hok']
      exact hf a a' hrun.2 c₁ c₁' hrun.1
    | error reason' c₁' => rw [hok, hok'] at hrun; exact hrun.elim
  | error reason c₁ =>
    cases hok' : x' c' with
    | ok a' c₁' => rw [hok, hok'] at hrun; exact hrun.elim
    | error reason' c₁' =>
      rw [hok, hok'] at hrun
      rw [bind_of_error hok, bind_of_error hok']
      exact hrun

/-- A change of the cursor that keeps it before like tokens. -/
theorem alike_modify {g g' : Cursor → Cursor} (h : ∀ c c', c.Alike G c' → (g c).Alike G (g' c')) :
    Alike G (modify g) (modify g') fun _ _ => True :=
  fun _ _ hc => ⟨h _ _ hc, trivial⟩

theorem alike_peek : Alike G peek peek G.token := by
  refine alike_get.bind fun c c' hc => .pure ?_
  have hahead := hc.ahead
  generalize c.ahead = ts, c'.ahead = ts' at hahead ⊢
  cases hahead with
  | nil => exact hc.finish
  | cons ht _ => exact ht

theorem alike_atEnd : Alike G atEnd atEnd Eq := by
  refine alike_get.bind fun c c' hc => .pure ?_
  have hahead := hc.ahead
  generalize c.ahead = ts, c'.ahead = ts' at hahead ⊢
  cases hahead <;> rfl

theorem alike_check (t : Terminal) : Alike G (check t) (check t) Eq := by
  refine alike_get.bind fun c c' hc => ?_
  have hahead := hc.ahead
  generalize c.ahead = ts, c'.ahead = ts' at hahead ⊢
  cases hahead with
  | nil => exact .pure rfl
  | cons hnext _ => exact .pure (by rw [G.terminal_eq hnext])

theorem alike_skip : Alike G skip skip fun _ _ => True := by
  refine alike_modify fun c c' hc => ⟨?_, hc.finish, hc.counts, hc.faults⟩
  have hahead := hc.ahead
  generalize c.ahead = ts, c'.ahead = ts' at hahead ⊢
  cases hahead with
  | nil => exact .nil
  | cons _ hrest => exact hrest

theorem alike_acceptAny (ts : List Terminal) :
    Alike G (acceptAny ts) (acceptAny ts) (Option.Rel G.token) := by
  refine alike_get.bind fun c c' hc => ?_
  have hahead := hc.ahead
  generalize c.ahead = us, c'.ahead = us' at hahead ⊢
  cases hahead with
  | nil => exact .pure .none
  | @cons next next' rest rest' hnext hrest =>
    have hskip : Alike G (modify fun c : Cursor => { c with ahead := rest })
        (modify fun c : Cursor => { c with ahead := rest' }) fun _ _ => True :=
      alike_modify fun c c' hc => ⟨hrest, hc.finish, hc.counts, hc.faults⟩
    dsimp only
    rw [G.terminal_eq hnext]
    split
    · exact hskip.bind fun _ _ _ => .pure (.some hnext)
    · exact .pure .none

theorem alike_accept (t : Terminal) : Alike G (accept t) (accept t) (Option.Rel G.token) :=
  alike_acceptAny [t]

/-- A token is taken by both rules or by neither. -/
theorem alike_accepted (t : Terminal) :
    Alike G (do return (← accept t).isSome) (do return (← accept t).isSome) Eq := by
  refine (alike_accept t).bind fun found found' hfound => .pure ?_
  cases hfound <;> rfl

theorem alike_acceptPunct (p : Punct) : Alike G (acceptPunct p) (acceptPunct p) Eq :=
  alike_accepted _

/-- After a token that is taken or not, two rules go on alike. -/
theorem Alike.ifAccepted {t : Terminal} {y y' z z' : Rule β} (hy : Alike G y y' R)
    (hz : Alike G z z' R) :
    Alike G (do if (← accept t).isSome then y else z) (do if (← accept t).isSome then y' else z')
      R := by
  refine (alike_accept t).bind fun found found' hfound => ?_
  cases hfound with
  | none => exact hz
  | some => exact hy

theorem Alike.ifPunct {p : Punct} {y y' z z' : Rule β} (hy : Alike G y y' R)
    (hz : Alike G z z' R) :
    Alike G (do if ← acceptPunct p then y else z) (do if ← acceptPunct p then y' else z') R := by
  refine (alike_acceptPunct p).bind fun here _ heq => ?_
  subst heq
  cases here
  · exact hz
  · exact hy

theorem alike_fail (fault : ParseFault) : Alike G (fail fault : Rule α) (fail fault) Q :=
  alike_peek.bind fun _ _ ht => alike_throw (.fault (.parse ht))

theorem alike_expect (t : Terminal) (fault : ParseFault) :
    Alike G (expect t fault) (expect t fault) G.token := by
  refine (alike_accept t).bind fun found found' hfound => ?_
  cases hfound with
  | none => exact alike_fail fault
  | some ht => exact .pure ht

theorem alike_expectPunct (p : Punct) (fault : ParseFault) :
    Alike G (expectPunct p fault) (expectPunct p fault) G.token :=
  alike_expect _ _

theorem alike_record {t t' : Token} (ht : G.token t t') (fault : ParseFault) :
    Alike G (record t fault) (record t' fault) fun _ _ => True :=
  alike_modify fun _ _ hc =>
    ⟨hc.ahead, hc.finish, hc.counts, List.rel_append hc.faults (.cons (.parse ht) .nil)⟩

/-- An occurrence is numbered. -/
theorem alike_number {t t' : Token} (ht : G.token t t') :
    Alike G (number t) (number t') (G.Refers none) :=
  fun _ _ hc => ⟨⟨hc.ahead, hc.finish, hc.counts.succ, hc.faults⟩, hc.counts.refers ht⟩

theorem Alike.whenNot (t : Terminal) (h : Alike G x x' P) :
    Alike G (whenNot t x) (whenNot t x') (Option.Rel P) := by
  refine (alike_check t).bind fun here _ heq => ?_
  subst heq
  cases here with
  | true => exact .pure .none
  | false => exact h.bind fun _ _ ha => .pure (.some ha)

/-- One entry too many is noted in both. -/
theorem Alike.limited {count : Nat} {fault : ParseFault} (h : Alike G x x' Q) :
    Alike G
      (do
        if maxArguments ≤ count then record (← peek) fault
        x)
      (do
        if maxArguments ≤ count then record (← peek) fault
        x') Q := by
  split
  · exact alike_peek.bind fun _ _ ht => (alike_record ht fault).bind fun _ _ _ => h
  · exact h

theorem alike_assignment {target target' value value' : Expr} {equals equals' : Token}
    (htarget : target.Like G none target') (hequals : G.token equals equals')
    (hvalue : value.Like G none value') :
    Alike G (assignment target equals value) (assignment target' equals' value')
      (Expr.Like G none) := by
  have hother {other other' : Expr} (h : other.Like G none other') :
      Alike G (do record equals .assignmentTarget; return other)
        (do record equals' .assignmentTarget; return other') (Expr.Like G none) :=
    (alike_record hequals _).bind fun _ _ _ => .pure h
  cases htarget with
  | get he hname => exact .pure (.set he hname hvalue)
  | literal => exact hother .literal
  | unary hop he => exact hother (.unary hop he)
  | binary hl hop hr => exact hother (.binary hl hop hr)
  | logical hl hop hr => exact hother (.logical hl hop hr)
  | grouping he => exact hother (.grouping he)
  | assign href he => exact hother (.assign href he)
  | call he hparen hes => exact hother (.call he hparen hes)
  | set he hname hv => exact hother (.set he hname hv)
  | this href => exact hother (.this href)
  | parent href hmethod => exact hother (.parent href hmethod)
  | _ =>
    rename_i href
    obtain ⟨_, _, hname⟩ := href
    exact (alike_number (Disguise.named_false.mp hname)).bind fun _ _ href =>
      .pure (.assign href hvalue)

/-- The rules for expressions, within one depth. -/
structure ExpressionsAlike (G : Disguise) (n : Nat) : Prop where
  expression : Alike G (expression n) (expression n) (Expr.Like G none)
  operation : ∀ levels, levels ⊆ Level.all →
    Alike G (operation n levels) (operation n levels) (Expr.Like G none)
  operations : ∀ level tighter left left', level :: tighter ⊆ Level.all → left.Like G none left' →
    Alike G (operations n level tighter left) (operations n level tighter left') (Expr.Like G none)
  unary : Alike G (unary n) (unary n) (Expr.Like G none)
  calls : ∀ callee callee', callee.Like G none callee' →
    Alike G (calls n callee) (calls n callee') (Expr.Like G none)
  arguments : ∀ count, Alike G (arguments n count) (arguments n count) (Expr.AllLike G none)
  primary : Alike G (primary n) (primary n) (Expr.Like G none)

theorem alike_primary {n : Nat} (h : ExpressionsAlike G n) :
    Alike G (primary (n + 1)) (primary (n + 1)) (Expr.Like G none) := by
  rw [primary]
  refine alike_get.bind fun c c' hc => ?_
  have hahead := hc.ahead
  generalize c.ahead = ts, c'.ahead = ts' at hahead ⊢
  cases hahead with
  | nil => exact alike_fail _
  | cons ht _ =>
    dsimp only
    rw [G.literal?_eq ht, G.terminal_eq ht]
    split
    · exact alike_skip.bind fun _ _ _ => .pure .literal
    · split
      · exact alike_skip.bind fun _ _ _ => (alike_number ht).bind fun _ _ href => .pure (.this href)
      · exact alike_skip.bind fun _ _ _ => (alike_expectPunct _ _).bind fun _ _ _ =>
          (alike_expect _ _).bind fun _ _ hmethod => (alike_number ht).bind fun _ _ href =>
          .pure (.parent href hmethod)
      · exact alike_skip.bind fun _ _ _ => (alike_number ht).bind fun _ _ href =>
          .pure (.variable href)
      · exact alike_skip.bind fun _ _ _ => h.expression.bind fun _ _ he =>
          (alike_expectPunct _ _).bind fun _ _ _ => .pure (.grouping he)
      · exact alike_fail _

theorem alike_calls {n : Nat} (h : ExpressionsAlike G n) {callee callee' : Expr}
    (hcallee : callee.Like G none callee') :
    Alike G (calls (n + 1) callee) (calls (n + 1) callee') (Expr.Like G none) := by
  rw [calls, calls]
  refine .ifPunct ?_ (.ifPunct ?_ (.pure hcallee))
  · refine ((h.arguments 0).whenNot _).bind fun args args' hargs =>
      (alike_expectPunct _ _).bind fun _ _ hparen => h.calls _ _ (.call hcallee hparen ?_)
    cases hargs with
    | none => exact .nil
    | some hes => exact hes
  · exact (alike_expect _ _).bind fun _ _ hname => h.calls _ _ (.get hcallee hname)

theorem alike_arguments {n : Nat} (h : ExpressionsAlike G n) (count : Nat) :
    Alike G (arguments (n + 1) count) (arguments (n + 1) count) (Expr.AllLike G none) := by
  rw [arguments]
  refine .limited (h.expression.bind fun _ _ he => .ifPunct ?_ (.pure (.cons he .nil)))
  exact (h.arguments _).bind fun _ _ hes => .pure (.cons he hes)

theorem expressionsAlike (G : Disguise) (n : Nat) : ExpressionsAlike G n := by
  induction n with
  | zero => constructor <;> intros <;> exact alike_throw .exhausted
  | succ n h =>
    refine ⟨?_, fun levels hlevels => ?_, fun level tighter left left' hlevels hleft => ?_, ?_,
      fun _ _ => alike_calls h, alike_arguments h, alike_primary h⟩
    · rw [expression]
      refine (h.operation _ (List.Subset.refl _)).bind fun target target' htarget =>
        (alike_accept _).bind fun found found' hfound => ?_
      cases hfound with
      | none => exact .pure htarget
      | some hequals =>
        exact h.expression.bind fun _ _ hvalue => alike_assignment htarget hequals hvalue
    · cases levels with
      | nil => rw [operation]; exact h.unary
      | cons level tighter =>
        rw [operation]
        exact (h.operation _ (List.subset_of_cons_subset hlevels)).bind fun _ _ hleft =>
          h.operations _ _ _ _ hlevels hleft
    · rw [operations, operations]
      refine (alike_acceptAny _).bind fun found found' hfound => ?_
      cases hfound with
      | none => exact .pure hleft
      | some hop =>
        exact (h.operation _ (List.subset_of_cons_subset hlevels)).bind fun _ _ hright =>
          h.operations _ _ _ _ hlevels
            (Level.like_node (hlevels List.mem_cons_self) hleft hop hright)
    · rw [unary]
      refine (alike_acceptAny _).bind fun found found' hfound => ?_
      cases hfound with
      | none => exact h.primary.bind fun _ _ hcallee => h.calls _ _ hcallee
      | some hop => exact h.unary.bind fun _ _ he => .pure (.unary hop he)

theorem alike_expression (G : Disguise) (n : Nat) :
    Alike G (expression n) (expression n) (Expr.Like G none) :=
  (expressionsAlike G n).expression

theorem alike_initialValue (n : Nat) :
    Alike G (initialValue n) (initialValue n) (Option.Rel (Expr.Like G none)) :=
  .ifPunct ((alike_expression G n).bind fun _ _ he => .pure (.some he)) (.pure .none)

theorem alike_varDeclaration (n : Nat) :
    Alike G (varDeclaration n) (varDeclaration n) (Stmt.Like G none) :=
  (alike_expect _ _).bind fun _ _ hname => (alike_initialValue n).bind fun _ _ he =>
    (alike_expectPunct _ _).bind fun _ _ _ => .pure (.var (Disguise.named_false.mpr hname) he)

theorem alike_expressionStatement (n : Nat) :
    Alike G (expressionStatement n) (expressionStatement n) (Stmt.Like G none) :=
  (alike_expression G n).bind fun _ _ he => (alike_expectPunct _ _).bind fun _ _ _ =>
    .pure (.expression he)

theorem alike_ifStatement (n : Nat) {statement : Rule Stmt}
    (h : Alike G statement statement (Stmt.Like G none)) :
    Alike G (ifStatement n statement) (ifStatement n statement) (Stmt.Like G none) := by
  refine (alike_expectPunct _ _).bind fun _ _ _ => (alike_expression G n).bind fun _ _ he =>
    (alike_expectPunct _ _).bind fun _ _ _ => h.bind fun _ _ hs =>
    (alike_accept _).bind fun found found' hfound => ?_
  cases hfound with
  | none => exact .pure (.branch he hs)
  | some => exact h.bind fun _ _ ho => .pure (.branchElse he hs ho)

theorem alike_whileStatement (n : Nat) {statement : Rule Stmt}
    (h : Alike G statement statement (Stmt.Like G none)) :
    Alike G (whileStatement n statement) (whileStatement n statement) (Stmt.Like G none) :=
  (alike_expectPunct _ _).bind fun _ _ _ => (alike_expression G n).bind fun _ _ he =>
    (alike_expectPunct _ _).bind fun _ _ _ => h.bind fun _ _ hs => .pure (.loop he hs)

theorem alike_forInitial (n : Nat) :
    Alike G (forInitial n) (forInitial n) (Option.Rel (Stmt.Like G none)) :=
  .ifPunct (.pure .none) (.ifAccepted
    ((alike_varDeclaration n).bind fun _ _ hs => .pure (.some hs))
    ((alike_expressionStatement n).bind fun _ _ hs => .pure (.some hs)))

theorem alike_forStatement (n : Nat) {statement : Rule Stmt}
    (h : Alike G statement statement (Stmt.Like G none)) :
    Alike G (forStatement n statement) (forStatement n statement) (Stmt.Like G none) :=
  (alike_expectPunct _ _).bind fun _ _ _ => (alike_forInitial n).bind fun _ _ hinitial =>
    ((alike_expression G n).whenNot _).bind fun _ _ hcondition =>
    (alike_expectPunct _ _).bind fun _ _ _ =>
    ((alike_expression G n).whenNot _).bind fun _ _ hstep =>
    (alike_expectPunct _ _).bind fun _ _ _ => h.bind fun _ _ hbody =>
    .pure (.counting hinitial hcondition hstep hbody)

theorem alike_parameters (n count : Nat) :
    Alike G (parameters n count) (parameters n count) (List.Forall₂ G.token) := by
  induction n generalizing count with
  | zero => exact alike_throw .exhausted
  | succ n ih =>
    rw [parameters]
    refine .limited ((alike_expect _ _).bind fun _ _ hp => .ifPunct ?_ (.pure (.cons hp .nil)))
    exact (ih _).bind fun _ _ hps => .pure (.cons hp hps)

theorem alike_function (n : Nat) (sort : FunctionSort) {body : Rule (List Stmt)}
    (h : Alike G body body (Stmt.AllLike G none)) :
    Alike G (function n sort body) (function n sort body) (FunctionDecl.Like G none) := by
  refine (alike_expect _ _).bind fun _ _ hname => (alike_expectPunct _ _).bind fun _ _ _ =>
    ((alike_parameters n 0).whenNot _).bind fun params params' hparams =>
    (alike_expectPunct _ _).bind fun _ _ _ => (alike_expectPunct _ _).bind fun _ _ _ =>
    h.bind fun _ _ hbody => .pure (.mk .none hname ?_ hbody)
  cases hparams with
  | none => exact .nil
  | some hps => exact hps.imp fun _ _ => Disguise.named_false.mpr

theorem alike_heritage : Alike G heritage heritage (Option.Rel (G.Refers none)) :=
  .ifPunct ((alike_expect _ _).bind fun _ _ ht => (alike_number ht).bind fun _ _ href =>
    .pure (.some href)) (.pure .none)

theorem alike_classDeclaration {methods : Rule (List FunctionDecl)}
    (h : Alike G methods methods (FunctionDecl.AllLike G none)) :
    Alike G (classDeclaration methods) (classDeclaration methods) (Stmt.Like G none) :=
  (alike_expect _ _).bind fun _ _ hname => alike_heritage.bind fun _ _ hparent =>
    (alike_expectPunct _ _).bind fun _ _ _ => h.bind fun _ _ hmethods =>
    (alike_expectPunct _ _).bind fun _ _ _ => .pure (.classDecl nofun hname hparent hmethods)

/-- Recovery stops before like tokens. -/
theorem alike_nextStatement {previous previous' : Token} {ts ts' : List Token}
    (hprevious : G.token previous previous') (hts : List.Forall₂ G.token ts ts') :
    List.Forall₂ G.token (nextStatement previous ts) (nextStatement previous' ts') := by
  induction hts generalizing previous previous' with
  | nil => exact .nil
  | cons ht hrest ih =>
    rw [nextStatement, nextStatement, G.terminal_eq hprevious, G.startsStatement_eq ht]
    split
    · exact .cons ht hrest
    · exact ih ht

theorem Alike.recovering (h : Alike G x x' P) :
    Alike G (recovering x) (recovering x') (Option.Rel P) := by
  intro c c' hc
  have hrun := h c c' hc
  unfold Rule.recovering
  cases hok : x c with
  | ok a c₁ =>
    cases hok' : x' c' with
    | ok a' c₁' =>
      rw [hok, hok'] at hrun
      exact ⟨hrun.1, .some hrun.2⟩
    | error reason' c₁' => rw [hok, hok'] at hrun; exact hrun.elim
  | error reason c₁ =>
    cases hok' : x' c' with
    | ok a' c₁' => rw [hok, hok'] at hrun; exact hrun.elim
    | error reason' c₁' =>
      rw [hok, hok'] at hrun
      obtain ⟨hc₁, hreason⟩ := hrun
      cases hreason with
      | exhausted => exact ⟨hc₁, .exhausted⟩
      | fault hfound =>
        refine ⟨⟨?_, hc₁.finish, hc₁.counts, List.rel_append hc₁.faults (.cons hfound .nil)⟩, .none⟩
        have hahead := hc₁.ahead
        dsimp only
        generalize c₁.ahead = ts, c₁'.ahead = ts' at hahead ⊢
        cases hahead with
        | nil => exact .nil
        | cons ht hrest => exact alike_nextStatement ht hrest

/-- The rules for statements and declarations, within one depth. -/
structure StatementsAlike (G : Disguise) (n : Nat) : Prop where
  declaration : Alike G (declaration n) (declaration n) (Option.Rel (Stmt.Like G none))
  statement : Alike G (statement n) (statement n) (Stmt.Like G none)
  block : Alike G (block n) (block n) (Stmt.AllLike G none)
  methods : Alike G (methods n) (methods n) (FunctionDecl.AllLike G none)

theorem alike_statement {n : Nat} (h : StatementsAlike G n) :
    Alike G (statement (n + 1)) (statement (n + 1)) (Stmt.Like G none) := by
  rw [statement]
  refine .ifAccepted (alike_forStatement n h.statement) (.ifAccepted
    (alike_ifStatement n h.statement) (.ifAccepted (alike_whileStatement n h.statement) ?_))
  refine (alike_accept _).bind fun found found' hfound => ?_
  cases hfound with
  | some hword =>
    exact ((alike_expression G n).whenNot _).bind fun _ _ he =>
      (alike_expectPunct _ _).bind fun _ _ _ => .pure (.giveBack hword he)
  | none =>
    refine .ifPunct (h.block.bind fun _ _ hss => .pure (.block .none hss)) (.ifAccepted ?_
      (alike_expressionStatement n))
    exact (alike_expression G n).bind fun _ _ he => (alike_expectPunct _ _).bind fun _ _ _ =>
      .pure (.print he)

theorem statementsAlike (G : Disguise) (n : Nat) : StatementsAlike G n := by
  induction n with
  | zero => constructor <;> exact alike_throw .exhausted
  | succ n h =>
    refine ⟨?_, alike_statement h, ?_, ?_⟩
    · rw [declaration]
      refine .recovering (.ifAccepted (alike_classDeclaration h.methods) (.ifAccepted ?_
        (.ifAccepted (alike_varDeclaration n) h.statement)))
      exact (alike_function n _ h.block).bind fun _ _ hdecl => .pure (.function (by simp) hdecl)
    · rw [block]
      refine alike_atEnd.bind fun _ _ hend => (alike_check _).bind fun _ _ hhere => ?_
      subst hend hhere
      split
      · exact (alike_expectPunct _ _).bind fun _ _ _ => .pure .nil
      · exact h.declaration.bind fun _ _ hs => h.block.bind fun _ _ hss => .pure (.consOption hs hss)
    · rw [methods]
      refine alike_atEnd.bind fun _ _ hend => (alike_check _).bind fun _ _ hhere => ?_
      subst hend hhere
      split
      · exact .pure .nil
      · exact (alike_function n _ h.block).bind fun _ _ hdecl => h.methods.bind fun _ _ hdecls =>
          .pure (.cons hdecl hdecls)

theorem alike_program (G : Disguise) (n : Nat) :
    Alike G (program n) (program n) (Stmt.AllLike G none) := by
  induction n with
  | zero => exact alike_throw .exhausted
  | succ n ih =>
    rw [program]
    refine alike_atEnd.bind fun done _ heq => ?_
    subst heq
    cases done with
    | true => exact .pure .nil
    | false =>
      exact (statementsAlike G n).declaration.bind fun _ _ hs => ih.bind fun _ _ hss =>
        .pure (.consOption hs hss)

end Rule

/-- What two parses have in common. -/
structure Parse.Alike (G : Disguise) (p p' : Parse) : Prop where
  program : Stmt.AllLike G none p.program p'.program
  faults : List.Forall₂ (Diagnostic.Like G.token) p.faults p'.faults
  counts : G.Counts p.nextId p'.nextId

/-- Like tokens are parsed alike, whatever the numbers given out before. -/
theorem parse_alike {G : Disguise} {tokens tokens' : List Token} {finish finish' : Token}
    {i i' : NodeId} (htokens : List.Forall₂ G.token tokens tokens')
    (hfinish : G.token finish finish') (hcounts : G.Counts i i') :
    (parse tokens finish i).Alike G (parse tokens' finish' i') := by
  have hrun := Rule.alike_program G (parsingDepth tokens.length) ⟨tokens, finish, i, []⟩
    ⟨tokens', finish', i', []⟩ ⟨htokens, hfinish, hcounts, .nil⟩
  unfold parse
  rw [← htokens.length_eq]
  cases hok : Rule.program (parsingDepth tokens.length) ⟨tokens, finish, i, []⟩ with
  | ok program c =>
    cases hok' : Rule.program (parsingDepth tokens.length) ⟨tokens', finish', i', []⟩ with
    | ok program' c' =>
      rw [hok, hok'] at hrun
      exact ⟨hrun.2, hrun.1.faults, hrun.1.counts⟩
    | error reason' c' => rw [hok, hok'] at hrun; exact hrun.elim
  | error reason c =>
    cases hok' : Rule.program (parsingDepth tokens.length) ⟨tokens', finish', i', []⟩ with
    | ok program' c' => rw [hok, hok'] at hrun; exact hrun.elim
    | error reason' c' =>
      rw [hok, hok'] at hrun
      obtain ⟨hc, hreason⟩ := hrun
      cases hreason with
      | fault hfound => exact ⟨.nil, List.rel_append hc.faults (.cons hfound .nil), hc.counts⟩
      | exhausted =>
        exact ⟨.nil, List.rel_append hc.faults (.cons (.parse hfinish) .nil), hc.counts⟩

end Treewalk
