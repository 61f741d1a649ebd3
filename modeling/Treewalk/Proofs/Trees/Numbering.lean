import Mathlib.Data.List.Nodup
import Treewalk.Proofs.Grammar.Reading

/-! The numbers of occurrences. No two occurrences in what was read share a number, and all of them
lie between the first free number before the reading and the first one after it. -/

namespace Treewalk

mutual

/-- The numbers of the occurrences in an expression, in the order in which they are resolved. -/
def Expr.ids : Expr → List NodeId
  | .literal _ => []
  | .unary _ operand => operand.ids
  | .binary left _ right | .logical left _ right => left.ids ++ right.ids
  | .grouping inner => inner.ids
  | .variable target => [target.id]
  | .assign target value => value.ids ++ [target.id]
  | .call callee _ arguments => callee.ids ++ Expr.allIds arguments
  | .get object _ => object.ids
  | .set object _ value => value.ids ++ object.ids
  | .this receiver => [receiver.id]
  | .parent keyword _ => [keyword.id]

def Expr.allIds : List Expr → List NodeId
  | [] => []
  | e :: rest => e.ids ++ Expr.allIds rest

end

mutual

/-- The numbers of the occurrences in a statement, in the order in which they are resolved. -/
def Stmt.ids : Stmt → List NodeId
  | .expression value | .print value => value.ids
  | .var _ none => []
  | .var _ (some initial) => initial.ids
  | .block body => Stmt.allIds body
  | .branch condition whenTrue none => condition.ids ++ whenTrue.ids
  | .branch condition whenTrue (some whenFalse) =>
    condition.ids ++ whenTrue.ids ++ whenFalse.ids
  | .loop condition body => condition.ids ++ body.ids
  | .function decl => decl.ids
  | .giveBack _ none => []
  | .giveBack _ (some value) => value.ids
  | .classDecl _ parent methods =>
    (parent.map Reference.id).toList ++ FunctionDecl.allIds methods

def Stmt.allIds : List Stmt → List NodeId
  | [] => []
  | s :: rest => s.ids ++ Stmt.allIds rest

def FunctionDecl.ids : FunctionDecl → List NodeId
  | ⟨_, _, body⟩ => Stmt.allIds body

def FunctionDecl.allIds : List FunctionDecl → List NodeId
  | [] => []
  | decl :: rest => decl.ids ++ FunctionDecl.allIds rest

end

theorem Stmt.allIds_append (ss us : List Stmt) :
    Stmt.allIds (ss ++ us) = Stmt.allIds ss ++ Stmt.allIds us := by
  induction ss with
  | nil => rfl
  | cons s rest ih => simp [Stmt.allIds, ih]

/-- No number stands twice in the list, and all of them are at least `i` and less than `j`. -/
structure Fresh (ids : List NodeId) (i j : NodeId) : Prop where
  le : i ≤ j
  nodup : ids.Nodup
  bounds : ∀ id ∈ ids, i ≤ id ∧ id < j

namespace Fresh

variable {ids others : List NodeId} {i j k : NodeId}

theorem nil (h : i ≤ j) : Fresh [] i j := ⟨h, .nil, by simp⟩

theorem singleton (i : NodeId) : Fresh [i] i (i + 1) :=
  ⟨Nat.le_succ i, List.nodup_singleton i, by simp⟩

theorem append (h : Fresh ids i j) (h' : Fresh others j k) : Fresh (ids ++ others) i k := by
  have hij := h.le
  have hjk := h'.le
  refine ⟨Nat.le_trans hij hjk, ?_, ?_⟩
  · refine List.nodup_append.mpr ⟨h.nodup, h'.nodup, ?_⟩
    intro id hid id' hid' heq
    have hlt := (h.bounds id hid).2
    have hle := (h'.bounds id' hid').1
    exact Nat.ne_of_lt (Nat.lt_of_lt_of_le hlt hle) heq
  · intro id hid
    obtain hid | hid := List.mem_append.mp hid
    · have hbounds := h.bounds id hid
      exact ⟨hbounds.1, Nat.lt_of_lt_of_le hbounds.2 hjk⟩
    · have hbounds := h'.bounds id hid
      exact ⟨Nat.le_trans hij hbounds.1, hbounds.2⟩

/-- The later numbers may stand in front. -/
theorem append_swap (h : Fresh ids i j) (h' : Fresh others j k) : Fresh (others ++ ids) i k := by
  have happend := h.append h'
  refine ⟨happend.le, List.nodup_append_comm.mp happend.nodup, fun id hid => ?_⟩
  exact happend.bounds id (by simpa [or_comm] using hid)

theorem widen (h : Fresh ids j k) (hij : i ≤ j) : Fresh ids i k :=
  ⟨Nat.le_trans hij h.le, h.nodup, fun id hid =>
    ⟨Nat.le_trans hij (h.bounds id hid).1, (h.bounds id hid).2⟩⟩

end Fresh

/-- The node of a level has the occurrences of its operands. -/
theorem Level.ids_node {level : Level} {tighter : List Level} (hs : level :: tighter <:+ Level.all)
    (left right : Expr) (op : Token) : (level.node left op right).ids = left.ids ++ right.ids := by
  rcases Level.node_eq hs with h | h <;> rw [h] <;> rfl

/-- The occurrences in the trees of a phrase have numbers of their own, from `i` on and below `j`.
Where the trees are put around one that was read before, these are the numbers that they add. -/
def Phrase.Numbered (i j : NodeId) : Phrase → Prop
  | .expression e | .unary e | .primary e => Fresh e.ids i j
  | .operation levels e => levels <:+ Level.all → Fresh e.ids i j
  | .operations level tighter left e =>
    level :: tighter <:+ Level.all → ∃ added, e.ids = left.ids ++ added ∧ Fresh added i j
  | .calls callee e => ∃ added, e.ids = callee.ids ++ added ∧ Fresh added i j
  | .argumentList es | .arguments es => Fresh (Expr.allIds es) i j
  | .clause e | .initial e => Fresh (Expr.allIds e.toList) i j
  | .binding s | .expressionStatement s | .statement _ s | .declaration s => Fresh s.ids i j
  | .firstClause s => Fresh (Stmt.allIds s.toList) i j
  | .declarations ss => Fresh (Stmt.allIds ss) i j
  | .parameterList _ | .parameters _ => i ≤ j
  | .function decl => Fresh decl.ids i j
  | .functions decls => Fresh (FunctionDecl.allIds decls) i j
  | .heritage parent => Fresh (parent.map Reference.id).toList i j

/-- The occurrences in a loop with three clauses are those of its clauses and its body. -/
theorem Stmt.ids_counting (first : Option Stmt) (condition step : Option Expr) (body : Stmt) :
    (Stmt.counting first condition step body).ids =
      Stmt.allIds first.toList ++ (Expr.allIds condition.toList ++
        (body.ids ++ Expr.allIds step.toList)) := by
  cases condition <;> cases step <;>
    simp [Stmt.counting, Stmt.ids, Stmt.allIds_append, Stmt.allIds, Expr.allIds, Expr.ids]

/-- No two occurrences that are read together share a number. -/
theorem Reads.numbered {phrase : Phrase} {i j : NodeId} {ts : List Token} (h : Reads phrase i ts j) :
    phrase.Numbered i j := by
  induction h with
  | value _ ih => exact ih (List.suffix_refl _)
  | assign _ _ _ ih ihv =>
    have htarget := ih (List.suffix_refl _)
    exact (ihv.widen htarget.le).append (.singleton _)
  | set _ _ _ ih ihv => exact (ih (List.suffix_refl _)).append_swap ihv
  | tightest _ ih => exact fun _ => ih
  | level _ _ ih ihRest =>
    intro hs
    obtain ⟨added, heq, hadded⟩ := ihRest hs
    have hleft := ih ((List.suffix_cons _ _).trans hs)
    rw [heq]
    exact hleft.append hadded
  | operationsNil => exact fun _ => ⟨[], by simp, .nil (Nat.le_refl _)⟩
  | operationsCons _ _ _ ih ihRest =>
    intro hs
    obtain ⟨added, heq, hadded⟩ := ihRest hs
    rw [Level.ids_node hs, List.append_assoc] at heq
    exact ⟨_, heq, (ih ((List.suffix_cons _ _).trans hs)).append hadded⟩
  | sign _ _ ih => exact ih
  | operand _ _ ih ihCalls =>
    obtain ⟨added, heq, hadded⟩ := ihCalls
    rw [Phrase.Numbered, heq]
    exact ih.append hadded
  | callsNil => exact ⟨[], by simp, .nil (Nat.le_refl _)⟩
  | call _ _ _ _ ih ihCalls =>
    obtain ⟨added, heq, hadded⟩ := ihCalls
    rw [Expr.ids, List.append_assoc] at heq
    exact ⟨_, heq, ih.append hadded⟩
  | get _ _ _ ih => exact ih
  | noArguments => exact .nil (Nat.le_refl _)
  | someArguments _ _ ih => exact ih
  | argumentsOne _ ih => simpa [Phrase.Numbered, Expr.allIds] using ih
  | argumentsCons _ _ _ ih ihRest => exact ih.append ihRest
  | literal _ => exact .nil (Nat.le_refl _)
  | this _ | parent _ _ _ | name _ => exact .singleton _
  | grouping _ _ _ ih => exact ih
  | noClause | noInitial | firstNone | noHeritage => exact .nil (Nat.le_refl _)
  | someClause _ ih => simpa [Phrase.Numbered, Expr.allIds] using ih
  | someInitial _ _ ih => simpa [Phrase.Numbered, Expr.allIds] using ih
  | @binding _ _ e _ _ _ _ _ _ _ _ ih =>
    cases e with
    | none => exact ih
    | some e => simpa [Phrase.Numbered, Stmt.ids, Expr.allIds] using ih
  | expressionStatement _ _ ih => exact ih
  | firstVariable _ ih => simpa [Phrase.Numbered, Stmt.allIds] using ih
  | firstExpression _ ih => simpa [Phrase.Numbered, Stmt.allIds] using ih
  | expression _ ih => exact ih
  | print _ _ _ ih => exact ih
  | @giveBack _ e _ _ _ _ _ _ _ ih =>
    cases e with
    | none => exact ih
    | some e => simpa [Phrase.Numbered, Stmt.ids, Expr.allIds] using ih
  | branch _ _ _ _ _ ih ihBody => exact ih.append ihBody
  | branchElse _ _ _ _ _ _ _ ih ihBody ihRest => exact (ih.append ihBody).append ihRest
  | loop _ _ _ _ _ ih ihBody => exact ih.append ihBody
  | counting _ _ _ _ _ _ _ _ ihFirst ihCondition ihStep ihBody =>
    rw [Phrase.Numbered, Stmt.ids_counting]
    exact ihFirst.append (ihCondition.append (ihStep.append_swap ihBody))
  | block _ _ _ ih => exact ih
  | declarationsNil | functionsNil => exact .nil (Nat.le_refl _)
  | declarationsCons _ _ ih ihRest => exact ih.append ihRest
  | classDecl _ _ _ _ _ _ ih ihMethods => exact ih.append ihMethods
  | funcDecl _ _ ih => exact ih
  | varDecl _ ih => exact ih
  | statement _ ih => exact ih
  | someHeritage _ _ => exact .singleton _
  | functionsCons _ _ ih ihRest => exact ih.append ihRest
  | function _ _ _ _ _ _ _ _ ihBody => exact ihBody
  | noParameters => exact Nat.le_refl _
  | someParameters _ _ ih => exact ih
  | parametersOne _ => exact Nat.le_refl _
  | parametersCons _ _ _ ih => exact ih

end Treewalk
