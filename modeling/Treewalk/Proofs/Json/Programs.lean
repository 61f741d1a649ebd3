import Treewalk.Proofs.Json.Trees
import Treewalk.Proofs.Json.WellFormed
import Treewalk.Proofs.Numbers.Scanned
import Treewalk.Proofs.Session.Calls

/-! The JSON text of a program determines the program. What the text leaves open of a document is which
nulls are doubles that are not finite. In the document of a program, doubles stand in members that are
named for numbers and nothing else does, and the only double among them that is not finite is the one
that is infinite. -/

namespace Treewalk

/-- Of the doubles without a sign, only one is written as null. -/
theorem Unsigned.eq_of_plain {x y : Float} (hx : Unsigned x) (hy : Unsigned y)
    (h : (Document.double x).plain = (Document.double y).plain) : x = y := by
  obtain ⟨d, hx, -⟩ | hx := hx
  · obtain ⟨e, hy, -⟩ | hy := hy
    · simpa [Document.plain, hx, hy] using h
    · simp [Document.plain, hx, hy] at h
  · obtain ⟨e, hy, -⟩ | hy := hy
    · simp [Document.plain, hx, hy] at h
    · exact Reading.ofFloat_inj (hx.trans hy.symm) (by simp [hx])

/-- Of the doubles without a sign, the infinite one is written as null. -/
theorem Unsigned.null_iff {x : Float} (hx : Unsigned x) :
    Document.doubleText x = "null".toList ↔ Reading.ofFloat x = .infinite false := by
  obtain ⟨d, hx, -⟩ | hx := hx
  · have hne : Document.doubleText x ≠ "null".toList := by
      intro heq
      have hbare := Document.Bare.double hx
      rw [heq] at hbare
      cases hbare.inj .null
    exact iff_of_false hne (by simp [hx])
  · simp [Document.doubleText, hx]

/-- The names of the members that hold doubles. -/
@[simp]
def numberNames : List String := ["NUMBER", "Number"]

mutual

/-- Doubles stand in members that are named for numbers, and nothing else does; none of them has a
sign. -/
@[simp]
def Document.Placed : Document → Prop
  | .null | .string _ | .natural _ => True
  | .double _ => False
  | .array items => Document.AllPlaced items
  | .object members => Member.AllPlaced members

@[simp]
def Document.AllPlaced : List Document → Prop
  | [] => True
  | item :: rest => item.Placed ∧ Document.AllPlaced rest

@[simp]
def Member.Placed : Member → Prop
  | ⟨name, value⟩ =>
    if name ∈ numberNames then ∃ x, value = .double x ∧ Unsigned x else value.Placed

@[simp]
def Member.AllPlaced : List Member → Prop
  | [] => True
  | member :: rest => member.Placed ∧ Member.AllPlaced rest

end

/-- No other document with doubles in their places is plainly the same. -/
def Document.Settled (d : Document) : Prop :=
  ∀ e : Document, d.Placed → e.Placed → d.plain = e.plain → d = e

theorem Member.eq_of_plain {m m' : Member} (hsettled : m.value.Settled) (hm : m.Placed)
    (hm' : m'.Placed) (h : m.plain = m'.plain) : m = m' := by
  obtain ⟨name, value⟩ := m
  obtain ⟨name', value'⟩ := m'
  rw [Member.plain, Member.plain, Member.mk.injEq] at h
  obtain ⟨rfl, hvalue⟩ := h
  unfold Member.Placed at hm hm'
  split at hm
  · next hname =>
    rw [if_pos hname] at hm'
    obtain ⟨x, rfl, hx⟩ := hm
    obtain ⟨y, rfl, hy⟩ := hm'
    rw [hx.eq_of_plain hy hvalue]
  · next hname =>
    rw [if_neg hname] at hm'
    rw [show value = value' from hsettled value' hm hm' hvalue]

theorem Document.allPlaced_iff {items : List Document} :
    AllPlaced items ↔ ∀ d ∈ items, d.Placed := by
  induction items with
  | nil => simp
  | cons item rest ih => simp [ih]

theorem Member.allPlaced_iff {members : List Member} :
    AllPlaced members ↔ ∀ m ∈ members, m.Placed := by
  induction members with
  | nil => simp
  | cons member rest ih => simp [ih]

/-- What a map settles for single parts it settles for lists of them. -/
theorem eq_of_map_eq {α β : Type} {f : α → β} {P : α → Prop} {as bs : List α}
    (hsettled : ∀ a ∈ as, ∀ b, P a → P b → f a = f b → a = b) (has : ∀ a ∈ as, P a)
    (hbs : ∀ b ∈ bs, P b) (h : as.map f = bs.map f) : as = bs := by
  induction as generalizing bs with
  | nil => exact (List.map_eq_nil_iff.mp h.symm).symm
  | cons a as ih =>
    cases bs with
    | nil => cases h
    | cons b bs =>
      obtain ⟨hfirst, hrest⟩ := List.cons.inj h
      obtain ⟨ha, has⟩ := List.forall_mem_cons.mp has
      obtain ⟨hb, hbs⟩ := List.forall_mem_cons.mp hbs
      obtain ⟨hsettle, hsettled⟩ := List.forall_mem_cons.mp hsettled
      rw [hsettle b ha hb hfirst, ih hsettled has hbs hrest]

theorem Document.settled (d : Document) : d.Settled := by
  have hinherited : Inherited Settled := {
    null := by
      intro e hd he h
      cases e with
      | null => rfl
      | double => cases he
      | _ => cases h
    string := by
      intro contents e hd he h
      cases e with
      | string contents' => rw [string.inj h]
      | double => cases he
      | _ => cases h
    natural := by
      intro value e hd he h
      cases e with
      | natural value' => rw [natural.inj h]
      | double => cases he
      | _ => cases h
    double := by
      intro value e hd
      cases hd
    array := by
      intro items hitems e hd he h
      cases e with
      | array items' =>
        have hplain := array.inj h
        rw [plainItems_eq_map, plainItems_eq_map] at hplain
        rw [eq_of_map_eq hitems (allPlaced_iff.mp hd) (allPlaced_iff.mp he) hplain]
      | double => cases he
      | _ => cases h
    object := by
      intro members hmembers e hd he h
      cases e with
      | object members' =>
        have hplain := object.inj h
        rw [plainMembers_eq_map, plainMembers_eq_map] at hplain
        have hsettled (m : Member) (hm : m ∈ members) (m' : Member) :
            m.Placed → m'.Placed → m.plain = m'.plain → m = m' :=
          Member.eq_of_plain (hmembers m hm)
        rw [eq_of_map_eq hsettled (Member.allPlaced_iff.mp hd) (Member.allPlaced_iff.mp he) hplain]
      | double => cases he
      | _ => cases h }
  exact hinherited.all d

/-! ### Programs -/

theorem Token.placed_json {t : Token} (h : ∀ x, t.kind = .number x → Unsigned x) :
    t.json.Placed := by
  obtain ⟨kind, lexeme, line⟩ := t
  have hkind : kind.json.Placed := by
    cases kind with
    | number x => simpa [Kind.json, Document.single] using h x rfl
    | _ => simp [Kind.json, Document.single]
  simpa [json] using hkind

theorem Literal.placed_json {t : Token} {v : Literal} (h : t.literal? = some v) (ht : t.json.Placed) :
    v.json.Placed := by
  obtain ⟨kind, lexeme, line⟩ := t
  unfold Token.literal? at h
  split at h
  case h_2 x hkind =>
    cases h
    subst hkind
    simpa [Token.json, Kind.json, json, Document.single] using ht
  case h_6 => cases h
  all_goals
    cases h
    simp [json, Document.single]

/-- The document of an operation is made of those of its parts. -/
theorem Level.placed_node {level : Level} {tighter : List Level}
    (hs : level :: tighter <:+ Level.all) {left right : Expr} {op : Token}
    (hleft : left.json.Placed) (hop : op.json.Placed) (hright : right.json.Placed) :
    (level.node left op right).json.Placed := by
  obtain hnode | hnode := Level.node_eq hs <;>
    simp [hnode, Expr.json, Document.node, Document.single, hleft, hop, hright]

/-- The documents of the trees of a phrase have their doubles in their places. Where the trees are put
around one that was read before, they have them if that one has. -/
def Phrase.Placed : Phrase → Prop
  | .expression e | .unary e | .primary e => e.json.Placed
  | .operation levels e => levels <:+ Level.all → e.json.Placed
  | .operations level tighter left e =>
    level :: tighter <:+ Level.all → left.json.Placed → e.json.Placed
  | .calls callee e => callee.json.Placed → e.json.Placed
  | .argumentList es | .arguments es => Document.AllPlaced (Expr.jsons es)
  | .clause e | .initial e => (Document.ofOption Expr.json e).Placed
  | .binding s | .expressionStatement s | .statement _ s | .declaration s => s.json.Placed
  | .firstClause s => ∀ x ∈ s, x.json.Placed
  | .declarations ss => Document.AllPlaced (Stmt.jsons ss)
  | .parameterList ps | .parameters ps => Document.AllPlaced (ps.map Token.json)
  | .function decl => decl.json.Placed
  | .functions decls => Document.AllPlaced (FunctionDecl.jsons decls)
  | .heritage parent => (Document.ofOption Reference.json parent).Placed

theorem Document.placed_ofOption {α : Type} {encode : α → Document} {a : Option α} :
    (ofOption encode a).Placed ↔ ∀ x ∈ a, (encode x).Placed := by
  cases a <;> simp [ofOption]

/-- The document of a loop with three clauses is made of those of its clauses and its body. -/
theorem Stmt.placed_counting {first : Option Stmt} {condition step : Option Expr} {body : Stmt}
    (hfirst : ∀ s ∈ first, s.json.Placed) (hcondition : ∀ e ∈ condition, e.json.Placed)
    (hstep : ∀ e ∈ step, e.json.Placed) (hbody : body.json.Placed) :
    (counting first condition step body).json.Placed := by
  have htest : (condition.getD (.literal (.bool true))).json.Placed := by
    cases condition with
    | none => simp [Expr.json, Literal.json, Document.single]
    | some e => exact hcondition e rfl
  unfold counting
  cases first with
  | none =>
    cases step with
    | none => simp [json, jsons, Document.node, Document.single, htest, hbody]
    | some e => simp [json, jsons, Document.node, Document.single, htest, hbody, hstep e rfl]
  | some s =>
    have hs := hfirst s rfl
    cases step with
    | none => simp [json, jsons, Document.node, Document.single, htest, hbody, hs]
    | some e => simp [json, jsons, Document.node, Document.single, htest, hbody, hs, hstep e rfl]

/-- The document of what is read has its doubles in their places if those of the tokens have. -/
theorem Reads.placed {phrase : Phrase} {i j : NodeId} {ts : List Token} (h : Reads phrase i ts j)
    (hts : ∀ t ∈ ts, t.json.Placed) : phrase.Placed := by
  induction h with
    simp -failIfUnchanged only [List.append_assoc, List.cons_append, List.forall_mem_append,
      List.forall_mem_cons] at hts
  | value _ ih => exact ih hts (List.suffix_refl _)
  | assign _ _ _ ih ihValue =>
    obtain ⟨htarget, -, hvalue⟩ := hts
    simpa [Phrase.Placed, Expr.json, Reference.json, Document.node, Document.single] using
      And.intro (ih htarget (List.suffix_refl _)) (ihValue hvalue)
  | set _ _ _ ih ihValue =>
    obtain ⟨htarget, -, hvalue⟩ := hts
    simpa [Phrase.Placed, Expr.json, Document.node, Document.single, and_assoc] using
      And.intro (ih htarget (List.suffix_refl _)) (ihValue hvalue)
  | tightest _ ih => exact fun _ => ih hts
  | level _ _ ih ihRest =>
    intro hs
    exact ihRest hts.2 hs (ih hts.1 ((List.suffix_cons _ _).trans hs))
  | operationsNil => exact fun _ hleft => hleft
  | operationsCons _ _ _ ih ihRest =>
    intro hs hleft
    have hright := ih hts.2.1 ((List.suffix_cons _ _).trans hs)
    exact ihRest hts.2.2 hs (Level.placed_node hs hleft hts.1 hright)
  | sign _ _ ih =>
    simpa [Phrase.Placed, Expr.json, Document.node, Document.single] using ⟨hts.1, ih hts.2⟩
  | operand _ _ ih ihCalls => exact ihCalls hts.2 (ih hts.1)
  | callsNil => exact fun hcallee => hcallee
  | call _ _ _ _ ih ihCalls =>
    intro hcallee
    obtain ⟨-, harguments, hparen, hrest⟩ := hts
    refine ihCalls hrest ?_
    simpa [Expr.json, Document.node, Document.single] using ⟨hcallee, hparen, ih harguments⟩
  | get _ _ _ ih =>
    intro hcallee
    obtain ⟨-, hname, hrest⟩ := hts
    refine ih hrest ?_
    simpa [Expr.json, Document.node, Document.single] using ⟨hcallee, hname⟩
  | noArguments => trivial
  | someArguments _ _ ih => exact ih hts
  | argumentsOne _ ih => exact ⟨ih hts, trivial⟩
  | argumentsCons _ _ _ ih ihRest => exact ⟨ih hts.1, ihRest hts.2.2⟩
  | literal hv => simpa [Phrase.Placed, Expr.json, Document.single] using Literal.placed_json hv hts.1
  | this _ | name _ =>
    simpa [Phrase.Placed, Expr.json, Reference.json, Document.node, Document.single] using hts.1
  | parent _ _ _ =>
    simpa [Phrase.Placed, Expr.json, Document.node, Document.single] using ⟨hts.1, hts.2.2.1⟩
  | grouping _ _ _ ih => simpa [Phrase.Placed, Expr.json, Document.single] using ih hts.2.1
  | noClause | noInitial | firstNone | noHeritage => simp [Phrase.Placed, Document.ofOption]
  | someClause _ ih => exact ih hts
  | someInitial _ _ ih => exact ih hts.2
  | binding _ _ _ _ ih =>
    obtain ⟨-, hname, hinitial, -⟩ := hts
    simpa [Phrase.Placed, Stmt.json, Document.node, Document.single] using ⟨hname, ih hinitial⟩
  | expressionStatement _ _ ih =>
    simpa [Phrase.Placed, Stmt.json, Document.single] using ih hts.1
  | firstVariable _ ih | firstExpression _ ih => simpa [Phrase.Placed] using ih hts
  | expression _ ih | varDecl _ ih | statement _ ih => exact ih hts
  | print _ _ _ ih => simpa [Phrase.Placed, Stmt.json, Document.single] using ih hts.2.1
  | giveBack _ _ _ ih =>
    obtain ⟨hword, hvalue, -⟩ := hts
    simpa [Phrase.Placed, Stmt.json, Document.node, Document.single] using ⟨hword, ih hvalue⟩
  | branch _ _ _ _ _ ih ihBody =>
    obtain ⟨-, -, hcondition, -, hbody⟩ := hts
    simpa [Phrase.Placed, Stmt.json, Document.node, Document.single] using
      ⟨ih hcondition, ihBody hbody⟩
  | branchElse _ _ _ _ _ _ _ ih ihBody ihRest =>
    obtain ⟨-, -, hcondition, -, hbody, -, hrest⟩ := hts
    simpa [Phrase.Placed, Stmt.json, Document.node, Document.single] using
      ⟨ih hcondition, ihBody hbody, ihRest hrest⟩
  | loop _ _ _ _ _ ih ihBody =>
    obtain ⟨-, -, hcondition, -, hbody⟩ := hts
    simpa [Phrase.Placed, Stmt.json, Document.node, Document.single] using
      ⟨ih hcondition, ihBody hbody⟩
  | counting _ _ _ _ _ _ _ _ ihFirst ihCondition ihStep ihBody =>
    obtain ⟨-, -, hfirst, hcondition, -, hstep, -, hbody⟩ := hts
    exact Stmt.placed_counting (ihFirst hfirst) (Document.placed_ofOption.mp (ihCondition hcondition))
      (Document.placed_ofOption.mp (ihStep hstep)) (ihBody hbody)
  | block _ _ _ ih => simpa [Phrase.Placed, Stmt.json, Document.single] using ih hts.2.1
  | declarationsNil | functionsNil | noParameters => trivial
  | declarationsCons _ _ ih ihRest | functionsCons _ _ ih ihRest => exact ⟨ih hts.1, ihRest hts.2⟩
  | classDecl _ _ _ _ _ _ ih ihMethods =>
    obtain ⟨-, hname, hparent, -, hmethods, -⟩ := hts
    simpa [Phrase.Placed, Stmt.json, Document.node, Document.single] using
      ⟨hname, ih hparent, ihMethods hmethods⟩
  | funcDecl _ _ ih => simpa [Phrase.Placed, Stmt.json, Document.single] using ih hts.2
  | someHeritage _ _ =>
    simpa [Phrase.Placed, Document.ofOption, Reference.json, Document.single] using hts.2.1
  | function _ _ _ _ _ _ _ ih ihBody =>
    obtain ⟨hname, -, hparams, -, -, hbody, -⟩ := hts
    simpa [Phrase.Placed, FunctionDecl.json] using ⟨hname, ih hparams, ihBody hbody⟩
  | someParameters _ _ ih => exact ih hts
  | parametersOne _ => exact ⟨hts.1, trivial⟩
  | parametersCons _ _ _ ih => exact ⟨hts.1, ih hts.2.2⟩

/-- The JSON text of a program that was read from a source text is well-formed, and no other program
that is read has this text. The numbers in a source text have no sign, and they are finite or infinite:
only the infinite one is written as null. -/
theorem Session.json_determines_program {s s' : Session} {source source' : String} {p q : Program}
    (hp : (s.parse source).1 = .ok p) (hq : (s'.parse source').1 = .ok q) :
    Json.Text p.json.pretty ∧ (p.json.pretty = q.json.pretty → p = q) ∧
      ∀ t ∈ Source.tokens source, ∀ x, t.kind = .number x → Unsigned x ∧
        (Document.doubleText x = "null".toList ↔ Reading.ofFloat x = .infinite false) := by
  have hplaced {s : Session} {source : String} {p : Program} (hp : (s.parse source).1 = .ok p) :
      p.json.Placed :=
    (reads_of_parse hp).2.placed fun _ ht =>
      Token.placed_json fun _ => Source.unsigned_of_mem_tokens ht
  refine ⟨Document.text_pretty p.json, fun h => ?_, fun t ht x hx => ?_⟩
  · have hplain := Document.pretty_inj h
    exact Program.json_inj (p.json.settled q.json (hplaced hp) (hplaced hq) hplain)
  · have hunsigned := Source.unsigned_of_mem_tokens ht hx
    exact ⟨hunsigned, hunsigned.null_iff⟩

/-- The constant `null` and the string of that name are told apart. -/
theorem Session.json_determines_program_null :
    let s := initial .unbounded
    let p : Program := [.print (.literal .null)]
    let q : Program := [.print (.literal (.string "Null"))]
    (s.parse "print null;").1 = .ok p ∧ (s.parse "print \"Null\";").1 = .ok q ∧
      Json.Text p.json.pretty ∧ p.json.pretty ≠ q.json.pretty := by
  intro s p q
  have hp : (s.parse "print null;").1 = .ok p := by cbv
  have hq : (s.parse "print \"Null\";").1 = .ok q := by cbv
  obtain ⟨htext, hinj, -⟩ := json_determines_program hp hq
  exact ⟨hp, hq, htext, fun h => absurd (hinj h) (by simp [p, q])⟩

end Treewalk
