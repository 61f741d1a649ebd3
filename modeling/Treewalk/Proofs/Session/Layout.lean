import Mathlib
import Treewalk.Proofs.Session.Twins
import Treewalk.Proofs.Twins.Lines

/-! Layout. Blanks and comments between tokens, and the lines that tokens are on, are shown in
notices and trees, and decide nothing: two texts with the same tokens but for lines are read, resolved
and run alike. -/

namespace Treewalk

/-- Tokens with the same text stand for each other, on whatever lines. -/
def Token.Matching.anyLine : Token.Matching where
  Matches := Token.SameText
  sameText _ _ := id

theorem Disguise.keepsAll_counted (T : Token.Matching) (i : NodeId) : (counted T i i).KeepsAll where
  plain := plain_plain
  place := by
    rintro id id' _ ⟨n, rfl, rfl⟩
    rfl

/-- The notice, about no line. -/
def Notice.unlined : Notice → Notice
  | lex _ message => lex 0 message
  | parse _ place message => parse 0 place message
  | resolve _ place message => resolve 0 place message
  | runtime _ lexeme message => runtime 0 lexeme message
  | io message => io message

theorem Place.ofToken_eq {t t' : Token} (h : t.SameText t') : ofToken t' = ofToken t := by
  rw [ofToken, h.kind, h.lexeme, ofToken]

section
variable {r : Token → Token → Prop} (hr : ∀ t t', r t t' → t.SameText t')
include hr

/-- Like faults are told in the same words. -/
theorem Diagnostic.Like.unlined_eq {d d' : Diagnostic} (h : d.Like r d') :
    d'.notice.unlined = d.notice.unlined := by
  cases h with
  | lex => rfl
  | parse ht => exact congrArg (Notice.parse 0 · _) (Place.ofToken_eq (hr _ _ ht))
  | resolve ht => exact congrArg (Notice.resolve 0 · _) (Place.ofToken_eq (hr _ _ ht))

theorem Diagnostic.map_unlined_eq {fs fs' : List Diagnostic}
    (h : List.Forall₂ (Diagnostic.Like r) fs fs') :
    fs'.map (·.notice.unlined) = fs.map (·.notice.unlined) := by
  induction h with
  | nil => rfl
  | cons hd _ ih => rw [List.map_cons, hd.unlined_eq hr, ih, List.map_cons]

theorem Halt.Like.unlined_eq {halt halt' : Halt} (h : halt.Like r halt') :
    halt'.notice.unlined = halt.notice.unlined := by
  cases h with
  | fault ht => exact congrArg (Notice.runtime 0 · _) (hr _ _ ht).lexeme
  | sink => rfl
  | exhausted => rfl

end

/-- What is seen of a call, no line being told. -/
structure Outcome.Unlined where
  errors : List Notice
  halt : Option Notice
  sink : Sink
  globals : List (String × String)

def Outcome.unlined (o : Outcome) : Unlined where
  errors := o.report.errors.map (·.notice.unlined)
  halt := o.report.halt.map (·.notice.unlined)
  sink := o.sink
  globals := o.globals

theorem Outcome.Like.unlined_eq {r : Token → Token → Prop} (hr : ∀ t t', r t t' → t.SameText t')
    {o o' : Outcome} (h : o.Like r o') : o'.unlined = o.unlined := by
  have hhalt : o'.report.halt.map (·.notice.unlined) = o.report.halt.map (·.notice.unlined) := by
    have hrel := h.report.halt
    generalize o.report.halt = halt, o'.report.halt = halt' at hrel ⊢
    cases hrel with
    | none => rfl
    | some hlike => exact congrArg some (hlike.unlined_eq hr)
  rw [unlined, unlined, Diagnostic.map_unlined_eq hr h.report.errors, hhalt, h.sink, h.globals]

theorem Outcome.map_unlined_eq {r : Token → Token → Prop} (hr : ∀ t t', r t t' → t.SameText t')
    {os os' : List Outcome} (h : List.Forall₂ (Outcome.Like r) os os') :
    os'.map unlined = os.map unlined := by
  induction h with
  | nil => rfl
  | cons ho _ ih => rw [List.map_cons, ho.unlined_eq hr, ih, List.map_cons]

/-- A call is like itself. -/
theorem Call.Alike.anyLine (call : Call) : call.Alike .anyLine call := by
  have hrefl (text : String) : Source.Alike .anyLine text text := .refl fun _ _ => ⟨rfl, rfl⟩
  cases call with
  | run => exact .run (hrefl _)
  | parse => exact .parse (hrefl _)

/-- The two texts have the same tokens, but for lines. -/
def Source.SameTokens (source source' : String) : Prop :=
  (Source.tokens source').map Token.unlined = (Source.tokens source).map Token.unlined

theorem Source.SameTokens.alike {source source' : String} (h : SameTokens source source')
    (hfaults : Source.faults source = []) (hfaults' : Source.faults source' = []) :
    Source.Alike .anyLine source source' where
  tokens := by
    unfold SameTokens at h
    generalize Source.tokens source = ts, Source.tokens source' = ts' at h ⊢
    induction ts generalizing ts' with
    | nil =>
      obtain rfl := List.map_eq_nil_iff.mp h
      exact .nil
    | cons t rest ih =>
      obtain ⟨t', rest', rfl, ht, hrest⟩ := List.map_eq_cons_iff.mp h
      exact .cons (Token.unlined_eq_iff.mp ht) (ih rest' hrest)
  finish := ⟨rfl, rfl⟩
  faults := by rw [hfaults, hfaults']

namespace Session

/-- Two results of reading differ in lines only, and so does what is found in them: the programs have
the same outline, the same numbers, the same distances and the same misuses, or the same faults kept
them from being read. -/
def SameReading :
    Except (List Diagnostic) Program → Except (List Diagnostic) Program → Prop
  | .ok p, .ok p' =>
    Program.unlined p' = Program.unlined p ∧
      Program.outline p' = Program.outline p ∧ Stmt.allIds p' = Stmt.allIds p ∧
      (∀ D : Distances, D.record p'.findings = D.record p.findings) ∧
      (misuses p'.findings).map (·.notice.unlined) = (misuses p.findings).map (·.notice.unlined)
  | .error fs, .error fs' => fs'.map (·.notice.unlined) = fs.map (·.notice.unlined)
  | _, _ => False

theorem Readings.same {T : Token.Matching} {i : NodeId}
    {result result' : Except (List Diagnostic) Program}
    (h : Readings (.counted T i i) result result') : SameReading result result' := by
  cases h with
  | @ok p p' hp =>
    have hunlined : Program.unlined p' = Program.unlined p :=
      Stmt.AllLike.unlined_eq (Disguise.keepsAll_counted T i) p hp
    have hfindings := Program.like_findings Disguise.plain_plain hp
    exact ⟨hunlined, Program.outline_of_unlined hunlined, Program.allIds_of_unlined hunlined,
      Distances.record_eq_of_like (Disguise.keepsAll_counted T i) hfindings,
      Diagnostic.map_unlined_eq T.sameText hfindings.misuses⟩
  | error hfs => exact Diagnostic.map_unlined_eq T.sameText hfs

/-- The layout of a text decides nothing but lines. Let two texts without lexical faults have the same
tokens but for lines. Any session reads both, with the same result but for lines, and spends as many
numbers on the one as on the other. A session that has answered any calls runs both alike: the
notices are the same but for lines, the same is printed, the globals are displayed alike, and so it is
with every call that follows. -/
theorem layout_decides_lines_only (time : Nat → Float) (sink : Sink) (calls : List Call)
    (source source' : String) :
    let host := Host.reading time
    let s := (initial sink).after host calls
    Source.faults source = [] → Source.faults source' = [] → Source.SameTokens source source' →
      (∀ t : Session, SameReading (t.parse source).1 (t.parse source').1 ∧
        (t.parse source').2 = (t.parse source).2) ∧
      ∀ depth later, (s.outcomes host (.run depth source' :: later)).map Outcome.unlined =
        (s.outcomes host (.run depth source :: later)).map Outcome.unlined := by
  intro host s hfaults hfaults' htokens
  have hsource := htokens.alike hfaults hfaults'
  refine ⟨fun t => ?_, fun depth later => ?_⟩
  · obtain ⟨hreadings, hcounts⟩ := parse_alike t t hsource
    refine ⟨hreadings.same, ?_⟩
    obtain ⟨-, n, hn, hn'⟩ := hcounts 0
    exact congrArg (Session.mk t.machine) (hn'.trans hn.symm)
  · have hhost : host.AnswersNumbers := Host.answersNumbers_reading time
    have hdeaf : host.IgnoresArguments := Host.ignoresArguments_reading time
    obtain ⟨V, h⟩ := (twin_initial .anyLine sink).after hhost hdeaf
      (List.forall₂_same.mpr fun call (_ : call ∈ calls) => .anyLine call)
    have hlater : List.Forall₂ (Call.Alike .anyLine) (.run depth source :: later)
        (.run depth source' :: later) :=
      .cons (.run hsource) (List.forall₂_same.mpr fun call _ => .anyLine call)
    exact Outcome.map_unlined_eq Token.Matching.anyLine.sameText (h.outcomes hhost hdeaf hlater)

theorem layout_decides_lines_only_at_call :
    let host := Host.reading fun _ => 0
    let s := initial .unbounded
    (s.outcomes host [.run 9 "\n x /* */ () ; // \n"]).map Outcome.unlined =
      (s.outcomes host [.run 9 "x();"]).map Outcome.unlined :=
  (layout_decides_lines_only (fun _ => 0) .unbounded [] "x();" "\n x /* */ () ; // \n" (by cbv)
    (by cbv) (by cbv)).2 9 []

end Session

end Treewalk
