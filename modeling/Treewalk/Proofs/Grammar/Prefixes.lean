import Treewalk.Proofs.Grammar.Depth

/-! Prefixes. Whether a declaration that is read ends where it does depends on one thing behind it, an
`else`. What the parser makes of the tokens behind a well formed prefix is what it makes of them alone,
whatever is wrong with them. -/

namespace Treewalk

namespace Rule

/-- Declarations that have a reading are read, and the program goes on behind them. -/
theorem program_of_reads {ss : List Stmt} {i : NodeId} {ts : List Token} {c : Cursor} {n : Nat}
    (h : Reads (.declarations ss) i ts c.nextId) (hnext : ¬c.Faces (.keyword .elseWord))
    (hdepth : parsingDepth (ts.length + c.ahead.length) ≤ n) :
    ∃ k, parsingDepth c.ahead.length ≤ k ∧
      program n (c.rewind ts i) = (program k >>= fun others => pure (ss ++ others)) c := by
  induction ss generalizing i ts n with
  | nil =>
    cases h
    rw [List.length_nil, Nat.zero_add] at hdepth
    refine ⟨n, hdepth, ?_⟩
    simp
  | cons s ss ih =>
    cases h with
    | @declarationsCons _ _ _ us j vs _ hread hrest =>
    obtain ⟨t, us, rfl, -⟩ := hread.starts rfl
    simp only [parsingDepth, List.length_append, List.length_cons] at hdepth ih
    obtain ⟨n, rfl⟩ : ∃ m, n = m + 1 := ⟨n - 1, by omega⟩
    have hfirst : declaration n ((c.rewind vs j).rewind (t :: us) i) = .ok (some s) (c.rewind vs j) :=
      hread.accepted (c := c.rewind vs j) rfl
        (by simp only [Phrase.rank, List.length_cons]; omega)
        (by simpa [Phrase.Stops, Phrase.continues] using hrest.not_faces_else hnext)
    obtain ⟨k, hk, hgo⟩ := ih (n := n) hrest (by omega)
    refine ⟨k, hk, ?_⟩
    rw [Cursor.rewind_append c (t :: us) vs i j, program_of_declaration (by simp) hfirst,
      bind_eq_of_eq hgo, bind_assoc]
    simp

end Rule

/-- Behind a prefix that is accepted, the parser finds wrong what it finds wrong in the remaining tokens
alone. The program is that of the prefix and then that of the remaining tokens, numbered from where the
prefix ends. -/
theorem parse_behind_accepted {p q : List Token} {finish finish' : Token} {i : NodeId}
    (haccepted : (parse p finish' i).faults = [])
    (hnext : ∀ t ∈ q.head?, t.terminal ≠ .keyword .elseWord) :
    let before := parse p finish' i
    let behind := parse q finish before.nextId
    parse (p ++ q) finish i = ⟨before.program ++ behind.program, behind.faults, behind.nextId⟩ ∧
      ∀ k, (parse (p ++ q) finish i).faults = (parse q finish k).faults := by
  intro before behind
  have hwhole : parse (p ++ q) finish i =
      ⟨before.program ++ behind.program, behind.faults, behind.nextId⟩ := by
    have hread : Reads (.declarations before.program) i p before.nextId := reads_of_parse haccepted
    obtain ⟨k, hk, hrun⟩ := Rule.program_of_reads (c := ⟨q, finish, before.nextId, []⟩) hread
      (by simpa [Cursor.Faces] using hnext) le_rfl
    obtain ⟨c, hbehind, -, hfaults, hnextId⟩ := program_eq_parse finish before.nextId hk
    rw [bind_of_ok hbehind, pure_apply, Cursor.rewind, ← List.length_append] at hrun
    simp only [parse, hrun, behind, hfaults, hnextId]
  refine ⟨hwhole, fun k => ?_⟩
  rw [hwhole]
  exact (parse_renumbered q finish before.nextId k).1.symm

/-- The `if` in front of `print ; b;` might have gone on with an `else`. It is read, and so is the name
behind the fault, as the third occurrence. -/
theorem parse_behind_accepted_if :
    let a : Token := ⟨.identifier, "a", 1⟩
    let b : Token := ⟨.identifier, "b", 2⟩
    let semi : Token := ⟨.punct .semicolon, ";", 1⟩
    let p : List Token := [⟨.keyword .ifWord, "if", 1⟩, ⟨.punct .leftParen, "(", 1⟩, a,
      ⟨.punct .rightParen, ")", 1⟩, a, semi]
    let q : List Token := [⟨.keyword .printWord, "print", 2⟩, semi, b, semi]
    let finish : Token := ⟨.eof, "", 2⟩
    (parse p finish 0).faults = [] ∧ (∀ t ∈ q.head?, t.terminal ≠ .keyword .elseWord) ∧
      parse (p ++ q) finish 0 =
        ⟨[.branch (.variable ⟨0, a⟩) (.expression (.variable ⟨1, a⟩)) none,
          .expression (.variable ⟨2, b⟩)], [.parse semi .expression], 3⟩ := by
  intro a b semi p q finish
  have haccepted : (parse p finish 0).faults = [] := by cbv
  have hnext : ∀ t ∈ q.head?, t.terminal ≠ .keyword .elseWord := by
    rintro t ⟨⟩
    decide
  exact ⟨haccepted, hnext, (parse_behind_accepted haccepted hnext).1.trans (by cbv)⟩

end Treewalk
