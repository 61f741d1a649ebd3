import Treewalk.Proofs.Source.Ahead
import Treewalk.Source.Item

/-! The seam between two texts. If a text ends neither in an open comment nor in an open string,
then a newline behind it is a piece by itself: what stands before the newline and what stands behind
it are scanned as if they were alone, but for the lines. -/

namespace Treewalk

namespace Source

/-- The text does not end inside a block comment. -/
def Closed (source : String) : Prop :=
  ∀ p ∈ pieces source.toList, ¬p.Open

theorem Ahead.newline (s t : List Char) : Ahead s (s ++ '\n' :: t) := by
  cases s with
  | nil => exact .inl rfl
  | cons c rest => exact .refl c _ _

/-- A newline that is added behind the last piece changes nothing for it. -/
theorem Follows.newline (s t : List Char) : Follows s (s ++ '\n' :: t) where
  ahead := .newline s t
  point := by
    intro hpoint
    obtain ⟨rest, rfl⟩ := List.head?_eq_some_iff.mp hpoint
    exact .newline rest t

theorem pieces_append_newline {s : List Char} (hends : ∀ p ∈ pieces s, ¬GoesOn p) (t : List Char) :
    pieces (s ++ '\n' :: t) = pieces s ++ .blank '\n' :: pieces t := by
  fun_induction pieces s with
  | case1 =>
    rw [List.nil_append, pieces_cons]
    rfl
  | case2 c s ih =>
    rw [List.forall_mem_cons] at hends
    obtain ⟨u, htext, hcut⟩ := cut_follows (.newline (cut c s).2 t) fun hend => absurd hend hends.1
    rw [← List.append_assoc, tail_append htext] at hcut
    rw [List.cons_append, pieces_cons, hcut, ih hends.2, List.cons_append]

/-- A text without lexical faults has no open string. -/
theorem ne_unterminated {source : String} (h : faults source = []) :
    ∀ p ∈ pieces source.toList, ∀ text, p ≠ .unterminated text := by
  rintro p hp text rfl
  have hitem (line : Nat) (ps : List Piece) (hmem : .unterminated text ∈ ps) :
      ∃ line', .fault line' .unterminatedString ∈ itemsFrom line ps := by
    induction ps generalizing line with
    | nil => cases hmem
    | cons q rest ih =>
      rw [itemsFrom_cons]
      obtain rfl | hmem := List.mem_cons.mp hmem
      · exact ⟨_, List.mem_append_left _ (Option.mem_toList.mpr rfl)⟩
      · obtain ⟨line', hline⟩ := ih _ hmem
        exact ⟨line', List.mem_append_right _ hline⟩
  obtain ⟨line, hline⟩ := hitem 1 _ hp
  have hfault : Diagnostic.lex line .unterminatedString ∈ faults source :=
    List.mem_filterMap.mpr ⟨_, hline, rfl⟩
  rw [h] at hfault
  cases hfault

end Source

/-- The same token, some lines further down. -/
def Token.down (lines : Nat) (t : Token) : Token := { t with line := t.line + lines }

namespace Source

def Item.down (lines : Nat) : Item → Item
  | .token t => .token (t.down lines)
  | .fault line found => .fault (line + lines) found

theorem item?_down (line lines : Nat) (p : Piece) :
    item? (line + lines) p = (item? line p).map (Item.down lines) := by
  cases p <;> rfl

/-- Lines are counted on from where a text starts. -/
theorem itemsFrom_down (line lines : Nat) (ps : List Piece) :
    itemsFrom (line + lines) ps = (itemsFrom line ps).map (Item.down lines) := by
  induction ps generalizing line with
  | nil => rfl
  | cons p rest ih =>
    rw [itemsFrom_cons, itemsFrom_cons, Nat.add_right_comm, item?_down, ih, List.map_append,
      Option.toList_map]

/-- The text below some empty lines. -/
def below (lines : Nat) (source : String) : String :=
  String.ofList (List.replicate lines '\n') ++ source

theorem itemsFrom_below (line lines : Nat) (s : List Char) :
    itemsFrom line (pieces (List.replicate lines '\n' ++ s)) =
      itemsFrom (line + lines) (pieces s) := by
  induction lines generalizing line with
  | zero => rfl
  | succ lines ih =>
    rw [List.replicate_succ, List.cons_append, pieces_cons,
      show cut '\n' (List.replicate lines '\n' ++ s) = (.blank '\n', List.replicate lines '\n' ++ s)
      from rfl, itemsFrom_cons, ih, Nat.add_assoc, Nat.add_comm lines]
    rfl

theorem items_below (lines : Nat) (source : String) :
    items (below lines source) = (items source).map (Item.down lines) := by
  rw [items, below, String.toList_append, String.toList_ofList, itemsFrom_below, itemsFrom_down, items]

theorem tokens_below (lines : Nat) (source : String) :
    tokens (below lines source) = (tokens source).map (Token.down lines) := by
  rw [tokens, items_below, List.filterMap_map, tokens, List.map_filterMap]
  congr 1
  funext item
  cases item <;> rfl

theorem faults_below {source : String} (h : faults source = []) (lines : Nat) :
    faults (below lines source) = [] := by
  rw [faults, List.filterMap_eq_nil_iff] at h
  rw [faults, items_below, List.filterMap_eq_nil_iff, List.forall_mem_map]
  intro item hitem
  have hnone := h item hitem
  cases item with
  | token t => rfl
  | fault => cases hnone

theorem endMark_below (lines : Nat) (source : String) :
    endMark (below lines source) = (endMark source).down lines := by
  have hcount : newlines (List.replicate lines '\n') = lines := List.count_replicate_self
  rw [endMark, below, String.toList_append, String.toList_ofList, newlines_append, hcount, endMark,
    Token.down, Nat.add_assoc, Nat.add_comm lines]

/-- A text that is put on a new line behind another one is scanned as if it were alone. -/
theorem items_join {a : String} (hclosed : Closed a) (hfaults : faults a = []) (b : String) :
    items (a ++ "\n" ++ b) = items a ++ items (below (newlines a.toList + 1) b) := by
  have htext : (a ++ "\n" ++ b).toList = a.toList ++ '\n' :: b.toList := by
    simp [String.toList_append]
  have hline : newlines ((pieces a.toList).flatMap Piece.text) = newlines a.toList := by
    rw [flatMap_text_pieces]
  have hends (p : Piece) (hp : p ∈ pieces a.toList) : ¬GoesOn p := by
    cases p with
    | unterminated text => exact absurd rfl (ne_unterminated hfaults _ hp text)
    | _ => exact hclosed _ hp
  rw [items, htext, pieces_append_newline hends, itemsFrom_append, hline,
    items, items, below, String.toList_append, String.toList_ofList, itemsFrom_below,
    itemsFrom_cons, Nat.add_assoc]
  rfl

theorem tokens_join {a : String} (hclosed : Closed a) (hfaults : faults a = []) (b : String) :
    tokens (a ++ "\n" ++ b) = tokens a ++ tokens (below (newlines a.toList + 1) b) := by
  rw [tokens, items_join hclosed hfaults, List.filterMap_append]
  rfl

theorem faults_join {a : String} (hclosed : Closed a) (hfaults : faults a = []) (b : String) :
    faults (a ++ "\n" ++ b) = faults (below (newlines a.toList + 1) b) := by
  rw [faults, items_join hclosed hfaults, List.filterMap_append]
  exact congrArg (· ++ faults (below (newlines a.toList + 1) b)) hfaults

end Source

end Treewalk
