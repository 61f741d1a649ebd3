import Mathlib.Data.List.Forall2
import Treewalk.Outline
import Treewalk.Source.Piece

/-! The marks of an outline: parentheses, and words between blanks and parentheses. A text is told by
marks piece by piece, and nested lists of words are put together again from their marks. -/

namespace Treewalk

namespace Outline

open Source

/-- A parenthesis or a word. -/
inductive Mark
  | opening
  | closing
  | word (text : String)

/-- Neither a blank nor a parenthesis. -/
def inWord (c : Char) : Bool := !isBlank c && c != '(' && c != ')'

/-- The word that ends here, if there is one. -/
def finished (word : List Char) : List Mark :=
  if word = [] then [] else [.word (.ofList word)]

/-- The marks of a text, some of a word being read before. -/
def marksFrom : (word : List Char) → List Char → List Mark
  | word, [] => finished word
  | word, c :: s =>
    if c = '(' then finished word ++ .opening :: marksFrom [] s
    else if c = ')' then finished word ++ .closing :: marksFrom [] s
    else if isBlank c then finished word ++ marksFrom [] s
    else marksFrom (word ++ [c]) s

/-- The marks of a text. -/
def marks (s : List Char) : List Mark := marksFrom [] s

/-- A word that comes before the text goes no further. -/
def Stops (s : List Char) : Prop := ∀ c ∈ s.head?, inWord c = false

/-- A text that is one word. -/
def Solid (text : String) : Prop := text.toList ≠ [] ∧ ∀ c ∈ text.toList, inWord c = true

instance (text : String) : Decidable (Solid text) :=
  decidable_of_iff ((!text.toList.isEmpty && text.toList.all inWord) = true) (by simp [Solid])

/-- The text has these marks, if no word at its end goes on. -/
def Tells (text : String) (ms : List Mark) : Prop :=
  ∀ s, Stops s → marks (text.toList ++ s) = ms ++ marks s

/-- The text has these marks, whatever follows. -/
def Ready (text : String) (ms : List Mark) : Prop :=
  ∀ s, marks (text.toList ++ s) = ms ++ marks s

theorem marksFrom_append {w : List Char} (h : ∀ c ∈ w, inWord c = true) (word s : List Char) :
    marksFrom word (w ++ s) = marksFrom (word ++ w) s := by
  induction w generalizing word with
  | nil => rw [List.nil_append, List.append_nil]
  | cons c w ih =>
    obtain ⟨hc, hw⟩ := List.forall_mem_cons.mp h
    simp only [inWord, Bool.and_eq_true, Bool.not_eq_true', bne_iff_ne] at hc
    obtain ⟨⟨hblank, hopening⟩, hclosing⟩ := hc
    rw [List.cons_append, marksFrom, if_neg hopening, if_neg hclosing,
      if_neg (by rw [hblank]; decide), ih hw, List.append_assoc]
    rfl

theorem marksFrom_of_stops {s : List Char} (h : Stops s) (word : List Char) :
    marksFrom word s = finished word ++ marks s := by
  cases s with
  | nil => exact (List.append_nil _).symm
  | cons c s =>
    have hc := h c rfl
    rw [marks, marksFrom, marksFrom]
    split
    · rfl
    split
    · rfl
    split
    · rfl
    · next hopening hclosing hblank =>
      simp [inWord, hopening, hclosing, hblank] at hc

section
variable {text other : String} {ms ms' : List Mark}

theorem tells_word (h : Solid text) : Tells text [.word text] := by
  intro s hs
  rw [marks, marksFrom_append h.2, List.nil_append, marksFrom_of_stops hs, finished, if_neg h.1,
    String.ofList_toList]

theorem Ready.tells (h : Ready text ms) : Tells text ms := fun s _ => h s

theorem ready_opening : Ready "(" [.opening] := fun _ => rfl

theorem Ready.append (h : Ready text ms) (h' : Tells other ms') :
    Tells (text ++ other) (ms ++ ms') := by
  intro s hs
  rw [String.toList_append, List.append_assoc, h, h' s hs, List.append_assoc]

theorem Tells.append (h : Tells text ms) (h' : Ready other ms')
    (hother : ∀ s, Stops (other.toList ++ s)) : Ready (text ++ other) (ms ++ ms') := by
  intro s
  rw [String.toList_append, List.append_assoc, h _ (hother s), h', List.append_assoc]

theorem Tells.blank (h : Tells text ms) : Ready (text ++ " ") ms := by
  have hblank : Ready " " [] := fun _ => rfl
  have happend := h.append hblank fun _ _ => by rintro ⟨⟩; rfl
  rwa [List.append_nil] at happend

theorem Tells.newline (h : Tells text ms) : Ready (text ++ "\n") ms := by
  have hnewline : Ready "\n" [] := fun _ => rfl
  have happend := h.append hnewline fun _ _ => by rintro ⟨⟩; rfl
  rwa [List.append_nil] at happend

theorem Tells.opens (h : Tells text ms) : Ready (text ++ "(") (ms ++ [.opening]) :=
  h.append (fun _ => rfl) fun _ _ => by rintro ⟨⟩; rfl

theorem Tells.closes (h : Tells text ms) : Ready (text ++ ")") (ms ++ [.closing]) :=
  h.append (fun _ => rfl) fun _ _ => by rintro ⟨⟩; rfl

theorem Tells.closesBlank (h : Tells text ms) : Ready (text ++ ") ") (ms ++ [.closing]) :=
  h.append (fun _ => rfl) fun _ _ => by rintro ⟨⟩; rfl

theorem Tells.less (h : Tells text ms) : Ready (text ++ " < ") (ms ++ [.word "<"]) :=
  h.append (fun _ => rfl) fun _ _ => by rintro ⟨⟩; rfl

/-- Texts with a blank in front of each. -/
theorem Tells.spaced {texts : List String} {mss : List (List Mark)} (h : Tells text ms)
    (hall : List.Forall₂ Tells texts mss) : Tells (text ++ spaced texts) (ms ++ mss.flatten) := by
  induction hall generalizing text ms with
  | nil =>
    rw [List.flatten_nil, List.append_nil]
    exact String.append_empty.symm ▸ h
  | @cons t _ _ _ ht _ ih =>
    have hrest := ih (h.blank.append ht)
    rw [String.append_assoc, String.append_assoc, List.append_assoc] at hrest
    rwa [Treewalk.spaced, List.foldr_cons, String.append_assoc, List.flatten_cons]

/-- Texts with a blank between them. -/
theorem tells_separated {texts : List String} {mss : List (List Mark)} {separator : String}
    (hseparator : ∀ {text ms}, Tells text ms → Ready (text ++ separator) ms)
    (hall : List.Forall₂ Tells texts mss) : Tells (separated separator texts) mss.flatten := by
  induction hall with
  | nil =>
    intro s _
    rw [separated, String.intercalate_nil]
    rfl
  | cons ht hrest ih =>
    cases hrest with
    | nil => rwa [separated, String.intercalate_singleton, List.flatten_cons, List.flatten_nil,
        List.append_nil]
    | cons =>
      rw [separated, String.intercalate_cons_cons, List.flatten_cons]
      exact (hseparator ht).append ih

end

/-! ### Nested words -/

/-- A word, or a list in parentheses. -/
inductive Shape
  | word (text : String)
  | node (parts : List Shape)

mutual

def Shape.marks : Shape → List Mark
  | .word text => [.word text]
  | .node parts => .opening :: (Shape.allMarks parts ++ [.closing])

def Shape.allMarks : List Shape → List Mark
  | [] => []
  | s :: rest => s.marks ++ Shape.allMarks rest

end

attribute [simp] Shape.marks Shape.allMarks

theorem Shape.allMarks_eq (ss : List Shape) : Shape.allMarks ss = (ss.map Shape.marks).flatten := by
  induction ss with
  | nil => rfl
  | cons s rest ih => rw [Shape.allMarks, ih, List.map_cons, List.flatten_cons]

/-- What words and parentheses are put together to: `outer` are the lists that are open, each in
reverse, and `inner` is the innermost one. -/
def gather : (outer : List (List Shape)) → (inner : List Shape) → List Mark → List Shape
  | _, inner, [] => inner.reverse
  | outer, inner, .word text :: ms => gather outer (.word text :: inner) ms
  | outer, inner, .opening :: ms => gather (inner :: outer) [] ms
  | next :: outer, inner, .closing :: ms => gather outer (.node inner.reverse :: next) ms
  | [], inner, .closing :: _ => inner.reverse

mutual

theorem gather_marks (outer : List (List Shape)) (inner : List Shape) (ms : List Mark) :
    (s : Shape) → gather outer inner (s.marks ++ ms) = gather outer (s :: inner) ms
  | .word _ => rfl
  | .node parts => by
    have hparts := gather_allMarks (inner :: outer) [] (.closing :: ms) parts
    rw [List.append_nil] at hparts
    rw [Shape.marks, List.cons_append, List.append_assoc, gather]
    refine hparts.trans ?_
    rw [gather, List.reverse_reverse]

theorem gather_allMarks (outer : List (List Shape)) (inner : List Shape) (ms : List Mark) :
    (ss : List Shape) → gather outer inner (Shape.allMarks ss ++ ms) =
      gather outer (ss.reverse ++ inner) ms
  | [] => rfl
  | s :: rest => by
    rw [Shape.allMarks, List.append_assoc, gather_marks outer inner _ s,
      gather_allMarks outer (s :: inner) ms rest, List.reverse_cons, List.append_assoc]
    rfl

end

/-- What is put together from the marks of a text. -/
def shapes (text : String) : List Shape := gather [] [] (marks text.toList)

theorem shapes_of_tells {text : String} {ss : List Shape} (h : Tells text (Shape.allMarks ss)) :
    shapes text = ss := by
  have hmarks := h [] nofun
  have hall := gather_allMarks [] [] [] ss
  rw [List.append_nil] at hmarks hall
  rw [shapes, hmarks, show marks [] = [] from rfl, List.append_nil, hall, gather, List.append_nil,
    List.reverse_reverse]

end Outline

end Treewalk
