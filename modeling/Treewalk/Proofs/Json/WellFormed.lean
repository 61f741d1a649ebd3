import Treewalk.Proofs.Json.Documents

/-! The text of every document is well-formed. -/

namespace Treewalk

open Json

namespace Document

variable {depth : Nat} {ws : List Char}

theorem hexDigit_digitChar : ∀ n < 16, HexDigit n.digitChar := by
  unfold HexDigit
  decide

/-- What is written for a character of a string stands for one. -/
theorem letter_escaped (c : Char) : Letter (escaped c) := by
  unfold escaped
  split
  · exact .escape (by simp)
  · exact .escape (by simp)
  · exact .escape (by simp)
  · exact .escape (by simp)
  · exact .escape (by simp)
  · exact .escape (by simp)
  · exact .escape (by simp)
  · next hquote hbackslash _ _ _ _ _ =>
    split
    · next hcontrol =>
      exact .code (.inl (by decide)) (.inl (by decide)) (hexDigit_digitChar _ (by omega))
        (hexDigit_digitChar _ (by omega))
    · next hcontrol => exact .plain (Nat.le_of_not_lt hcontrol) hquote hbackslash

theorem letters_contents (cs : List Char) : Letters (cs.flatMap escaped) := by
  induction cs with
  | nil => exact .nil
  | cons c cs ih => exact .cons (letter_escaped c) ih

theorem value_quoted (contents : String) : Value (quoted contents).toList := by
  rw [toList_quoted]
  exact .string (letters_contents _)

theorem blank_newline (depth : Nat) : Blank (newline depth).toList := by
  intro c hc
  rw [toList_newline] at hc
  obtain rfl | hc := List.mem_cons.mp hc
  · simp
  · rw [List.eq_of_mem_replicate hc]
    simp

theorem blank_nil : Blank [] := fun _ hc => absurd hc List.not_mem_nil

/-- Parts one to a line are many parts. -/
theorem many_following {α : Type} {text : α → List Char} (One Many : List Char → Prop)
    (hone : ∀ {s}, One s → Many s) (hmore : ∀ {s t}, One s → Many t → Many (s ++ ',' :: t))
    {first : α} {rest : List α}
    (hparts : ∀ a ∈ first :: rest, ∀ ws, Blank ws → One ((newline depth).toList ++ (text a ++ ws)))
    (hws : Blank ws) :
    Many ((newline depth).toList ++ (text first ++ (following depth text rest ++ ws))) := by
  obtain ⟨hfirst, hrest⟩ := List.forall_mem_cons.mp hparts
  induction rest generalizing first with
  | nil => exact hone (hfirst ws hws)
  | cons second rest ih =>
    obtain ⟨hsecond, hbehind⟩ := List.forall_mem_cons.mp hrest
    have hmany := hmore (hfirst [] blank_nil) (ih hrest hsecond hbehind)
    rw [following_cons]
    simpa using hmany

theorem value_array {items : List Document}
    (hitems : ∀ d ∈ items, ∀ depth, Value (d.render depth).toList) :
    Value ((array items).render depth).toList := by
  rw [toList_render_array]
  cases items with
  | nil => exact .emptyArray blank_nil
  | cons first rest =>
    have hparts : ∀ d ∈ first :: rest, ∀ ws, Blank ws →
        Element ((newline (depth + 1)).toList ++ ((d.render (depth + 1)).toList ++ ws)) := by
      intro d hd ws hws
      rw [← List.append_assoc]
      exact .spaced (blank_newline (depth + 1)) (hitems d hd (depth + 1)) hws
    have hmany := many_following Element Elements .one .more hparts (blank_newline depth)
    simpa [bracketed] using Value.array hmany

theorem member_render {m : Member} (hm : Value (m.value.render depth).toList) (hws : Blank ws) :
    Json.Member ((newline depth).toList ++ ((m.render depth).toList ++ ws)) := by
  have hspace : Blank [' '] := List.forall_mem_singleton.mpr (by simp)
  have hnamed := Json.Member.named (blank_newline depth) (letters_contents m.name.toList) blank_nil
    (.spaced hspace hm hws)
  rw [toList_render_member, toList_quoted]
  simpa using hnamed

theorem value_object {members : List Member}
    (hmembers : ∀ m ∈ members, ∀ depth, Value (m.value.render depth).toList) :
    Value ((object members).render depth).toList := by
  rw [toList_render_object]
  cases members with
  | nil => exact .emptyObject blank_nil
  | cons first rest =>
    have hparts : ∀ m ∈ first :: rest, ∀ ws, Blank ws →
        Json.Member ((newline (depth + 1)).toList ++ ((m.render (depth + 1)).toList ++ ws)) :=
      fun m hm _ hws => member_render (hmembers m hm (depth + 1)) hws
    have hmany := many_following Json.Member Members .one .more hparts (blank_newline depth)
    simpa [bracketed] using Value.object hmany

theorem value_bare {d : Document} (h : d.mark? = none) : Value (d.render depth).toList := by
  obtain ⟨-, hbare⟩ | ⟨c, w, hmark, -⟩ := d.bare_or_mark depth
  · obtain ⟨-, htext⟩ | hnumber := hbare.number
    · rw [htext]
      exact .null
    · exact .number hnumber
  · cases h.symm.trans hmark

theorem value_render (d : Document) : ∀ depth, Value (d.render depth).toList := by
  have hinherited : Inherited fun d => ∀ depth, Value (d.render depth).toList := {
    null := fun _ => value_bare rfl
    string := fun contents _ => value_quoted contents
    natural := fun _ _ => value_bare rfl
    double := fun _ _ => value_bare rfl
    array := fun hitems _ => value_array hitems
    object := fun hmembers _ => value_object hmembers }
  exact hinherited.all d

/-- The text of a document is well-formed. -/
theorem text_pretty (d : Document) : Text d.pretty := by
  have htext := Element.spaced blank_nil (d.value_render 0) blank_nil
  simpa [Text, pretty] using htext

end Document

end Treewalk
