import Mathlib.Data.List.Basic
import Treewalk.Store

/-! Names in the order of their bytes. UTF-8 keeps the order of characters, so texts that are in order
character by character are in order byte by byte, and so are the names in a listing. -/

namespace Treewalk

/-- The bytes of a text. -/
def octets (s : String) : List UInt8 := s.toUTF8.data.toList

theorem octets_eq (s : String) : octets s = s.toList.flatMap String.utf8EncodeChar := by
  rw [octets, String.toUTF8, ← String.utf8Encode_toList, List.utf8Encode, List.toList_data_toByteArray]

/-- Different characters differ in their bytes the way they differ, whatever follows them. -/
theorem utf8EncodeChar_lt {c d : Char} (h : c < d) (s t : List UInt8) :
    String.utf8EncodeChar c ++ s < String.utf8EncodeChar d ++ t := by
  have hval : c.val.toNat < d.val.toNat := UInt32.lt_iff_toNat_lt.mp h
  have hmax : d.val.toNat < 0x110000 := by
    obtain hlt | ⟨-, hlt⟩ := d.valid
    · exact Nat.lt_trans hlt (by decide)
    · exact hlt
  -- Of two characters with as many bytes the first different digit decides, and else the first byte,
  -- which is larger the more bytes follow it.
  unfold String.utf8EncodeChar
  dsimp only
  split_ifs <;>
    simp only [List.cons_append, List.nil_append, List.cons_lt_cons_iff, UInt8.lt_iff_toNat_lt,
      ← UInt8.toNat_inj, UInt8.toNat_ofNat']
  all_goals
    simp (disch := omega) only [Nat.mod_eq_of_lt]
    omega

theorem flatMap_utf8EncodeChar_lt {s t : List Char} (h : s < t) :
    s.flatMap String.utf8EncodeChar < t.flatMap String.utf8EncodeChar := by
  have hlex : List.Lex (· < ·) s t := h
  induction hlex with
  | @nil d t =>
    obtain ⟨byte, rest, hbytes⟩ := List.exists_cons_of_length_pos (l := String.utf8EncodeChar d)
      (by rw [String.length_utf8EncodeChar]; exact d.utf8Size_pos)
    rw [List.flatMap_nil, List.flatMap_cons, hbytes]
    exact List.nil_lt_cons _ _
  | rel hlt =>
    rw [List.flatMap_cons, List.flatMap_cons]
    exact utf8EncodeChar_lt hlt _ _
  | cons hrest ih =>
    rw [List.flatMap_cons, List.flatMap_cons]
    exact List.append_left_lt (ih hrest)

theorem octets_lt {a b : String} (h : a < b) : octets a < octets b := by
  rw [octets_eq, octets_eq]
  exact flatMap_utf8EncodeChar_lt h

namespace Store

variable {s : Store} {f : FrameId}

/-- The listing of a frame has the cells of the frame, and no others. -/
theorem mem_bindings_iff {name : String} {v : Value} :
    (name, v) ∈ s.bindings f ↔ s.binding? f name = some v := by
  unfold bindings binding?
  cases s.frames[f]? with
  | none => simp
  | some frame => exact Std.TreeMap.mem_toList_iff_getElem?_eq_some

/-- A listing goes strictly upward in the bytes of the names. -/
theorem bindings_ascend (s : Store) (f : FrameId) :
    (s.bindings f).Pairwise fun a b => octets a.1 < octets b.1 := by
  unfold bindings
  cases s.frames[f]? with
  | none => exact .nil
  | some frame =>
    refine frame.bindings.ordered_keys_toList.imp fun hlt => octets_lt ?_
    exact compareOfLessAndEq_eq_lt.mp hlt

end Store

end Treewalk
