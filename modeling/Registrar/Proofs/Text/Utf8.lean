import Registrar.Text.Bytes
import Mathlib.Data.List.Basic
import Mathlib.Tactic.SplitIfs

/-!
# Texts and their bytes

The bytes of a text are those of its characters one after another (`bytes_eq_flatMap`).  An ASCII
character is one byte, its number (`utf8EncodeChar_of_lt`), and no byte of another character can
be mistaken for one of ASCII (`le_of_mem_utf8EncodeChar`).
-/

namespace Registrar.Text

theorem bytes_ofList (cs : List Char) :
    bytes (String.ofList cs) = cs.flatMap String.utf8EncodeChar := by
  simp [bytes, List.utf8Encode]

theorem bytes_eq_flatMap (s : String) : bytes s = s.toList.flatMap String.utf8EncodeChar := by
  rw [← bytes_ofList, String.ofList_toList]

@[simp] theorem bytes_append (s t : String) : bytes (s ++ t) = bytes s ++ bytes t := by
  simp [bytes_eq_flatMap]

theorem bytes_join (texts : List String) : bytes (String.join texts) = texts.flatMap bytes := by
  rw [bytes_eq_flatMap, String.toList_join, List.flatMap_assoc]
  exact List.flatMap_congr fun s _ => (bytes_eq_flatMap s).symm

theorem bytes_toString_char (c : Char) : bytes c.toString = String.utf8EncodeChar c := by
  simp [bytes_eq_flatMap]

/-- The byte of an ASCII character. -/
def asciiByte (c : Char) : UInt8 :=
  UInt8.ofNat c.toNat

theorem toNat_asciiByte {c : Char} (h : c.toNat < 0x80) : (asciiByte c).toNat = c.toNat :=
  UInt8.toNat_ofNat_of_lt' (Nat.lt_trans h (by decide))

theorem asciiChar_asciiByte {c : Char} (h : c.toNat < 0x80) : asciiChar (asciiByte c) = c := by
  rw [asciiChar, toNat_asciiByte h, Char.ofNat_toNat]

theorem utf8EncodeChar_of_lt {c : Char} (h : c.toNat < 0x80) :
    String.utf8EncodeChar c = [asciiByte c] :=
  if_pos (Nat.le_of_lt_succ h)

theorem flatMap_utf8EncodeChar_of_lt {cs : List Char} (h : ∀ c ∈ cs, c.toNat < 0x80) :
    cs.flatMap String.utf8EncodeChar = cs.map asciiByte := by
  induction cs with
  | nil => rfl
  | cons c cs ih =>
    obtain ⟨hc, hcs⟩ := List.forall_mem_cons.mp h
    rw [List.flatMap_cons, utf8EncodeChar_of_lt hc, ih hcs]
    rfl

theorem le_of_mem_utf8EncodeChar {c : Char} (h : 0x80 ≤ c.toNat) {b : UInt8}
    (hb : b ∈ String.utf8EncodeChar c) : 0x80 ≤ b.toNat := by
  -- Every byte is a sum of a remainder and a mark of at least 0x80.
  have hmark : ∀ x m : Nat, 0x80 ≤ m → x + m < 0x100 → 0x80 ≤ (UInt8.ofNat (x + m)).toNat := by
    intro x m hm hlt
    rw [UInt8.toNat_ofNat_of_lt' hlt]
    omega
  unfold String.utf8EncodeChar at hb
  simp only at hb
  change 0x80 ≤ c.val.toNat at h
  rw [if_neg (by omega)] at hb
  split_ifs at hb with h2 h3
  all_goals
    simp only [List.mem_cons, List.not_mem_nil, or_false] at hb
  · rcases hb with rfl | rfl <;> exact hmark _ _ (by omega) (by omega)
  · rcases hb with rfl | rfl | rfl <;> exact hmark _ _ (by omega) (by omega)
  · rcases hb with rfl | rfl | rfl | rfl <;> exact hmark _ _ (by omega) (by omega)

end Registrar.Text
