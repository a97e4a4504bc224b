import Mathlib.Data.List.Lex
import Mathlib.Data.String.Basic
import Mathlib.Order.Monotone.Basic

/-!
# The order of texts by their bytes

Texts are ordered by characters. The order of their UTF-8 bytes is the same, since of two
characters the greater one has the greater byte at the first place where their bytes differ.
-/
namespace RowPolicy

/-- The bytes of a character in UTF-8, as numbers. -/
def charBytes (c : Char) : List Nat := (String.utf8EncodeChar c).map UInt8.toNat

/-- The bytes of a text in UTF-8, as numbers. -/
def utf8 (s : String) : List Nat := s.toUTF8.data.toList.map UInt8.toNat

theorem utf8_eq_flatMap (s : String) : utf8 s = s.toList.flatMap charBytes := by
  rw [utf8, String.toUTF8_eq_toByteArray, ← String.utf8Encode_toList]
  simp [List.utf8Encode, List.map_flatMap]
  rfl

/-- The bytes of the lesser character are no beginning of the other's, so what follows them has no
say. -/
theorem charBytes_append_lt {c d : Char} (h : c < d) (xs ys : List Nat) :
    charBytes c ++ xs < charBytes d ++ ys := by
  have hlt : c.val.toNat < d.val.toNat := h
  have hd := d.valid
  simp only [UInt32.isValidChar, Nat.isValidChar] at hd
  have sextets (n : Nat) : n / 4096 = n / 64 / 64 ∧ n / 262144 = n / 64 / 64 / 64 := by omega
  unfold charBytes String.utf8EncodeChar
  simp only
  split_ifs <;>
    simp only [List.map_cons, List.map_nil, List.cons_append, List.nil_append,
      List.cons_lt_cons_iff, UInt8.toNat_ofNat', sextets] <;>
    omega

theorem flatMap_charBytes_lt {cs ds : List Char} (h : cs < ds) :
    cs.flatMap charBytes < ds.flatMap charBytes := by
  induction h with
  | @nil d ds =>
    rw [List.flatMap_nil, List.flatMap_cons, charBytes]
    cases hd : String.utf8EncodeChar d with
    | nil => exact absurd hd String.utf8EncodeChar_ne_nil
    | cons b bs => exact List.nil_lt_cons _ _
  | rel h => exact charBytes_append_lt h _ _
  | cons _ ih => exact List.append_left_lt ih

theorem utf8_strictMono : StrictMono utf8 := by
  intro s t h
  rw [utf8_eq_flatMap, utf8_eq_flatMap]
  exact flatMap_charBytes_lt (String.lt_iff_toList_lt.mp h)

theorem utf8_le_iff {s t : String} : utf8 s ≤ utf8 t ↔ s ≤ t := utf8_strictMono.le_iff_le

end RowPolicy
