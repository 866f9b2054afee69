import Mathlib
import ApiTypings.Text.Case

/-! # Letters and digits

Letters and digits are ASCII characters, and in upper case such a character is a single one. A
capitalized text differs in its first letter alone.
-/

namespace ApiTypings.Text

variable {c : Char}

theorem toNat_lt_of_isAlphanum (h : c.isAlphanum = true) : c.toNat < 0x7F := by
  simp only [Char.isAlphanum, Char.isAlpha, Char.isUpper, Char.isLower, Char.isDigit,
    Bool.or_eq_true, Bool.and_eq_true, decide_eq_true_eq, ge_iff_le, UInt32.le_iff_toNat_le] at h
  have hz : c.toNat ≤ 'Z'.toNat ∨ c.toNat ≤ 'z'.toNat ∨ c.toNat ≤ '9'.toNat := by tauto
  have : 'Z'.toNat < 0x7F ∧ 'z'.toNat < 0x7F ∧ '9'.toNat < 0x7F := by decide
  omega

theorem upper_of_lt (h : c.toNat < 128) : upper c = [c.toUpper] := if_pos h

theorem forall_mem_capitalize {valid : Char → Prop} {s : String}
    (h : ∀ c ∈ s.toList, valid c ∧ ∀ d ∈ upper c, valid d) :
    ∀ c ∈ (capitalize s).toList, valid c := by
  unfold capitalize
  intro d hd
  split at hd
  · simp at hd
  · rename_i c rest hs
    rw [hs, List.forall_mem_cons] at h
    rw [String.toList_ofList, List.mem_append] at hd
    rcases hd with hd | hd
    · exact h.1.2 d hd
    · exact (h.2 d hd).1

theorem capitalize_append {s : String} (h : s ≠ "") (t : String) :
    capitalize (s ++ t) = capitalize s ++ t := by
  have hs : s.toList ≠ [] := by simpa using h
  obtain ⟨c, rest, hc⟩ := List.exists_cons_of_ne_nil hs
  apply String.toList_injective
  simp [capitalize, String.toList_append, hc]

end ApiTypings.Text
