import Mathlib
import ApiTypings.Url.Parse

/-! # Encoded text

The signs of an encoded byte stand in no set of characters to encode, so that nothing is encoded
twice. No byte of an encoded character reads as a dot.
-/

namespace ApiTypings.Url

variable {c : Char} {s : List Char} {p : Char → Bool}

theorem lt_of_not_isControl (h : isControl c = false) (hs : c ≠ ' ') : 0x20 < c.toNat := by
  simp only [isControl, Bool.or_eq_false_iff, decide_eq_false_iff_not] at h
  have hs : c.toNat ≠ 0x20 := fun hn => hs (Char.toNat_inj.mp hn)
  omega

theorem lt_of_not_inPath (h : inPath c = false) : 0x20 < c.toNat := by
  simp only [inPath, inFragment, Bool.or_eq_false_iff, beq_eq_false_iff_ne] at h
  exact lt_of_not_isControl (by tauto) (by tauto)

theorem encode_eq_self (h : ∀ c ∈ s, p c = false) : encode p s = s := by
  induction s with
  | nil => rfl
  | cons a s ih =>
    obtain ⟨ha, h⟩ := List.forall_mem_cons.mp h
    have ih := ih h
    simp only [encode, List.flatMap_cons, ha] at ih ⊢
    rw [ih]
    rfl

theorem mem_hexDigits {w n : Nat} (h : c ∈ Text.hexDigits w n) : ∃ m < 16, c = Text.hexDigit m := by
  induction w generalizing n with
  | zero => cases h
  | succ w ih =>
    rw [Text.hexDigits, List.mem_append, List.mem_singleton] at h
    rcases h with h | rfl
    · exact ih h
    · exact ⟨n % 16, Nat.mod_lt n (by decide), rfl⟩

/-- A set without the signs of encoded bytes. -/
def KeepsBytes (p : Char → Bool) : Prop := p '%' = false ∧ ∀ m < 16, p (Text.hexDigit m) = false

instance (p : Char → Bool) : Decidable (KeepsBytes p) := inferInstanceAs (Decidable (_ ∧ _))

theorem keepsBytes_isControl : KeepsBytes isControl := by decide

theorem keepsBytes_inFragment : KeepsBytes inFragment := by decide

theorem keepsBytes_inPath : KeepsBytes inPath := by decide

theorem keepsBytes_inUserinfo : KeepsBytes inUserinfo := by decide

theorem mem_encode (h : c ∈ encode p s) :
    c ∈ s ∧ p c = false ∨ c = '%' ∨ ∃ m < 16, c = Text.hexDigit m := by
  obtain ⟨a, ha, h⟩ := List.mem_flatMap.mp h
  split_ifs at h with hp
  · obtain ⟨b, -, h⟩ := List.mem_flatMap.mp h
    exact .inr ((List.mem_cons.mp h).imp_right mem_hexDigits)
  · obtain rfl := List.mem_singleton.mp h
    exact .inl ⟨ha, by simpa using hp⟩

theorem not_of_mem_encode (hp : KeepsBytes p) (h : c ∈ encode p s) : p c = false := by
  obtain ⟨-, h⟩ | rfl | ⟨m, hm, rfl⟩ := mem_encode h
  · exact h
  · exact hp.1
  · exact hp.2 m hm

theorem encode_encode (hp : KeepsBytes p) (s : List Char) : encode p (encode p s) = encode p s :=
  encode_eq_self fun _ h => not_of_mem_encode hp h

theorem encode_append (p : Char → Bool) (s t : List Char) :
    encode p (s ++ t) = encode p s ++ encode p t :=
  List.flatMap_append

theorem encode_singleton (p : Char → Bool) (c : Char) :
    encode p [c] = if p c then (String.utf8EncodeChar c).flatMap hexByte else [c] := by
  simp [encode]

/-- The first byte of a character that is not ASCII is beyond all that are. -/
theorem exists_utf8EncodeChar (c : Char) :
    ∃ b bs, String.utf8EncodeChar c = b :: bs ∧ (c.toNat < 128 → b.toNat = c.toNat) ∧
      (128 ≤ c.toNat → 128 ≤ b.toNat) := by
  have hv : c.val.toNat = c.toNat := rfl
  simp only [String.utf8EncodeChar, hv]
  split_ifs with h₁ h₂ h₃ <;> refine ⟨_, _, rfl, fun h => ?_, fun h => ?_⟩ <;>
    first | omega | (rw [UInt8.toNat_ofNat']; omega)

/-- An encoded character begins with a byte of its own. -/
theorem exists_encode (h : p c = true) (hc : c ≠ '.') :
    ∃ b : UInt8, b.toNat ≠ '.'.toNat ∧ ∃ s, encode p [c] = hexByte b ++ s := by
  obtain ⟨b, bs, he, h₁, h₂⟩ := exists_utf8EncodeChar c
  refine ⟨b, fun hb => ?_, bs.flatMap hexByte, ?_⟩
  · have hd : '.'.toNat = 46 := rfl
    rcases Nat.lt_or_ge c.toNat 128 with h | h
    · exact hc (Char.toNat_inj.mp ((h₁ h).symm.trans hb))
    · have := h₂ h
      omega
  · rw [encode_singleton, if_pos h, he, List.flatMap_cons]

theorem encode_ne_nil (h : s ≠ []) : encode p s ≠ [] := by
  obtain ⟨c, s, rfl⟩ := List.exists_cons_of_ne_nil h
  obtain ⟨b, bs, he, -⟩ := exists_utf8EncodeChar c
  rw [encode, List.flatMap_cons, he]
  split_ifs <;> simp [hexByte]

theorem head?_encode (h : c ∈ (encode p s).head?) : c ∈ s.head? ∨ c = '%' := by
  cases s with
  | nil => cases h
  | cons a s =>
    obtain ⟨b, bs, he, -⟩ := exists_utf8EncodeChar a
    rw [encode, List.flatMap_cons, he] at h
    split_ifs at h
    · exact .inr (Option.some.inj h).symm
    · exact .inl h

theorem getLast?_encode (h : c ∈ (encode p s).getLast?) :
    c ∈ s.getLast? ∨ c = '%' ∨ ∃ m < 16, c = Text.hexDigit m := by
  rcases List.eq_nil_or_concat' s with rfl | ⟨s, a, rfl⟩
  · cases h
  rw [encode_append, List.getLast?_append_of_ne_nil _ (encode_ne_nil (by simp))] at h
  refine (mem_encode (List.mem_of_getLast? h)).imp_left fun h => ?_
  obtain rfl := List.mem_singleton.mp h.1
  simp

def dotTexts : List (List Char) :=
  dotForms ++ dotForms.flatMap fun a => dotForms.map fun b => a ++ b

theorem not_dots_iff : isDot s = false ∧ isDoubleDot s = false ↔ s.map Char.toLower ∉ dotTexts := by
  simp only [isDot, isDoubleDot, dotTexts, List.mem_append, not_or, ← Bool.not_eq_true,
    List.contains_iff_mem]

theorem not_infix_dotTexts {b : ℕ} (h : b < 256) (hb : b ≠ '.'.toNat) {t : List Char}
    (ht : t ∈ dotTexts) : ¬ ('%' :: (Text.hexDigits 2 b).map Char.toLower) <:+: t := by
  have : ∀ b < 256, b ≠ '.'.toNat →
      ∀ t ∈ dotTexts, ¬ ('%' :: (Text.hexDigits 2 b).map Char.toLower) <:+: t := by
    decide +kernel
  exact this b h hb t ht

theorem not_dots_encode (hp : p '.' = false) (h : isDot s = false ∧ isDoubleDot s = false) :
    isDot (encode p s) = false ∧ isDoubleDot (encode p s) = false := by
  by_cases hs : ∀ c ∈ s, p c = false
  · rwa [encode_eq_self hs]
  push Not at hs
  obtain ⟨c, hc, hpc⟩ := hs
  obtain ⟨s₁, s₂, rfl⟩ := List.append_of_mem hc
  have hpc : p c = true := by simpa using hpc
  obtain ⟨b, hb, r, he⟩ := exists_encode hpc (by
    rintro rfl
    simp [hp] at hpc)
  rw [not_dots_iff]
  -- Every encoded byte in a text of dots is a dot, but the first byte of `c` is none.
  refine fun hm => not_infix_dotTexts b.toNat_lt hb hm ?_
  have hs : encode p (s₁ ++ c :: s₂) = encode p s₁ ++ (hexByte b ++ (r ++ encode p s₂)) := by
    rw [List.append_cons, encode_append, encode_append, he]
    simp
  rw [hs, List.map_append, List.map_append]
  exact (List.prefix_append _ _).isInfix.trans (List.suffix_append _ _).isInfix

theorem encode_eq_self_of_not_mem (h : '%' ∉ encode p s) : encode p s = s := by
  refine encode_eq_self fun c hc => ?_
  by_contra hp
  obtain ⟨b, bs, he, -⟩ := exists_utf8EncodeChar c
  refine h (List.mem_flatMap.mpr ⟨c, hc, ?_⟩)
  rw [if_pos (by simpa using hp), he]
  exact List.mem_cons_self

/-! ## Decoding -/

theorem decodeBytes_eq (h : '%' ∉ s) : decodeBytes s = s.flatMap String.utf8EncodeChar := by
  induction s with
  | nil => rfl
  | cons c s ih =>
    rw [List.mem_cons, not_or] at h
    rw [List.flatMap_cons, ← ih h.2, decodeBytes]
    rintro - - - rfl
    exact absurd rfl h.1

theorem decode?_eq_self (h : '%' ∉ s) : decode? s = some s := by
  have hb : (⟨(decodeBytes s).toArray⟩ : ByteArray) = s.utf8Encode := by
    rw [decodeBytes_eq h, List.utf8Encode]
    ext1
    simp
  have hs : String.fromUTF8? s.utf8Encode = some (String.ofList s) := by
    rw [String.fromUTF8?, dif_pos ⟨s, rfl⟩]
    exact congrArg some (String.toByteArray_inj.mp String.toByteArray_ofList.symm)
  rw [decode?, hb, hs, Option.map_some, String.toList_ofList]

end ApiTypings.Url
