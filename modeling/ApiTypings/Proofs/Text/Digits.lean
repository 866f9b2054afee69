import Mathlib
import ApiTypings.Text.Hex

/-! # Digits of numbers

The digits of a number in a base are read as the number, those of a fixed width as the number up to
a power of the base.
-/

namespace ApiTypings.Text

variable {b n : ℕ} {s : List Char}

theorem hexValue?_hexDigit {d : ℕ} (h : d < 16) : hexValue? (hexDigit d) = some d := by
  have : ∀ d < 16, hexValue? (hexDigit d) = some d := by decide
  exact this d h

theorem hexValue?_digitChar {d : ℕ} (h : d < 16) : hexValue? (Nat.digitChar d) = some d := by
  have : ∀ d < 16, hexValue? (Nat.digitChar d) = some d := by decide
  exact this d h

theorem digitsIn_append (base : ℕ) (s t : List Char) :
    digitsIn base (s ++ t) = (digitsIn base s).bind fun value => t.foldlM (fun value c => do
      let d ← hexValue? c
      if d < base then some (value * base + d) else none) value :=
  List.foldlM_append

theorem digitsIn_concat {c : Char} {d : ℕ} (hs : digitsIn b s = some n) (hc : hexValue? c = some d)
    (hd : d < b) : digitsIn b (s ++ [c]) = some (n * b + d) := by
  simp [digitsIn_append, hs, hc, hd]

theorem digitsIn_hexDigits (w n : ℕ) : digitsIn 16 (hexDigits w n) = some (n % 16 ^ w) := by
  induction w generalizing n with
  | zero => simp [hexDigits, digitsIn, Nat.mod_one]
  | succ w ih =>
    have hd : n % 16 < 16 := Nat.mod_lt _ (by decide)
    rw [hexDigits, digitsIn_concat (ih _) (hexValue?_hexDigit hd) hd, pow_succ', Nat.mod_mul]
    congr 1
    omega

theorem digitsIn_toDigits (hb : 1 < b) (hb' : b ≤ 16) (n : ℕ) :
    digitsIn b (Nat.toDigits b n) = some n := by
  induction n using Nat.base_induction b hb with
  | single m hm =>
    rw [Nat.toDigits_of_lt_base hm]
    simpa using digitsIn_concat (s := []) (n := 0) rfl (hexValue?_digitChar (by omega)) hm
  | digit m k hk hm ih =>
    rw [← Nat.toDigits_append_toDigits hb hm hk, Nat.toDigits_of_lt_base hk,
      digitsIn_concat ih (hexValue?_digitChar (by omega)) hk, Nat.mul_comm]

theorem mem_toDigits (hb : 1 < b) {c : Char} (h : c ∈ Nat.toDigits b n) :
    ∃ d < b, c = Nat.digitChar d := by
  induction n using Nat.base_induction b hb with
  | single m hm =>
    rw [Nat.toDigits_of_lt_base hm, List.mem_singleton] at h
    exact ⟨m, hm, h⟩
  | digit m k hk hm ih =>
    rw [← Nat.toDigits_append_toDigits hb hm hk, List.mem_append] at h
    rcases h with h | h
    · exact ih h
    · rw [Nat.toDigits_of_lt_base hk, List.mem_singleton] at h
      exact ⟨k, hk, h⟩

theorem isAlphanum_of_mem_toDigits (hb : 1 < b) (hb' : b ≤ 16) {c : Char}
    (h : c ∈ Nat.toDigits b n) : c.isAlphanum = true := by
  have : ∀ d < 16, (Nat.digitChar d).isAlphanum = true := by decide
  obtain ⟨d, hd, rfl⟩ := mem_toDigits hb h
  exact this d (hd.trans_le hb')

theorem not_mem_toDigits (hb : 1 < b) (hb' : b ≤ 16) {c : Char} (h : c.isAlphanum = false) :
    c ∉ Nat.toDigits b n := fun hm => by
  simp [isAlphanum_of_mem_toDigits hb hb' hm] at h

theorem lt_of_digitsIn (h : digitsIn b s = some n) : n < b ^ s.length := by
  induction s using List.reverseRecOn generalizing n with
  | nil =>
    simp only [digitsIn, List.foldlM_nil, Option.pure_def, Option.some.injEq] at h
    simp [← h]
  | append_singleton s c ih =>
    rw [digitsIn_append] at h
    obtain ⟨m, hm, h⟩ := Option.bind_eq_some_iff.mp h
    simp only [List.foldlM_cons, List.foldlM_nil] at h
    obtain ⟨k, hk, h⟩ := Option.bind_eq_some_iff.mp h
    obtain ⟨d, -, hk⟩ := Option.bind_eq_some_iff.mp hk
    split_ifs at hk with hd
    cases hk
    cases h
    have hm := ih hm
    calc m * b + d < (m + 1) * b := by linarith
      _ ≤ b ^ s.length * b := Nat.mul_le_mul_right b hm
      _ = b ^ (s ++ [c]).length := by rw [List.length_append, List.length_singleton, pow_succ]

end ApiTypings.Text
