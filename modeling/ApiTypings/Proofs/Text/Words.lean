import Mathlib
import ApiTypings.Text.Blank
import ApiTypings.Proofs.Text.Pieces

/-! # Words of a text

A text falls into words at its blanks. Words with single blanks between them are read back as the
same words.
-/

namespace ApiTypings.Text

variable {w s t : List Char} {ws : List (List Char)} {c : Char}

/-- A word is not empty and has no blank in it. -/
def IsWord (w : List Char) : Prop := w ≠ [] ∧ ∀ c ∈ w, isBlank c = false

theorem isWord_of_mem_words (h : w ∈ words s) : IsWord w := by
  obtain ⟨hw, hn⟩ := List.mem_filter.mp h
  exact ⟨by simpa using hn, (mem_splitOnP hw).1⟩

theorem words_append_blank (hc : isBlank c = true) (s t : List Char) :
    words (s ++ c :: t) = words s ++ words t := by
  unfold words
  rw [List.splitOnP_append_cons s t hc, List.filter_append]

theorem words_of_isWord (h : IsWord w) : words w = [w] := by
  unfold words
  rw [List.splitOnP_eq_singleton h.2]
  simp [h.1]

theorem words_intercalate (h : ∀ w ∈ ws, IsWord w) : words ([' '].intercalate ws) = ws := by
  induction ws with
  | nil => rfl
  | cons w ws ih =>
    rw [List.forall_mem_cons] at h
    cases ws with
    | nil => rw [List.intercalate_singleton, words_of_isWord h.1]
    | cons v ws =>
      rw [List.intercalate_cons_cons, List.append_assoc, List.singleton_append,
        words_append_blank (by decide), words_of_isWord h.1, ih h.2, List.singleton_append]

/-! ## Where the blanks are -/

theorem eq_blank_of_mem_intercalate (h : ∀ w ∈ ws, IsWord w) (hc : c ∈ [' '].intercalate ws)
    (hb : isBlank c = true) : c = ' ' := by
  rcases mem_of_mem_intercalate hc with hc | ⟨w, hw, hc⟩
  · simpa using hc
  · simp [(h w hw).2 c hc] at hb

theorem IsWord.not_mem (h : IsWord w) : ' ' ∉ w := fun hm => by
  cases h.2 ' ' hm

theorem IsWord.head?_ne (h : IsWord w) : w.head? ≠ some ' ' := fun hw =>
  h.not_mem (List.mem_of_head? hw)

theorem IsWord.getLast?_ne (h : IsWord w) : w.getLast? ≠ some ' ' := fun hw =>
  h.not_mem (List.mem_of_getLast? hw)

theorem head?_intercalate_ne (h : ∀ w ∈ ws, IsWord w) : ([' '].intercalate ws).head? ≠ some ' ' := by
  rcases ws with _ | ⟨w, _ | ⟨v, ws⟩⟩
  · simp
  · simpa using (h w List.mem_cons_self).head?_ne
  · have hw := h w List.mem_cons_self
    rw [List.intercalate_cons_cons, List.append_assoc, List.head?_append_of_ne_nil _ hw.1]
    exact hw.head?_ne

theorem getLast?_intercalate_ne (h : ∀ w ∈ ws, IsWord w) :
    ([' '].intercalate ws).getLast? ≠ some ' ' := by
  induction ws with
  | nil => simp
  | cons w ws ih =>
    rw [List.forall_mem_cons] at h
    cases ws with
    | nil => simpa using h.1.getLast?_ne
    | cons v ws =>
      have hn : [' '].intercalate (v :: ws) ≠ [] := by
        have hv := (h.2 v List.mem_cons_self).1
        cases ws <;> simp [List.intercalate_cons_cons, hv]
      rw [List.intercalate_cons_cons, List.getLast?_append_of_ne_nil _ hn]
      exact ih h.2

end ApiTypings.Text
