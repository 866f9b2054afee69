import Mathlib

/-! # Pieces of a text

What stands between separators has no separator in it, and everything else stands in some piece.
-/

namespace ApiTypings.Text

variable {p q : Char → Bool} {c : Char} {cs s : List Char}

theorem mem_splitOnP (h : s ∈ cs.splitOnP p) : (∀ c ∈ s, p c = false) ∧ s ⊆ cs := by
  induction cs generalizing s with
  | nil =>
    rw [List.splitOnP_nil, List.mem_singleton] at h
    simp [h]
  | cons a cs ih =>
    rw [List.splitOnP_cons_eq_if_modifyHead] at h
    split_ifs at h with ha
    · rcases List.mem_cons.mp h with rfl | h
      · exact ⟨by simp, List.nil_subset _⟩
      · exact ⟨(ih h).1, List.subset_cons_of_subset a (ih h).2⟩
    · obtain ⟨e, es, hs⟩ := List.exists_cons_of_ne_nil (List.splitOnP_ne_nil p cs)
      rw [hs, List.modifyHead_cons, List.mem_cons] at h
      rcases h with rfl | h
      · obtain ⟨he, hm⟩ := ih (hs ▸ List.mem_cons_self)
        exact ⟨List.forall_mem_cons.mpr ⟨by simpa using ha, he⟩, List.cons_subset_cons a hm⟩
      · obtain ⟨he, hm⟩ := ih (hs ▸ List.mem_cons_of_mem _ h)
        exact ⟨he, List.subset_cons_of_subset a hm⟩

theorem exists_mem_splitOnP (hc : c ∈ cs) (hp : p c = false) : ∃ s ∈ cs.splitOnP p, c ∈ s := by
  induction cs with
  | nil => cases hc
  | cons a cs ih =>
    obtain ⟨e, es, hs⟩ := List.exists_cons_of_ne_nil (List.splitOnP_ne_nil p cs)
    rw [List.splitOnP_cons_eq_if_modifyHead]
    rcases List.mem_cons.mp hc with rfl | hc
    · rw [if_neg (by simp [hp]), hs, List.modifyHead_cons]
      exact ⟨_, List.mem_cons_self, List.mem_cons_self⟩
    · obtain ⟨s, hm, hc⟩ := ih hc
      split_ifs
      · exact ⟨s, List.mem_cons_of_mem _ hm, hc⟩
      · rw [hs] at hm ⊢
        rw [List.modifyHead_cons]
        rcases List.mem_cons.mp hm with rfl | hm
        · exact ⟨_, List.mem_cons_self, List.mem_cons_of_mem a hc⟩
        · exact ⟨s, List.mem_cons_of_mem _ hm, hc⟩

theorem splitOnP_congr (h : ∀ c ∈ cs, p c = q c) : cs.splitOnP p = cs.splitOnP q := by
  induction cs with
  | nil => simp
  | cons a cs ih =>
    obtain ⟨ha, h⟩ := List.forall_mem_cons.mp h
    rw [List.splitOnP_cons_eq_if_modifyHead, List.splitOnP_cons_eq_if_modifyHead, ha, ih h]

theorem tail_splitOnP_cons (p : Char → Bool) (c : Char) (cs : List Char) :
    ((c :: cs).splitOnP p).tail = if p c then cs.splitOnP p else (cs.splitOnP p).tail := by
  rw [List.splitOnP_cons_eq_if_modifyHead]
  split_ifs
  · rfl
  · exact List.tail_modifyHead

theorem exists_splitOnP_eq_cons (h : ∀ c, p c = true → q c = false) (cs : List Char) :
    ∃ s ss, cs.splitOnP p = s :: ss ∧ s.takeWhile q = cs.takeWhile q := by
  induction cs with
  | nil => exact ⟨[], [], rfl, rfl⟩
  | cons c cs ih =>
    obtain ⟨s, ss, hs, hw⟩ := ih
    rw [List.splitOnP_cons_eq_if_modifyHead, hs]
    split_ifs with hc
    · exact ⟨[], s :: ss, rfl, by simp [h c hc]⟩
    · exact ⟨c :: s, ss, rfl, by rw [List.takeWhile_cons, List.takeWhile_cons, hw]⟩

theorem mem_of_mem_intercalate {sep : List Char} {ss : List (List Char)}
    (h : c ∈ sep.intercalate ss) : c ∈ sep ∨ ∃ s ∈ ss, c ∈ s := by
  induction ss with
  | nil => simp at h
  | cons s ss ih =>
    cases ss with
    | nil => exact .inr ⟨s, List.mem_cons_self, by simpa using h⟩
    | cons t ts =>
      rw [List.intercalate_cons_cons, List.mem_append, List.mem_append] at h
      rcases h with (h | h) | h
      · exact .inr ⟨s, List.mem_cons_self, h⟩
      · exact .inl h
      · exact (ih h).imp_right fun ⟨t, ht, hc⟩ => ⟨t, List.mem_cons_of_mem _ ht, hc⟩

end ApiTypings.Text
