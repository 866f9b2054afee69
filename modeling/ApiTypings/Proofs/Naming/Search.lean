import Mathlib
import ApiTypings.Proofs.Naming.Freshness

/-! # Searching for a name

A ledger tries the primary name, the fallback name, and then the fallback name with the numbers
from 2 on. The search through the numbers ends: together with the fallback name itself they are
different names, so no more of them can be taken than there are names taken.
-/

namespace ApiTypings.Naming.Ledger

/-- The search through the numbers, one after the other, from a number to the one where it ends. -/
inductive Counts (l : Ledger) (c : Candidate) : ℕ → ℕ → Prop
  | free {k : ℕ} : c.numbered k ∉ l.taken → Counts l c k k
  | next {k m : ℕ} : c.numbered k ∈ l.taken → Counts l c (k + 1) m → Counts l c k m

variable {l : Ledger} {c : Candidate}

theorem fallback_ne_numbered (c : Candidate) (k : ℕ) : c.fallback ≠ c.numbered k := by
  intro h
  have hl := congrArg String.length h
  simp only [Candidate.numbered, String.length_append] at hl
  have : "_".length = 1 := rfl
  omega

/-! ## The least free number -/

theorem isLeast_leastFree (l : Ledger) (c : Candidate) :
    IsLeast {k | 2 ≤ k ∧ c.numbered k ∉ l.taken} (l.leastFree c) := by
  constructor
  · exact ⟨by simp [leastFree], l.numbered_leastFree_not_mem c⟩
  · rintro k ⟨hk, hn⟩
    by_contra! hlt
    -- the number was tried before the search came to an end
    have ht : l.isTaken (c.numbered (k - 2 + 2)) = true := by
      unfold leastFree at hlt
      cases hf : (List.range (l.size + 1)).find? fun i => !l.isTaken (c.numbered (i + 2)) with
      | none =>
        rw [hf, Option.getD_none] at hlt
        simpa using List.find?_eq_none.mp hf (k - 2) (List.mem_range.mpr (by omega))
      | some i =>
        rw [hf, Option.getD_some] at hlt
        simpa using (List.find?_range_eq_some.mp hf).2.2 (k - 2) (by omega)
    rw [Nat.sub_add_cancel hk, isTaken_iff] at ht
    exact hn ht

/-- With the fallback name, the numbers below the least free one make as many names taken. -/
theorem leastFree_le (h : c.fallback ∈ l.taken) : l.leastFree c ≤ l.taken.toFinset.card + 1 := by
  obtain ⟨⟨h2, -⟩, hmin⟩ := l.isLeast_leastFree c
  have hs : insert c.fallback ((Finset.Ico 2 (l.leastFree c)).image c.numbered) ⊆
      l.taken.toFinset := by
    intro name hn
    rw [List.mem_toFinset]
    rcases Finset.mem_insert.mp hn with rfl | hn
    · exact h
    · obtain ⟨k, hk, rfl⟩ := Finset.mem_image.mp hn
      obtain ⟨hk2, hlt⟩ := Finset.mem_Ico.mp hk
      by_contra hfree
      exact absurd (hmin ⟨hk2, hfree⟩) (by omega)
  have hf : c.fallback ∉ (Finset.Ico 2 (l.leastFree c)).image c.numbered := by
    intro hn
    obtain ⟨k, -, hk⟩ := Finset.mem_image.mp hn
    exact fallback_ne_numbered c k hk.symm
  have hc := Finset.card_le_card hs
  rw [Finset.card_insert_of_notMem hf, Finset.card_image_of_injective _ c.numbered_injective,
    Nat.card_Ico] at hc
  omega

/-! ## The end of the search -/

theorem Counts.isLeast {k m : ℕ} (h : Counts l c k m) :
    IsLeast {j | k ≤ j ∧ c.numbered j ∉ l.taken} m := by
  induction h with
  | free hf => exact ⟨⟨le_rfl, hf⟩, fun j hj => hj.1⟩
  | @next k m ht _ ih =>
    obtain ⟨⟨hk, hm⟩, hmin⟩ := ih
    refine ⟨⟨by omega, hm⟩, ?_⟩
    rintro j ⟨hkj, hj⟩
    rcases hkj.eq_or_lt with rfl | hlt
    · exact absurd ht hj
    · exact hmin ⟨hlt, hj⟩

/-- The search ends exactly with the least free number, if there is one. -/
theorem counts_iff {k m : ℕ} :
    Counts l c k m ↔ IsLeast {j | k ≤ j ∧ c.numbered j ∉ l.taken} m := by
  constructor
  · exact Counts.isLeast
  · rintro ⟨⟨hk, hm⟩, hmin⟩
    induction hd : m - k generalizing k with
    | zero =>
      obtain rfl : k = m := by omega
      exact .free hm
    | succ d ih =>
      have ht : c.numbered k ∈ l.taken := by
        by_contra hf
        have := hmin ⟨le_rfl, hf⟩
        omega
      refine .next ht (ih ?_ (by omega) (by omega))
      rintro j ⟨hj, hn⟩
      exact hmin ⟨by omega, hn⟩

theorem counts_leastFree (l : Ledger) (c : Candidate) : Counts l c 2 (l.leastFree c) :=
  counts_iff.mpr (l.isLeast_leastFree c)

/-! ## The name given out -/

theorem choose_of_primary (h : c.primary ∉ l.taken) : l.choose c = c.primary := by
  simp [choose, h]

theorem choose_of_fallback (hp : c.primary ∈ l.taken) (hf : c.fallback ∉ l.taken) :
    l.choose c = c.fallback := by
  simp [choose, hp, hf]

theorem choose_of_taken (hp : c.primary ∈ l.taken) (hf : c.fallback ∈ l.taken) :
    l.choose c = c.numbered (l.leastFree c) := by
  simp [choose, hp, hf]

/-- A claim is answered with the primary name if that is free, else with the fallback name if
that is free, else with the fallback name and the least number from 2 on that makes it free. The
search for this number ends, at the latest one above the number of names taken. The answer is a
free name, and it is all that the ledger gains. -/
theorem claim_searches (l : Ledger) (c : Candidate) :
    (c.primary ∉ l.taken → (l.claim c).1 = c.primary) ∧
    (c.primary ∈ l.taken → c.fallback ∉ l.taken → (l.claim c).1 = c.fallback) ∧
    (c.primary ∈ l.taken → c.fallback ∈ l.taken →
      ∃ k, (l.claim c).1 = c.fallback ++ "_" ++ toString k ∧
        IsLeast {j | 2 ≤ j ∧ c.fallback ++ "_" ++ toString j ∉ l.taken} k ∧
        k ≤ l.taken.toFinset.card + 1 ∧
        ∀ m, Counts l c 2 m ↔ m = k) ∧
    (l.claim c).1 ∉ l.taken ∧
    (l.claim c).2.taken = (l.claim c).1 :: l.taken := by
  refine ⟨choose_of_primary, choose_of_fallback, fun hp hf => ?_, l.choose_not_mem c, rfl⟩
  refine ⟨l.leastFree c, choose_of_taken hp hf, l.isLeast_leastFree c, leastFree_le hf, ?_⟩
  intro m
  constructor
  · intro h
    exact h.isLeast.unique (l.isLeast_leastFree c)
  · rintro rfl
    exact l.counts_leastFree c

/-- The names for one endpoint asked for again and again, with a numbered one taken already. -/
theorem users_claim_searches :
    let c := Candidate.ofEndpoint "/api/users" "get"
    (empty.claim c).1 = "AGetUsers" ∧
    ((⟨["AGetUsers"]⟩ : Ledger).claim c).1 = "AGetApiUsers" ∧
    ∃ k, ((⟨["AGetApiUsers_2", "AGetApiUsers", "AGetUsers"]⟩ : Ledger).claim c).1 =
        "AGetApiUsers" ++ "_" ++ toString k ∧
      k ≤ ["AGetApiUsers_2", "AGetApiUsers", "AGetUsers"].toFinset.card + 1 := by
  intro c
  have hp : c.primary = "AGetUsers" := by decide +kernel
  have hf : c.fallback = "AGetApiUsers" := by decide +kernel
  refine ⟨?_, ?_, ?_⟩
  · rw [(claim_searches empty c).1 (by simp [empty]), hp]
  · rw [(claim_searches _ c).2.1 (by simp [hp]) (by simp [hf]), hf]
  · obtain ⟨k, hk, -, hle, -⟩ := (claim_searches
      ⟨["AGetApiUsers_2", "AGetApiUsers", "AGetUsers"]⟩ c).2.2.1 (by simp [hp]) (by simp [hf])
    rw [hf] at hk
    exact ⟨k, hk, hle⟩

end ApiTypings.Naming.Ledger
