import Mathlib
import ApiTypings.Naming.Ledger

/-! # Fresh names

A ledger gives out only names that are free. The names given out from the empty ledger are
therefore distinct, whatever is asked for and in whichever order, and they are exactly the names
that the ledger holds.
-/

namespace ApiTypings.Naming

theorem Candidate.numbered_injective (c : Candidate) : Function.Injective c.numbered := by
  intro j k h
  exact Nat.repr_injective ((String.append_right_inj _).mp h)

namespace Ledger

variable {l : Ledger} {c : Candidate} {name : String}

@[simp] theorem isTaken_iff : l.isTaken name = true ↔ name ∈ l.taken := by
  simp [isTaken]

@[simp] theorem isTaken_eq_false_iff : l.isTaken name = false ↔ name ∉ l.taken := by
  simp [isTaken]

@[simp] theorem claim_fst : (l.claim c).1 = l.choose c := rfl

@[simp] theorem taken_claim : (l.claim c).2.taken = l.choose c :: l.taken := rfl

/-- There are more numbers to try than names taken, and different numbers make different names. -/
theorem exists_numbered_not_mem (l : Ledger) (c : Candidate) :
    ∃ i < l.size + 1, c.numbered (i + 2) ∉ l.taken := by
  by_contra! h
  have hd : ((List.range (l.size + 1)).map fun i => c.numbered (i + 2)).Nodup := by
    refine List.nodup_range.map fun i j hij => ?_
    have := c.numbered_injective hij
    omega
  have hs : (List.range (l.size + 1)).map (fun i => c.numbered (i + 2)) ⊆ l.taken := by
    intro name hn
    obtain ⟨i, hi, rfl⟩ := List.mem_map.mp hn
    exact h i (List.mem_range.mp hi)
  have hl := (hd.subperm hs).length_le
  rw [List.length_map, List.length_range, size] at hl
  omega

theorem numbered_leastFree_not_mem (l : Ledger) (c : Candidate) :
    c.numbered (l.leastFree c) ∉ l.taken := by
  unfold leastFree
  cases hf : (List.range (l.size + 1)).find? fun i => !l.isTaken (c.numbered (i + 2)) with
  | none =>
    obtain ⟨i, hi, hn⟩ := l.exists_numbered_not_mem c
    have ht := List.find?_eq_none.mp hf i (List.mem_range.mpr hi)
    simp [hn] at ht
  | some i =>
    have hi := List.find?_some hf
    simpa using hi

theorem choose_not_mem (l : Ledger) (c : Candidate) : l.choose c ∉ l.taken := by
  unfold choose
  split_ifs with hp hf
  · simpa using hp
  · simpa using hf
  · exact l.numbered_leastFree_not_mem c

theorem nodup_claim (h : l.taken.Nodup) : (l.claim c).2.taken.Nodup :=
  List.nodup_cons.mpr ⟨l.choose_not_mem c, h⟩

end Ledger

/-! ## Sequences of requests -/

/-- A request for a name: that of an endpoint, or one for a candidate. -/
inductive NameRequest where
  | endpoint (path method : String)
  | candidate (c : Candidate)
deriving DecidableEq, Repr

namespace Ledger

variable {l : Ledger}

def answer (l : Ledger) : NameRequest → String × Ledger
  | .endpoint path method => l.claimEndpoint path method
  | .candidate c => l.claim c

/-- Answer requests one after the other, each with the ledger that the one before left. -/
def answerAll (l : Ledger) : List NameRequest → List String × Ledger
  | [] => ([], l)
  | q :: rest =>
    let (name, l) := l.answer q
    let (names, l) := l.answerAll rest
    (name :: names, l)

theorem answer_spec (l : Ledger) (q : NameRequest) :
    (l.answer q).1 ∉ l.taken ∧ (l.answer q).2.taken = (l.answer q).1 :: l.taken := by
  cases q with
  | endpoint path method => exact ⟨l.choose_not_mem _, rfl⟩
  | candidate c => exact ⟨l.choose_not_mem c, rfl⟩

theorem length_answerAll (qs : List NameRequest) : (l.answerAll qs).1.length = qs.length := by
  induction qs generalizing l with
  | nil => rfl
  | cons q qs ih => simp [answerAll, ih]

theorem taken_answerAll (qs : List NameRequest) :
    (l.answerAll qs).2.taken = (l.answerAll qs).1.reverse ++ l.taken := by
  induction qs generalizing l with
  | nil => rfl
  | cons q qs ih => simp [answerAll, ih, (l.answer_spec q).2]

theorem nodup_answerAll (h : l.taken.Nodup) (qs : List NameRequest) :
    (l.answerAll qs).2.taken.Nodup := by
  induction qs generalizing l with
  | nil => exact h
  | cons q qs ih =>
    obtain ⟨hn, ht⟩ := l.answer_spec q
    exact ih (ht ▸ List.nodup_cons.mpr ⟨hn, h⟩)

/-- From the empty ledger no name is given out twice, and the names in the ledger are those given
out, one for each request. -/
theorem answerAll_empty_distinct (qs : List NameRequest) :
    (empty.answerAll qs).1.Nodup ∧
    (∀ name, (empty.answerAll qs).2.isTaken name = true ↔ name ∈ (empty.answerAll qs).1) ∧
    (empty.answerAll qs).2.taken.Nodup ∧
    (empty.answerAll qs).1.length = qs.length ∧
    (empty.answerAll qs).2.size = qs.length := by
  have ht : (empty.answerAll qs).2.taken = (empty.answerAll qs).1.reverse := by
    rw [taken_answerAll]
    exact List.append_nil _
  have hd : (empty.answerAll qs).2.taken.Nodup := nodup_answerAll List.nodup_nil qs
  refine ⟨?_, fun name => ?_, hd, length_answerAll qs, ?_⟩
  · exact List.nodup_reverse.mp (ht ▸ hd)
  · rw [isTaken_iff, ht, List.mem_reverse]
  · rw [size, ht, List.length_reverse, length_answerAll]

/-- The numbered name of one endpoint is the primary name of the next. -/
example :
    (empty.answerAll [.endpoint "/users" "get", .endpoint "/users" "GET", .endpoint "/users" "get",
      .endpoint "/users_2" "get"]).1 =
      ["AGetUsers", "AGetUsers_2", "AGetUsers_3", "AGetUsers_2_2"] := by
  decide +kernel

end Ledger

end ApiTypings.Naming
