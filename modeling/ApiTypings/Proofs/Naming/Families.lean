import Mathlib
import ApiTypings.Proofs.Naming.Search

/-! # Families of names

A candidate can receive no name outside of its family. What a ledger answers depends only on the
names of that family that are taken, although the family has no end. So requests with disjoint
families may change places, and a request whose answer is in no later family may be left out.
-/

namespace ApiTypings.Naming

/-- The names that a candidate may receive. -/
def Candidate.family (c : Candidate) : Set String :=
  {name | name = c.primary ∨ name = c.fallback ∨ ∃ k, 2 ≤ k ∧ name = c.numbered k}

namespace NameRequest

def asCandidate : NameRequest → Candidate
  | endpoint path method => .ofEndpoint path method
  | candidate c => c

def family (q : NameRequest) : Set String := q.asCandidate.family

end NameRequest

/-! ## The start of a name -/

theorem Candidate.exists_eq_of_mem_family {c : Candidate} {name : String} (h : name ∈ c.family) :
    ∃ t, name = "A" ++ c.method ++ t := by
  rcases h with rfl | rfl | ⟨k, -, rfl⟩
  · exact ⟨_, rfl⟩
  · exact ⟨_, String.append_assoc⟩
  · refine ⟨Text.capitalize c.previousSegment ++
      (Text.capitalize c.lastSegment ++ ("_" ++ toString k)), ?_⟩
    simp only [Candidate.numbered, Candidate.fallback, String.append_assoc]

theorem Candidate.disjoint_family {c c' : Candidate}
    (h : ¬ c.method.toList <+: c'.method.toList) (h' : ¬ c'.method.toList <+: c.method.toList) :
    Disjoint c.family c'.family := by
  rw [Set.disjoint_left]
  intro name hn hn'
  obtain ⟨t, rfl⟩ := c.exists_eq_of_mem_family hn
  obtain ⟨t', ht⟩ := c'.exists_eq_of_mem_family hn'
  have ht : c.method.toList ++ t.toList = c'.method.toList ++ t'.toList := by
    simpa using congrArg String.toList ht
  rcases List.append_eq_append_iff.mp ht with ⟨w, hw, -⟩ | ⟨w, hw, -⟩
  · exact h ⟨w, hw.symm⟩
  · exact h' ⟨w, hw.symm⟩

namespace Ledger

variable {l l' : Ledger} {c : Candidate} {q : NameRequest} {name : String}

/-! ## Ledgers that agree -/

/-- Two ledgers in which the same names of a set are taken. -/
def AgreeOn (names : Set String) (l l' : Ledger) : Prop :=
  ∀ name ∈ names, name ∈ l.taken ↔ name ∈ l'.taken

theorem agreeOn_cons {names : Set String} (h : AgreeOn names l l') (name : String) :
    AgreeOn names ⟨name :: l.taken⟩ ⟨name :: l'.taken⟩ := by
  intro other ho
  rw [List.mem_cons, List.mem_cons, h other ho]

theorem agreeOn_of_not_mem {names : Set String} (h : name ∉ names) (l : Ledger) :
    AgreeOn names l ⟨name :: l.taken⟩ := by
  intro other ho
  rw [List.mem_cons]
  constructor
  · exact .inr
  · rintro (rfl | ht)
    · exact absurd ho h
    · exact ht

/-! ## One request -/

theorem choose_mem_family (l : Ledger) (c : Candidate) : l.choose c ∈ c.family := by
  by_cases hp : c.primary ∈ l.taken
  · by_cases hf : c.fallback ∈ l.taken
    · rw [choose_of_taken hp hf]
      exact .inr (.inr ⟨_, (l.isLeast_leastFree c).1.1, rfl⟩)
    · rw [choose_of_fallback hp hf]
      exact .inr (.inl rfl)
  · rw [choose_of_primary hp]
    exact .inl rfl

/-- The ranges that are searched differ with the sizes of the ledgers, the least free number does
not. -/
theorem leastFree_congr (h : AgreeOn c.family l l') : l.leastFree c = l'.leastFree c := by
  have hs : {k | 2 ≤ k ∧ c.numbered k ∉ l.taken} = {k | 2 ≤ k ∧ c.numbered k ∉ l'.taken} := by
    ext k
    apply and_congr_right
    intro hk
    rw [h (c.numbered k) (.inr (.inr ⟨k, hk, rfl⟩))]
  have hl := l.isLeast_leastFree c
  rw [hs] at hl
  exact hl.unique (l'.isLeast_leastFree c)

theorem choose_congr (h : AgreeOn c.family l l') : l.choose c = l'.choose c := by
  have hp := h c.primary (.inl rfl)
  have hf := h c.fallback (.inr (.inl rfl))
  by_cases hpt : c.primary ∈ l.taken
  · by_cases hft : c.fallback ∈ l.taken
    · rw [choose_of_taken hpt hft, choose_of_taken (hp.mp hpt) (hf.mp hft), leastFree_congr h]
    · rw [choose_of_fallback hpt hft, choose_of_fallback (hp.mp hpt) (mt hf.mpr hft)]
  · rw [choose_of_primary hpt, choose_of_primary (mt hp.mpr hpt)]

theorem answer_eq (l : Ledger) (q : NameRequest) :
    l.answer q = (l.choose q.asCandidate, ⟨l.choose q.asCandidate :: l.taken⟩) := by
  cases q <;> rfl

theorem answer_mem_family (l : Ledger) (q : NameRequest) : (l.answer q).1 ∈ q.family := by
  rw [answer_eq]
  exact l.choose_mem_family q.asCandidate

theorem answer_congr (h : AgreeOn q.family l l') : (l.answer q).1 = (l'.answer q).1 := by
  rw [answer_eq, answer_eq]
  exact choose_congr h

theorem agreeOn_answer {names : Set String} (h : AgreeOn names l l')
    (hq : AgreeOn q.family l l') : AgreeOn names (l.answer q).2 (l'.answer q).2 := by
  rw [answer_eq, answer_eq, choose_congr hq]
  exact agreeOn_cons h _

theorem agreeOn_answer_of_not_mem {names : Set String} (h : (l.answer q).1 ∉ names) :
    AgreeOn names l (l.answer q).2 := by
  rw [answer_eq] at h ⊢
  exact agreeOn_of_not_mem h l

/-! ## Many requests -/

variable {qs : List NameRequest}

theorem answerAll_congr (h : ∀ q ∈ qs, AgreeOn q.family l l') :
    (l.answerAll qs).1 = (l'.answerAll qs).1 := by
  induction qs generalizing l l' with
  | nil => rfl
  | cons q qs ih =>
    obtain ⟨hq, hqs⟩ := List.forall_mem_cons.mp h
    have hrest := ih fun p hp => agreeOn_answer (hqs p hp) hq
    simp only [answerAll, answer_congr hq, hrest]

theorem answerAll_append (qs qs' : List NameRequest) :
    (l.answerAll (qs ++ qs')).1 =
      (l.answerAll qs).1 ++ ((l.answerAll qs).2.answerAll qs').1 := by
  induction qs generalizing l with
  | nil => rfl
  | cons q qs ih => simp [answerAll, ih]

/-- Neither of two requests can receive a name that the other one might. -/
theorem answerAll_swap {q q' : NameRequest} (h : Disjoint q.family q'.family)
    (l : Ledger) (qs : List NameRequest) :
    ∃ x y names, (l.answerAll (q :: q' :: qs)).1 = x :: y :: names ∧
      (l.answerAll (q' :: q :: qs)).1 = y :: x :: names := by
  have hq : ((l.answer q').2.answer q).1 = (l.answer q).1 := by
    apply (answer_congr (agreeOn_answer_of_not_mem _)).symm
    exact Set.disjoint_right.mp h (l.answer_mem_family q')
  have hq' : ((l.answer q).2.answer q').1 = (l.answer q').1 := by
    apply (answer_congr (agreeOn_answer_of_not_mem _)).symm
    exact Set.disjoint_left.mp h (l.answer_mem_family q)
  have hqs : (((l.answer q').2.answer q).2.answerAll qs).1 =
      (((l.answer q).2.answer q').2.answerAll qs).1 := by
    apply answerAll_congr
    intro p _ name _
    rw [(answer_spec _ q).2, (answer_spec _ q').2, (answer_spec _ q').2, (answer_spec _ q).2,
      hq, hq']
    simp only [List.mem_cons]
    exact or_left_comm
  refine ⟨(l.answer q).1, (l.answer q').1, (((l.answer q).2.answer q').2.answerAll qs).1, ?_, ?_⟩
  · simp only [answerAll, hq']
  · simp only [answerAll, hq, hqs]

/-- Two neighbours with disjoint families may change places: every request is answered as before.
And a request may be left out if its answer is in no later family: all others are answered as
before. -/
theorem answerAll_rearranged (l : Ledger) (before after : List NameRequest) (q q' : NameRequest) :
    (Disjoint q.family q'.family →
      ∃ names x y names', names.length = before.length ∧
        (l.answerAll (before ++ q :: q' :: after)).1 = names ++ x :: y :: names' ∧
        (l.answerAll (before ++ q' :: q :: after)).1 = names ++ y :: x :: names') ∧
    (∀ names x names', names.length = before.length →
      (l.answerAll (before ++ q :: after)).1 = names ++ x :: names' →
      (∀ p ∈ after, x ∉ p.family) →
      (l.answerAll (before ++ after)).1 = names ++ names') := by
  constructor
  · intro h
    obtain ⟨x, y, names', hxy, hyx⟩ := answerAll_swap h (l.answerAll before).2 after
    refine ⟨(l.answerAll before).1, x, y, names', length_answerAll before, ?_, ?_⟩
    · rw [answerAll_append, hxy]
    · rw [answerAll_append, hyx]
  · intro names x names' hl h hx
    rw [answerAll_append] at h ⊢
    obtain ⟨hnames, h⟩ := List.append_inj h ((length_answerAll before).trans hl.symm)
    obtain ⟨rfl, hnames'⟩ := List.cons_eq_cons.mp h
    rw [hnames, ← hnames']
    congr 1
    apply answerAll_congr
    intro p hp
    exact agreeOn_answer_of_not_mem (hx p hp)

/-- An endpoint with another method, between three that are named after the same path. -/
theorem users_rearranged :
    let users : NameRequest := .endpoint "/api/users" "get"
    let create : NameRequest := .endpoint "/api/users" "post"
    Disjoint create.family users.family ∧
    (empty.answerAll [users, create, users, users]).1 =
      ["AGetUsers", "APostUsers", "AGetApiUsers", "AGetApiUsers_2"] ∧
    (empty.answerAll [users, users, create, users]).1 =
      ["AGetUsers", "AGetApiUsers", "APostUsers", "AGetApiUsers_2"] ∧
    "APostUsers" ∉ users.family ∧
    (empty.answerAll [users, users, users]).1 =
      ["AGetUsers", "AGetApiUsers", "AGetApiUsers_2"] := by
  intro users create
  have hd : Disjoint create.family users.family :=
    Candidate.disjoint_family (by decide +kernel) (by decide +kernel)
  have hall : (empty.answerAll [users, create, users, users]).1 =
      ["AGetUsers", "APostUsers", "AGetApiUsers", "AGetApiUsers_2"] := by decide +kernel
  have hp : "APostUsers" ∉ users.family := by
    apply Set.disjoint_left.mp hd
    exact .inl (by decide +kernel)
  refine ⟨hd, hall, ?_, hp, ?_⟩
  · obtain ⟨names, x, y, names', hl, hxy, hyx⟩ :=
      (answerAll_rearranged empty [users] [users] create users).1 hd
    obtain ⟨name, rfl⟩ := List.length_eq_one_iff.mp hl
    obtain ⟨rfl, rfl, rfl, rfl⟩ : name = "AGetUsers" ∧ x = "APostUsers" ∧ y = "AGetApiUsers" ∧
        names' = ["AGetApiUsers_2"] := by
      simpa using hxy.symm.trans hall
    exact hyx
  · exact (answerAll_rearranged empty [users] [users, users] create create).2 ["AGetUsers"] _ _ rfl
      hall (by simpa using hp)

end Ledger

end ApiTypings.Naming
