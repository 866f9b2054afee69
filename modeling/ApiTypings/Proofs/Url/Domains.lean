import Mathlib
import ApiTypings.Proofs.Text.Digits
import ApiTypings.Proofs.Text.Pieces
import ApiTypings.Proofs.Url.Encoding

/-! # Domains

A domain that has been read is ASCII text in lower case, and an address of four bytes is written in
decimal notation. Both are read as what they are.
-/

namespace ApiTypings

namespace Text

variable {c d : Char}

/-- A character that no reader of domains changes. -/
def IsLowered (c : Char) : Prop := c.toNat < 128 ∧ c.toLower = c

instance (c : Char) : Decidable (IsLowered c) := inferInstanceAs (Decidable (_ ∧ _))

theorem lower_of_isLowered (h : IsLowered c) : lower c = [c] := by
  rw [lower, if_pos h.1, h.2]

theorem isLowered_toLower (h : c.toNat < 128) : IsLowered c.toLower := by
  have : ∀ n < 128, IsLowered (Char.ofNat n).toLower := by decide
  simpa using this c.toNat h

theorem isLowered_ofNat {n : ℕ} (hn : 90 < n) (h : (Char.ofNat n).toNat < 128) :
    IsLowered (Char.ofNat n) := by
  have hs : ∀ m < 128, 90 < m ∨ m = 0 → IsLowered (Char.ofNat m) := by decide
  have hm := hs _ h (by
    rw [Char.toNat_ofNat]
    split_ifs
    · exact .inl hn
    · exact .inr rfl)
  simpa using hm

theorem lt_mapThrough_lowerRuns {n : ℕ} (h : 128 ≤ n) : 90 < mapThrough lowerRuns n := by
  have hr : ∀ r ∈ lowerRuns, r.last < 128 ∨ 90 < r.first + r.offset := by decide +kernel
  unfold mapThrough
  split
  · next r hf =>
    have hc : r.contains n = true := by simpa using List.find?_some hf
    simp only [CaseRun.contains, Bool.and_eq_true, decide_eq_true_eq] at hc
    have := hr r (List.mem_of_find?_eq_some hf)
    omega
  · omega

theorem isLowered_of_mem_lower (h : c ∈ lower d) (hc : c.toNat < 128) : IsLowered c := by
  unfold lower at h
  split_ifs at h with hd
  · obtain rfl := List.mem_singleton.mp h
    exact isLowered_toLower hd
  split at h
  · next ns hl =>
    have hs : ∀ e ∈ lowerSequences, ∀ n ∈ e.2, 90 < n := by decide +kernel
    obtain ⟨n, hn, rfl⟩ := List.mem_map.mp h
    have hm : (d.toNat, ns) ∈ lowerSequences := by
      obtain ⟨l₁, l₂, he, -⟩ := List.lookup_eq_some_iff.mp hl
      simp [he]
    exact isLowered_ofNat (hs _ hm n hn) hc
  · obtain rfl := List.mem_singleton.mp h
    exact isLowered_ofNat (lt_mapThrough_lowerRuns (by omega)) hc

end Text

namespace Url

variable {c : Char} {s t : List Char}

open Text (IsLowered)

/-! ## Domains -/

namespace Punycode

theorem isLowered_digit {n : ℕ} (h : n < 36) : IsLowered (digit n) := by
  have : ∀ n < 36, IsLowered (digit n) := by decide
  exact this n h

theorem threshold_le (k bias : ℕ) : threshold k bias ≤ 26 := by
  unfold threshold
  split_ifs <;> omega

theorem isLowered_of_mem_digits {bias fuel k q : ℕ} (h : c ∈ digits bias fuel k q) :
    IsLowered c := by
  induction fuel generalizing k q with
  | zero => cases h
  | succ fuel ih =>
    have ht := threshold_le k bias
    simp only [digits] at h
    split_ifs at h with hq
    · obtain rfl := List.mem_singleton.mp h
      exact isLowered_digit (by omega)
    · rcases List.mem_cons.mp h with rfl | h
      · have hm := Nat.mod_lt (q - threshold k bias) (show 0 < 36 - threshold k bias by omega)
        exact isLowered_digit (by omega)
      · exact ih h

theorem isLowered_of_mem_pass {basic n : ℕ} {st : State} (hs : ∀ c ∈ st.output, IsLowered c)
    (a : Char) : ∀ c ∈ (pass basic n st a).output, IsLowered c := by
  unfold pass
  split_ifs
  · exact hs
  · exact List.forall_mem_append.mpr ⟨hs, fun _ => isLowered_of_mem_digits⟩
  · exact hs

theorem isLowered_of_mem_insertAll {input : List Char} {basic last : ℕ} {ns : List ℕ} {st : State}
    (hs : ∀ c ∈ st.output, IsLowered c) :
    ∀ c ∈ (insertAll input basic ns last st).output, IsLowered c := by
  induction ns generalizing last st with
  | nil => exact hs
  | cons n ns ih =>
    refine ih (List.foldlRecOn (motive := fun st : State => ∀ c ∈ st.output, IsLowered c)
      input (pass basic n) hs fun st hs a _ => isLowered_of_mem_pass hs a)

theorem isLowered_of_mem_encode (hs : ∀ c ∈ s, c.toNat < 128 → IsLowered c) :
    ∀ c ∈ encode s, IsLowered c := by
  refine List.forall_mem_append.mpr ⟨List.forall_mem_append.mpr ⟨fun c hc => ?_, ?_⟩,
    isLowered_of_mem_insertAll (by simp)⟩
  · obtain ⟨hc, ha⟩ := List.mem_filter.mp hc
    exact hs c hc (by simpa using ha)
  · split_ifs
    · simp
    · exact List.forall_mem_singleton.mpr (by decide)

end Punycode

theorem isLowered_of_mem_domainLabel (hs : ∀ c ∈ s, c.toNat < 128 → IsLowered c) :
    ∀ c ∈ domainLabel s, IsLowered c := by
  unfold domainLabel
  split_ifs with ha
  · exact fun c hc => hs c hc (by simpa using List.all_eq_true.mp ha c hc)
  · exact List.forall_mem_append.mpr ⟨by simp [IsLowered], Punycode.isLowered_of_mem_encode hs⟩

theorem isLowered_of_mem_domainText (h : c ∈ domainText s) : IsLowered c := by
  rcases Text.mem_of_mem_intercalate h with hc | ⟨t, ht, hc⟩
  · obtain rfl := List.mem_singleton.mp hc
    decide
  obtain ⟨l, hl, rfl⟩ := List.mem_map.mp ht
  refine isLowered_of_mem_domainLabel (fun a ha => ?_) c hc
  rw [labels, List.splitOn_eq_splitOnP] at hl
  obtain ⟨b, -, hb⟩ := List.mem_flatMap.mp ((Text.mem_splitOnP hl).2 ha)
  exact Text.isLowered_of_mem_lower hb

theorem unchanged_of_isLowered (h : IsLowered c) : isIgnored c = false ∧ narrow c = c := by
  have hc := h.1
  constructor
  · simp only [isIgnored, Bool.or_eq_false_iff, Bool.and_eq_false_iff, beq_eq_false_iff_ne,
      decide_eq_false_iff_not]
    omega
  · simp only [narrow]
    split_ifs <;> first | omega | rfl

theorem domainText_eq_self (h : ∀ c ∈ s, IsLowered c) : domainText s = s := by
  have hf : s.filter (fun c => !isIgnored c) = s := List.filter_eq_self.mpr fun c hc => by
    rw [(unchanged_of_isLowered (h c hc)).1]
    rfl
  have hn : s.map narrow = s :=
    (List.map_congr_left fun c hc => (unchanged_of_isLowered (h c hc)).2).trans s.map_id'
  have hl : s.flatMap Text.lower = s := by
    rw [List.flatMap_congr fun c hc => Text.lower_of_isLowered (h c hc), List.flatMap_singleton']
  have hd : (labels s).map domainLabel = labels s := by
    refine (List.map_congr_left fun l hl => ?_).trans (labels s).map_id'
    rw [labels, List.splitOn_eq_splitOnP] at hl
    rw [domainLabel, if_pos]
    exact List.all_eq_true.mpr fun c hc =>
      decide_eq_true (h c ((Text.mem_splitOnP hl).2 hc)).1
  rw [domainText, hf, hn, hl, hd, labels, List.intercalate_splitOn]

/-! ## Addresses of four bytes -/

def IsBytes (bytes : List ℕ) : Prop := bytes.length = 4 ∧ ∀ b ∈ bytes, b < 256

theorem isBytes_of_ipv4? {bytes : List ℕ} (h : ipv4? s = some bytes) : IsBytes bytes := by
  simp only [ipv4?, Option.bind_eq_bind, Option.bind_eq_some_iff] at h
  obtain ⟨parts, -, last, hl, h⟩ := h
  split_ifs at h with hc
  · cases h
  obtain rfl := Option.some.inj h
  simp only [Bool.or_eq_true, decide_eq_true_eq, List.any_eq_true, not_or, not_exists, not_and,
    Nat.not_lt] at hc
  obtain ⟨⟨hn, hf⟩, -⟩ := hc
  have hp : parts ≠ [] := by
    rintro rfl
    cases hl
  refine ⟨?_, List.forall_mem_append.mpr ⟨fun b hb => ?_, fun b hb => ?_⟩⟩
  · have := List.length_pos_iff.mpr hp
    simp only [List.length_append, List.length_dropLast, List.length_map, List.length_reverse,
      List.length_range]
    omega
  · exact Nat.lt_succ_of_le (hf b hb)
  · obtain ⟨i, -, rfl⟩ := List.mem_map.mp hb
    exact Nat.mod_lt _ (by decide)

theorem mem_ipv4Text {bytes : List ℕ} (h : c ∈ ipv4Text bytes) :
    c = '.' ∨ ∃ d < 10, c = Nat.digitChar d := by
  rcases Text.mem_of_mem_intercalate h with h | ⟨t, ht, h⟩
  · exact .inl (List.mem_singleton.mp h)
  · obtain ⟨b, -, rfl⟩ := List.mem_map.mp ht
    exact .inr (Text.mem_toDigits (by decide) h)

theorem isLowered_of_mem_ipv4Text {bytes : List ℕ} (h : c ∈ ipv4Text bytes) :
    IsLowered c ∧ isForbiddenInDomain c = false := by
  have hd : ∀ d < 10, IsLowered (Nat.digitChar d) ∧
      isForbiddenInDomain (Nat.digitChar d) = false := by decide
  obtain rfl | ⟨d, hlt, rfl⟩ := mem_ipv4Text h
  · decide
  · exact hd d hlt

theorem ipv4Number_toDigits {b : ℕ} (h : b < 256) : ipv4Number (Nat.toDigits 10 b) = some b := by
  have : ∀ b < 256, ipv4Number (Nat.toDigits 10 b) = some b := by decide +kernel
  exact this b h

theorem mapM_ipv4Number {bytes : List ℕ} (h : ∀ b ∈ bytes, b < 256) :
    (bytes.map (Nat.toDigits 10)).mapM ipv4Number = some bytes := by
  induction bytes with
  | nil => rfl
  | cons b bytes ih =>
    obtain ⟨hb, h⟩ := List.forall_mem_cons.mp h
    simp [ipv4Number_toDigits hb, ih h]

section Bytes

variable {bytes : List ℕ} (h : IsBytes bytes)

include h

theorem IsBytes.exists_getLast? : ∃ b, bytes.getLast? = some b ∧ b < 256 := by
  have hn : bytes ≠ [] := by
    rintro rfl
    cases h.1
  exact ⟨_, List.getLast?_eq_some_getLast hn, h.2 _ (List.getLast_mem hn)⟩

theorem IsBytes.properLabels_ipv4Text :
    properLabels (ipv4Text bytes) = bytes.map (Nat.toDigits 10) := by
  obtain ⟨b, hl, -⟩ := h.exists_getLast?
  have hs : labels (ipv4Text bytes) = bytes.map (Nat.toDigits 10) := by
    refine List.splitOn_intercalate '.' (fun l hl => ?_) (fun hn => ?_)
    · obtain ⟨b, -, rfl⟩ := List.mem_map.mp hl
      exact Text.not_mem_toDigits (by decide) (by decide) (by decide)
    · simp [List.map_eq_nil_iff.mp hn] at hl
  rw [properLabels, hs, if_neg]
  simp [hl, Nat.toDigits_ne_nil]

theorem IsBytes.endsInNumber_ipv4Text : endsInNumber (ipv4Text bytes) = true := by
  obtain ⟨b, hl, hb⟩ := h.exists_getLast?
  rw [endsInNumber, h.properLabels_ipv4Text, List.getLast?_map, hl]
  simp [ipv4Number_toDigits hb]

theorem IsBytes.ipv4?_ipv4Text : ipv4? (ipv4Text bytes) = some bytes := by
  obtain ⟨b, hl, hb⟩ := h.exists_getLast?
  have hf : ∀ x ∈ bytes.dropLast, x ≤ 255 := fun x hx =>
    Nat.le_of_lt_succ (h.2 x (List.mem_of_mem_dropLast hx))
  simp only [ipv4?, h.properLabels_ipv4Text, mapM_ipv4Number h.2, Option.bind_eq_bind,
    Option.bind_some, hl, h.1]
  rw [if_neg]
  · simp only [Nat.reduceSub, List.range_one, List.reverse_singleton, List.map_singleton]
    rw [show Nat.pow 256 0 = 1 from rfl, Nat.div_one, Nat.mod_eq_of_lt hb,
      List.dropLast_append_getLast? b hl]
    rfl
  · have : Nat.pow 256 (5 - 4) = 256 := rfl
    simp only [Bool.or_eq_true, decide_eq_true_eq, List.any_eq_true, not_or, not_exists, not_and]
    exact ⟨⟨by omega, fun x hx => by have := hf x hx; omega⟩, by omega⟩

end Bytes

/-! ## Hosts of special schemes -/

theorem specialHost_eq_ok_iff : specialHost s = .ok t ↔
    ∃ decoded, decode? s = some decoded ∧ domainText decoded ≠ [] ∧
      (∀ c ∈ domainText decoded, isForbiddenInDomain c = false) ∧
      if endsInNumber (domainText decoded) = true then
        ∃ bytes, ipv4? (domainText decoded) = some bytes ∧ t = ipv4Text bytes
      else t = domainText decoded := by
  unfold specialHost
  cases decode? s with
  | none => simp
  | some decoded =>
    simp only [Option.some.injEq, exists_eq_left']
    by_cases hn : domainText decoded = []
    · simp [hn, throw, throwThe, MonadExceptOf.throw, bind, Except.bind]
    by_cases hf : ∀ c ∈ domainText decoded, isForbiddenInDomain c = false
    · have ha : (domainText decoded).any isForbiddenInDomain = false := by simpa using hf
      simp only [List.isEmpty_iff, hn, ha, if_false, Bool.false_eq_true]
      rw [and_iff_right hn, and_iff_right hf]
      split_ifs with he
      · cases ipv4? (domainText decoded) with
        | none => simp [throw, throwThe, MonadExceptOf.throw, bind, Except.bind]
        | some bytes =>
          constructor
          · rintro ⟨⟩
            exact ⟨bytes, rfl, rfl⟩
          · rintro ⟨_, ⟨⟩, rfl⟩
            rfl
      · exact ⟨fun h => (Except.ok.inj h).symm, fun h => h ▸ rfl⟩
    · have ha : (domainText decoded).any isForbiddenInDomain = true := by simpa using hf
      simp [hn, ha, hf, throw, throwThe, MonadExceptOf.throw, bind, Except.bind]

theorem specialHost_cases (h : specialHost s = .ok t) :
    t ≠ [] ∧ (∀ c ∈ t, IsLowered c ∧ isForbiddenInDomain c = false) ∧
      (endsInNumber t = false ∨ ∃ bytes, IsBytes bytes ∧ t = ipv4Text bytes) := by
  obtain ⟨decoded, -, hn, hf, h⟩ := specialHost_eq_ok_iff.mp h
  split_ifs at h with he
  · obtain ⟨bytes, hb, rfl⟩ := h
    have hb := isBytes_of_ipv4? hb
    refine ⟨fun hn => ?_, fun c => isLowered_of_mem_ipv4Text, .inr ⟨bytes, hb, rfl⟩⟩
    have := hb.endsInNumber_ipv4Text
    rw [hn] at this
    exact absurd this (by decide)
  · obtain rfl := h
    exact ⟨hn, fun c hc => ⟨isLowered_of_mem_domainText hc, hf c hc⟩, .inl (by simpa using he)⟩

theorem specialHost_specialHost (h : specialHost s = .ok t) : specialHost t = .ok t := by
  obtain ⟨hn, hc, ht⟩ := specialHost_cases h
  have hp : '%' ∉ t := fun hm => absurd (hc _ hm).2 (by decide)
  have hd : domainText t = t := domainText_eq_self fun c h => (hc c h).1
  refine specialHost_eq_ok_iff.mpr ⟨t, decode?_eq_self hp, ?_⟩
  rw [hd]
  refine ⟨hn, fun c h => (hc c h).2, ?_⟩
  rcases ht with ht | ⟨bytes, hb, rfl⟩
  · rw [if_neg (by simp [ht])]
  · rw [if_pos hb.endsInNumber_ipv4Text]
    exact ⟨bytes, hb.ipv4?_ipv4Text, rfl⟩

end Url

end ApiTypings
