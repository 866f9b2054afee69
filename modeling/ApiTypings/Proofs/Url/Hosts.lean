import Mathlib
import ApiTypings.Proofs.Url.Domains
import ApiTypings.Proofs.Url.Groups

/-! # Hosts

The text of a host that has been read is read as itself. It has no sign in it at which the texts
around it are cut, but for colons in brackets.
-/

namespace ApiTypings.Url

variable {special : Bool} {c : Char} {s t : List Char}

/-- A character at which no text with a host in it is cut. -/
def staysInHost (c : Char) : Bool :=
  0x20 < c.toNat && c != '#' && c != '/' && c != '?' && c != '@' && c != '\\' && c != '|'

theorem ne_of_not_isForbiddenInHost {d : Char} (h : isForbiddenInHost c = false)
    (hd : isForbiddenInHost d = true) : c ≠ d := by
  rintro rfl
  simp [h] at hd

theorem lt_of_not_isForbiddenInHost (h : isForbiddenInHost c = false) (hc : 0x20 ≤ c.toNat) :
    0x20 < c.toNat :=
  lt_of_le_of_ne hc fun he =>
    ne_of_not_isForbiddenInHost h (d := ' ') (by decide) (Char.toNat_inj.mp he.symm)

theorem staysInHost_of_not_isForbiddenInHost (h : isForbiddenInHost c = false)
    (hc : 0x20 < c.toNat) : staysInHost c = true := by
  have hn : ∀ d, isForbiddenInHost d = true → (c != d) = true := fun d hd =>
    bne_iff_ne.mpr (ne_of_not_isForbiddenInHost h hd)
  simp [staysInHost, hc, hn '#' (by decide), hn '/' (by decide), hn '?' (by decide),
    hn '@' (by decide), hn '\\' (by decide), hn '|' (by decide)]

/-- A character at which a text is cut before the host and the path in it are read. -/
def isCut (c : Char) : Bool := c.toNat ≤ 0x20 || c == '#' || c == '?'

theorem not_isCut_of_staysInHost (h : staysInHost c = true) :
    isCut c = false ∧ isSlash true c = false := by
  simp only [staysInHost, Bool.and_eq_true, decide_eq_true_eq, bne_iff_ne] at h
  simp [isCut, isSlash, h]

theorem not_isCut_of_not_inPath (h : inPath c = false) : isCut c = false := by
  have hn : ∀ d, inPath d = true → c ≠ d := by
    rintro d hd rfl
    simp [h] at hd
  simp [isCut, lt_of_not_inPath h, hn '#' (by decide), hn '?' (by decide)]

structure IsHost (special : Bool) (s : List Char) : Prop where
  read : hostText special s = .ok s
  chars : ∀ c ∈ s, staysInHost c = true
  port : ∀ t, cutPort (s ++ t) = (s ++ (cutPort t).1, (cutPort t).2)

/-! ## Ports -/

theorem cutPort_append_of_not_mem (h : ∀ c ∈ s, c ≠ ':' ∧ c ≠ '[') (t : List Char) :
    cutPort (s ++ t) = (s ++ (cutPort t).1, (cutPort t).2) := by
  induction s with
  | nil => rfl
  | cons c s ih =>
    obtain ⟨⟨h₁, h₂⟩, h⟩ := List.forall_mem_cons.mp h
    have ih := ih h
    simp only [cutPort] at ih ⊢
    simp [cutPort.go, h₁, h₂, ih]

theorem go_append_of_not_mem (h : '[' ∉ s ∧ ']' ∉ s) (t : List Char) :
    cutPort.go true (s ++ t) = (s ++ (cutPort.go true t).1, (cutPort.go true t).2) := by
  induction s with
  | nil => rfl
  | cons c s ih =>
    simp only [List.mem_cons, not_or] at h
    obtain ⟨⟨h₁, h₂⟩, h₃, h₄⟩ := h
    simp [cutPort.go, ih ⟨h₂, h₄⟩, Ne.symm h₁, Ne.symm h₃]

theorem cutPort_brackets (h : '[' ∉ s ∧ ']' ∉ s) (t : List Char) :
    cutPort ('[' :: (s ++ [']']) ++ t) = ('[' :: (s ++ [']']) ++ (cutPort t).1, (cutPort t).2) := by
  simp [cutPort, cutPort.go, go_append_of_not_mem h]

/-! ## Hosts -/

theorem hostText_bracket {rest : List Char} : hostText special ('[' :: rest) = .ok t ↔
    rest.getLast? = some ']' ∧ ∃ gs, ipv6? rest.dropLast = some gs ∧ t = ipv6Text gs := by
  rw [hostText]
  by_cases hl : rest.getLast? = some ']'
  · rw [if_neg (by simp [hl]), and_iff_right hl]
    cases ipv6? rest.dropLast with
    | none => simp [throw, throwThe, MonadExceptOf.throw]
    | some gs =>
      constructor
      · rintro ⟨⟩
        exact ⟨gs, rfl, rfl⟩
      · rintro ⟨_, ⟨⟩, rfl⟩
        rfl
  · rw [if_pos (by simpa using hl)]
    simp [hl, throw, throwThe, MonadExceptOf.throw, bind, Except.bind]

theorem hostText_of_head?_ne (h : s.head? ≠ some '[') : hostText special s =
    if special then specialHost s
    else if s.any isForbiddenInHost then .error .invalidCharacter
    else .ok (encode isControl s) := by
  rw [hostText]
  · rfl
  · rintro rest rfl
    exact h rfl

theorem hostText_cases (h : hostText special s = .ok t) :
    (∃ gs, IsGroups gs ∧ t = ipv6Text gs) ∨
      (special = true ∧ specialHost s = .ok t) ∨
        (special = false ∧ (∀ c ∈ s, isForbiddenInHost c = false) ∧ t = encode isControl s) := by
  by_cases hs : s.head? = some '['
  · obtain ⟨rest, rfl⟩ := List.head?_eq_some_iff.mp hs
    obtain ⟨-, gs, hg, rfl⟩ := hostText_bracket.mp h
    exact .inl ⟨gs, isGroups_of_ipv6? hg, rfl⟩
  · rw [hostText_of_head?_ne hs] at h
    split_ifs at h with hs hf
    · exact .inr (.inl ⟨hs, h⟩)
    · cases h
      exact .inr (.inr ⟨by simpa using hs, by simpa using hf, rfl⟩)

theorem isHost_ipv6Text {gs : List ℕ} (h : IsGroups gs) : IsHost special (ipv6Text gs) := by
  obtain ⟨t, he, hr, hc⟩ := exists_ipv6Text h
  have hd : ∀ d < 16, staysInHost (Nat.digitChar d) = true ∧ Nat.digitChar d ≠ '[' ∧
      Nat.digitChar d ≠ ']' := by decide
  have hc : ∀ c ∈ t, staysInHost c = true ∧ c ≠ '[' ∧ c ≠ ']' := fun c hm => by
    obtain rfl | ⟨d, hlt, rfl⟩ := hc c hm
    · decide
    · exact hd d hlt
  rw [he]
  refine ⟨?_, ?_, cutPort_brackets ⟨fun hm => (hc _ hm).2.1 rfl, fun hm => (hc _ hm).2.2 rfl⟩⟩
  · exact hostText_bracket.mpr ⟨by simp, gs, by simpa using hr, he.symm⟩
  · refine List.forall_mem_cons.mpr ⟨by decide, List.forall_mem_append.mpr
      ⟨fun c hm => (hc c hm).1, List.forall_mem_singleton.mpr (by decide)⟩⟩

theorem isHost_of_specialHost (h : specialHost s = .ok t) : IsHost true t := by
  obtain ⟨-, hc, -⟩ := specialHost_cases h
  have hf : ∀ c ∈ t, isForbiddenInHost c = false ∧ 0x20 < c.toNat := fun c hm => by
    have hc := (hc c hm).2
    simp only [isForbiddenInDomain, Bool.or_eq_false_iff, decide_eq_false_iff_not] at hc
    refine ⟨hc.1.1.1, lt_of_not_isForbiddenInHost hc.1.1.1 (by omega)⟩
  have hn : ∀ c ∈ t, ∀ d, isForbiddenInHost d = true → c ≠ d := fun c hm d =>
    ne_of_not_isForbiddenInHost (hf c hm).1
  refine ⟨?_, fun c hm => staysInHost_of_not_isForbiddenInHost (hf c hm).1 (hf c hm).2,
    cutPort_append_of_not_mem fun c hm => ⟨hn c hm _ (by decide), hn c hm _ (by decide)⟩⟩
  rw [hostText_of_head?_ne fun hm => hn _ (List.mem_of_head? hm) _ (by decide) rfl, if_pos rfl]
  exact specialHost_specialHost h

theorem isHost_encode (h : ∀ c ∈ s, isForbiddenInHost c = false) :
    IsHost false (encode isControl s) := by
  have hf : ∀ c ∈ encode isControl s, isForbiddenInHost c = false ∧ 0x20 < c.toNat := by
    intro c hm
    have hx : ∀ m < 16, isForbiddenInHost (Text.hexDigit m) = false := by decide
    have hi : isForbiddenInHost c = false := by
      obtain ⟨hc, -⟩ | rfl | ⟨m, hlt, rfl⟩ := mem_encode hm
      · exact h c hc
      · decide
      · exact hx m hlt
    have hc := not_of_mem_encode keepsBytes_isControl hm
    simp only [isControl, Bool.or_eq_false_iff, decide_eq_false_iff_not] at hc
    exact ⟨hi, lt_of_not_isForbiddenInHost hi (by omega)⟩
  have hn : ∀ c ∈ encode isControl s, ∀ d, isForbiddenInHost d = true → c ≠ d := fun c hm d =>
    ne_of_not_isForbiddenInHost (hf c hm).1
  refine ⟨?_, fun c hm => staysInHost_of_not_isForbiddenInHost (hf c hm).1 (hf c hm).2,
    cutPort_append_of_not_mem fun c hm => ⟨hn c hm _ (by decide), hn c hm _ (by decide)⟩⟩
  rw [hostText_of_head?_ne fun hm => hn _ (List.mem_of_head? hm) _ (by decide) rfl,
    if_neg (by decide), if_neg, encode_encode keepsBytes_isControl]
  simpa using fun c hm => (hf c hm).1

theorem isHost_of_hostText (h : hostText special s = .ok t) : IsHost special t := by
  obtain ⟨gs, hg, rfl⟩ | ⟨rfl, hs⟩ | ⟨rfl, hs, rfl⟩ := hostText_cases h
  · exact isHost_ipv6Text hg
  · exact isHost_of_specialHost hs
  · exact isHost_encode hs

theorem ne_nil_of_hostText (h : hostText special s = .ok t) (hs : s ≠ []) : t ≠ [] := by
  obtain ⟨gs, hg, rfl⟩ | ⟨-, h⟩ | ⟨-, -, rfl⟩ := hostText_cases h
  · simp [ipv6Text]
  · exact (specialHost_cases h).1
  · exact encode_ne_nil hs

theorem IsHost.isDrive_eq (h : IsHost special s) : isDrive s = false := by
  unfold isDrive
  split
  · next c m =>
    simp only [Bool.and_eq_false_iff, Bool.or_eq_false_iff, beq_eq_false_iff_ne]
    by_contra hn
    simp only [not_or, not_and_or, not_not, Bool.not_eq_false] at hn
    obtain ⟨hc, rfl | rfl⟩ := hn
    · have hb : c ≠ '[' ∧ c ≠ ':' := by constructor <;> rintro rfl <;> cases hc
      simpa [cutPort, cutPort.go, hb] using h.port []
    · exact absurd (h.chars '|' (by simp)) (by decide)
  · rfl

end ApiTypings.Url
