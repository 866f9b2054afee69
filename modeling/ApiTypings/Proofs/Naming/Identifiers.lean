import Mathlib
import ApiTypings.Proofs.Naming.Families
import ApiTypings.Proofs.Text.Digits
import ApiTypings.Proofs.Text.Letters
import ApiTypings.Proofs.Text.Scanning
import ApiTypings.TypeScript.Identifier

/-! # Names as identifiers

All that a name takes from a path, and the number at its end, are letters, digits and underscores,
also in upper case. Only the method is taken as it is, so a name is an identifier exactly if its
method spoils nothing.
-/

namespace ApiTypings.Naming

open TypeScript

/-! ## Word characters -/

theorem isWord_toUpper {c : Char} (h : isWord c = true) :
    isWord c.toUpper = true ∧ c.toNat < 128 := by
  have hu : ∀ n < 128, isWord (Char.ofNat n) = true → isWord (Char.ofNat n).toUpper = true := by
    decide
  have hc : c.toNat < 128 := by
    rcases Bool.or_eq_true_iff.mp h with ha | hb
    · have := Text.toNat_lt_of_isAlphanum ha
      omega
    · rw [eq_of_beq hb]
      decide
  exact ⟨by simpa using hu c.toNat hc (by simpa using h), hc⟩

theorem isNamePart_of_isWord {c : Char} (h : isWord c = true) : isNamePart c = true := by
  rw [isNamePart, Bool.or_eq_true]
  exact .inl h

def IsWordText (s : String) : Prop := ∀ c ∈ s.toList, isWord c = true

namespace IsWordText

variable {s t : String}

theorem empty : IsWordText "" := by simp [IsWordText]

theorem underscore : IsWordText "_" := by simp [IsWordText, isWord]

theorem root : IsWordText "Root" := by simp [IsWordText, isWord]

theorem append (hs : IsWordText s) (ht : IsWordText t) : IsWordText (s ++ t) := by
  intro c hc
  rw [String.toList_append, List.mem_append] at hc
  rcases hc with hc | hc
  · exact hs c hc
  · exact ht c hc

theorem capitalize (h : IsWordText s) : IsWordText (Text.capitalize s) := by
  apply Text.forall_mem_capitalize
  intro c hc
  obtain ⟨hu, hlt⟩ := isWord_toUpper (h c hc)
  refine ⟨h c hc, ?_⟩
  intro d hd
  rw [Text.upper_of_lt hlt, List.mem_singleton] at hd
  rwa [hd]

theorem number (k : ℕ) : IsWordText (toString k) := by
  intro c hc
  have hk : (toString k).toList = Nat.toDigits 10 k := Nat.toList_repr
  rw [hk] at hc
  rw [isWord, Text.isAlphanum_of_mem_toDigits (by decide) (by decide) hc]
  rfl

end IsWordText

/-! ## The parts of a name -/

theorem isWordText_of_segment {s name : List Char} {n : ℕ} (h : segment s = some (name, n)) :
    IsWordText (String.ofList name) := by
  unfold segment at h
  split at h
  · dsimp only at h
    split_ifs at h
    cases h
    intro c hc
    rw [String.toList_ofList] at hc
    exact List.mem_takeWhile_imp hc
  · cases h

theorem isWordText_of_routeParameter {s name : List Char} {n : ℕ}
    (h : routeParameter s = some (name, n)) : IsWordText (String.ofList name) := by
  obtain ⟨t, -, hw, -⟩ := Text.exists_of_braced h
  intro c hc
  rw [String.toList_ofList] at hc
  exact hw c hc

namespace Candidate

variable (path method : String)

theorem isWordText_of_mem_segments {s : String} (h : s ∈ (ofEndpoint path method).segments) :
    IsWordText s := by
  obtain ⟨name, hn, rfl⟩ := List.mem_map.mp h
  obtain ⟨t, n, ht⟩ := Text.exists_of_mem_occurrences hn
  exact isWordText_of_segment ht

theorem isWordText_of_mem_suffix {s : String} (h : s ∈ (ofEndpoint path method).suffix) :
    IsWordText s := by
  obtain ⟨hs, -⟩ := Option.filter_eq_some_iff.mp h
  obtain ⟨name, hn, rfl⟩ := Option.map_eq_some_iff.mp hs
  obtain ⟨t, n, ht⟩ := Text.exists_of_mem_occurrences (List.mem_of_getLast? hn)
  exact (isWordText_of_routeParameter ht).capitalize

theorem isWordText_lastSegment : IsWordText (ofEndpoint path method).lastSegment := by
  unfold lastSegment
  cases h : (ofEndpoint path method).segments.getLast? with
  | none => exact .root
  | some s => exact isWordText_of_mem_segments path method (List.mem_of_getLast? h)

theorem isWordText_previousSegment : IsWordText (ofEndpoint path method).previousSegment := by
  unfold previousSegment
  cases h : (ofEndpoint path method).segments.dropLast.getLast? with
  | none => exact .empty
  | some s =>
    have hs := List.mem_of_getLast? h
    exact isWordText_of_mem_segments path method (List.mem_of_mem_dropLast hs)

theorem exists_isWordText_of_mem_family {name : String}
    (h : name ∈ (ofEndpoint path method).family) :
    ∃ t, name = "A" ++ methodWord method ++ t ∧ IsWordText t := by
  have hl := isWordText_lastSegment path method
  have hf : ∃ t, (ofEndpoint path method).fallback = "A" ++ methodWord method ++ t ∧
      IsWordText t := by
    refine ⟨_, String.append_assoc, ?_⟩
    exact (isWordText_previousSegment path method).capitalize.append hl.capitalize
  rcases h with rfl | rfl | ⟨k, -, rfl⟩
  · refine ⟨_, rfl, (hl.append ?_).capitalize⟩
    cases hs : (ofEndpoint path method).suffix with
    | none => exact .empty
    | some s =>
      exact IsWordText.underscore.append (isWordText_of_mem_suffix path method hs)
  · exact hf
  · obtain ⟨t, ht, hw⟩ := hf
    refine ⟨t ++ "_" ++ toString k, ?_, (hw.append .underscore).append (.number k)⟩
    rw [numbered, ht]
    simp only [String.append_assoc]

end Candidate

/-! ## Identifiers -/

theorem isIdentifier_iff_of_isWordText {m t : String} (h : IsWordText t) :
    isIdentifier ("A" ++ m ++ t) = true ↔ ∀ c ∈ m.toList, isNamePart c = true := by
  have hs : ("A" ++ m ++ t).toList = 'A' :: (m.toList ++ t.toList) := by
    simp [String.toList_append]
  have ha : isNameStart 'A' = true := by decide
  rw [isIdentifier, hs]
  dsimp only
  rw [ha, Bool.true_and, List.all_eq_true, List.forall_mem_append]
  exact and_iff_left fun c hc => isNamePart_of_isWord (h c hc)

/-- The name that an endpoint receives is an `A`, its method, and letters, digits and underscores.
So it is an identifier exactly if the method has letters, digits, underscores and dollar signs
only. -/
theorem claimEndpoint_isIdentifier_iff (l : Ledger) (path method : String) :
    (∃ t, (l.claimEndpoint path method).1 = "A" ++ methodWord method ++ t ∧
      ∀ c ∈ t.toList, (c.isAlphanum || c == '_') = true) ∧
    (isIdentifier (l.claimEndpoint path method).1 = true ↔
      ∀ c ∈ (methodWord method).toList, (c.isAlphanum || c == '_' || c == '$') = true) := by
  obtain ⟨t, ht, hw⟩ := Candidate.exists_isWordText_of_mem_family path method
    (l.choose_mem_family (.ofEndpoint path method))
  constructor
  · exact ⟨t, ht, hw⟩
  · change isIdentifier (l.choose (.ofEndpoint path method)) = true ↔ _
    rw [ht]
    exact isIdentifier_iff_of_isWordText hw

/-- A method of other letters spoils a name, whatever the path is. -/
example : isIdentifier (Ledger.empty.claimEndpoint "/straße/\x7bid\x7d" "get").1 = true ∧
    isIdentifier (Ledger.empty.claimEndpoint "/users" "ändern").1 = false := by
  decide +kernel

end ApiTypings.Naming
