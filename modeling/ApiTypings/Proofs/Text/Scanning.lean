import Mathlib
import ApiTypings.Text.Scan

/-! # Scanning for matches

A text is the sequence of its pieces: where the pattern matches, the scan goes on behind the match,
elsewhere behind one character. A match that starts inside another one is passed over; there is none
if a mark opens every match and does not stand in it again. A name between braces is read up to the
closing brace.
-/

namespace ApiTypings.Text

variable {α : Type} {p : Pattern α} {a : α} {c : Char} {n : ℕ}

theorem piecesAfter_append (w t : List Char) :
    piecesAfter p w.length (w ++ t) = pieces p t := by
  induction w with
  | nil => rfl
  | cons c w ih => simpa [piecesAfter] using ih

theorem pieces_found {w t : List Char} (h : p (c :: (w ++ t)) = some (a, w.length + 1)) :
    pieces p (c :: (w ++ t)) = .found a :: pieces p t := by
  simp [pieces, piecesAfter, h, piecesAfter_append]

theorem pieces_plain {t : List Char} (h : p (c :: t) = none) :
    pieces p (c :: t) = .plain c :: pieces p t := by
  simp [pieces, piecesAfter, h]

theorem exists_of_found_mem_piecesAfter {skip : ℕ} {s : List Char}
    (h : .found a ∈ piecesAfter p skip s) : ∃ t n, p t = some (a, n) := by
  induction s generalizing skip with
  | nil => cases skip <;> cases h
  | cons c s ih =>
    cases skip with
    | succ skip => exact ih h
    | zero =>
      rw [piecesAfter] at h
      split at h
      · rename_i b n hp
        rcases List.mem_cons.mp h with he | h
        · cases he
          exact ⟨_, n, hp⟩
        · exact ih h
      · rcases List.mem_cons.mp h with he | h
        · cases he
        · exact ih h

theorem exists_of_mem_occurrences {s : List Char} (h : a ∈ occurrences p s) :
    ∃ t n, p t = some (a, n) := by
  obtain ⟨piece, hm, hf⟩ := List.mem_filterMap.mp h
  cases piece with
  | plain c => cases hf
  | found b =>
    cases hf
    exact exists_of_found_mem_piecesAfter hm

variable {text : α → List Char}

theorem replaceAll_found {w t : List Char} (h : p (c :: (w ++ t)) = some (a, w.length + 1)) :
    replaceAll p text (c :: (w ++ t)) = text a ++ replaceAll p text t := by
  simp [replaceAll, pieces_found h]

theorem replaceAll_plain {t : List Char} (h : p (c :: t) = none) :
    replaceAll p text (c :: t) = c :: replaceAll p text t := by
  simp [replaceAll, pieces_plain h]

/-! ## Matches at all places -/

/-- What a pattern finds at the places of a text, one after the other, whether or not the matches
overlap. -/
def everywhere (p : Pattern α) (s : List Char) : List α :=
  s.tails.filterMap fun t => (p t).map Prod.fst

/-- Every match starts with the mark, and the mark does not stand in it again. -/
structure OpensWith (p : Pattern α) (mark : Char) : Prop where
  head {s : List Char} {a : α} {n : ℕ} : p s = some (a, n) → s.head? = some mark
  fresh {s : List Char} {a : α} {n : ℕ} : p (mark :: s) = some (a, n) → mark ∉ s.take (n - 1)

theorem everywhere_cons (p : Pattern α) (c : Char) (s : List Char) :
    everywhere p (c :: s) = ((p (c :: s)).map Prod.fst).toList ++ everywhere p s := by
  rw [everywhere, List.tails_cons, List.filterMap_cons]
  cases p (c :: s) <;> rfl

namespace OpensWith

variable {mark : Char} {s : List Char}

theorem eq_none (h : OpensWith p mark) (hs : s.head? ≠ some mark) : p s = none := by
  cases hp : p s with
  | none => rfl
  | some m => exact absurd (h.head hp) hs

theorem everywhere_nil (h : OpensWith p mark) : everywhere p [] = [] := by
  have hn : p [] = none := h.eq_none (by simp)
  simp [everywhere, hn]

/-- Nothing is found at the places that are skipped, since the mark does not stand there. -/
theorem filterMap_piecesAfter (h : OpensWith p mark) {skip : ℕ} (hs : mark ∉ s.take skip) :
    (piecesAfter p skip s).filterMap Piece.found? = everywhere p s := by
  induction s generalizing skip with
  | nil => cases skip <;> exact h.everywhere_nil.symm
  | cons c s ih =>
    rw [everywhere_cons]
    cases skip with
    | succ skip =>
      rw [List.take_succ_cons, List.mem_cons, not_or] at hs
      have hn : p (c :: s) = none := h.eq_none (by simpa using Ne.symm hs.1)
      rw [hn, piecesAfter, ih hs.2]
      rfl
    | zero =>
      cases hp : p (c :: s) with
      | none =>
        simp only [piecesAfter, hp]
        exact ih List.not_mem_nil
      | some m =>
        obtain ⟨a, n⟩ := m
        obtain rfl : c = mark := by simpa using h.head hp
        simp only [piecesAfter, hp]
        -- the characters that are skipped next belong to the match
        exact congrArg (a :: ·) (ih (h.fresh hp))

/-- The scan passes over no match. -/
theorem occurrences_eq (h : OpensWith p mark) (s : List Char) :
    occurrences p s = everywhere p s :=
  h.filterMap_piecesAfter List.not_mem_nil

end OpensWith

/-! ## Names between braces -/

variable {inName : Char → Bool} {s name : List Char}

theorem braced_eq_some {t : List Char} (h : ∀ c ∈ name, inName c = true)
    (hb : inName '\x7d' = false) :
    braced inName ('\x7b' :: (name ++ '\x7d' :: t)) = some (name, name.length + 2) := by
  have ht : (name ++ '\x7d' :: t).takeWhile inName = name := by
    rw [List.takeWhile_append_of_pos h]
    simp [hb]
  simp [braced, ht]

theorem exists_of_braced (h : braced inName s = some (name, n)) :
    ∃ t, s = '\x7b' :: (name ++ '\x7d' :: t) ∧ (∀ c ∈ name, inName c = true) ∧
      n = name.length + 2 := by
  unfold braced at h
  split at h
  · rename_i rest
    have htake := List.prefix_iff_eq_append.mp (List.takeWhile_prefix inName (l := rest))
    dsimp only at h
    split at h
    · rename_i t hd
      simp only [Option.some.injEq, Prod.mk.injEq] at h
      obtain ⟨rfl, rfl⟩ := h
      refine ⟨t, by rw [← hd, htake], ?_, rfl⟩
      intro c hc
      exact List.mem_takeWhile_imp hc
    · cases h
  · cases h

theorem opensWith_braced (hb : inName '\x7b' = false) : OpensWith (braced inName) '\x7b' where
  head hp := by
    obtain ⟨t, rfl, -, -⟩ := exists_of_braced hp
    rfl
  fresh {s name n} hp := by
    obtain ⟨t, ht, hw, rfl⟩ := exists_of_braced hp
    obtain rfl : s = name ++ '\x7d' :: t := (List.cons.inj ht).2
    have hn : '\x7b' ∉ name := fun hm => by simp [hw _ hm] at hb
    rw [Nat.add_sub_assoc (by decide), List.take_length_add_append]
    simp [hn]

end ApiTypings.Text
