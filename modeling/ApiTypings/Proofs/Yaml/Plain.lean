import Mathlib
import ApiTypings.Yaml.Mapping
import ApiTypings.Yaml.Scalar

/-! # Reading plain scalars

A text that can be written plain is read up to the end of its line, and no further: the next line
starts in the column of the keys.
-/

namespace ApiTypings.Yaml

variable {before c : Char} {blanks s t rest : List Char}

/-! ## Lines -/

/-- The text is at its end or goes on in the first column. -/
def StartsLine (s : List Char) : Prop := ∀ c ∈ s.head?, isSpaceOrBreak c = false

@[simp] theorem startsLine_nil : StartsLine [] := by simp [StartsLine]

theorem isBlank_iff : isBlank c = true ↔ c = ' ' ∨ c = '\t' := by
  simp [isBlank]

theorem isBlank_of_isPrintable (h : isPrintable c = true) : isBlank c = true ↔ c = ' ' := by
  have ht : c ≠ '\t' := by
    rintro rfl
    revert h
    decide
  simp [isBlank_iff, ht]

theorem isSpaceOrBreak_eq_false_iff :
    isSpaceOrBreak c = false ↔ isBlank c = false ∧ isBreak c = false := by
  simp [isSpaceOrBreak]

theorem endsWord_append_break (s t : List Char) : endsWord (s ++ '\n' :: t) = endsWord s := by
  cases s with
  | nil => rfl
  | cons d s => rfl

/-! ## The text on the line -/

/-- What lets a text go on as a plain scalar after blanks that have been read. -/
structure GoesOn (blanks s : List Char) : Prop where
  /-- Blanks that were read belong to a text after them. -/
  blanks_eq : s = [] → blanks = []
  printable : ∀ c ∈ s, isPrintable c = true ∧ isBreak c = false
  last : s.getLast? ≠ some ' '
  noIndicator : ∃ before, (blanks ≠ [] → isSpaceOrBreak before = true) ∧
    hasIndicator before s = false

theorem GoesOn.blank (h : GoesOn blanks (' ' :: s)) : GoesOn (blanks ++ [' ']) s := by
  obtain ⟨before, -, hi⟩ := h.noIndicator
  simp only [hasIndicator, Bool.or_eq_false_iff] at hi
  have hs : s ≠ [] := by
    rintro rfl
    exact h.last rfl
  exact ⟨fun he => absurd he hs, fun c hc => h.printable c (List.mem_cons_of_mem _ hc),
    List.getLast?_cons_of_ne_nil (x := ' ') hs ▸ h.last, ' ', fun _ => rfl, hi.2⟩

theorem GoesOn.word (h : GoesOn blanks (c :: s)) : GoesOn [] s := by
  obtain ⟨before, -, hi⟩ := h.noIndicator
  simp only [hasIndicator, Bool.or_eq_false_iff] at hi
  refine ⟨fun _ => rfl, fun d hd => h.printable d (List.mem_cons_of_mem _ hd), ?_, c,
    fun hn => absurd rfl hn, hi.2⟩
  cases s with
  | nil => simp
  | cons d s => simpa [List.getLast?_cons_cons] using h.last

theorem plainWords_goesOn (h : GoesOn blanks s) (rest : List Char) :
    plainWords false blanks (s ++ '\n' :: rest) = (blanks ++ s, '\n' :: rest) := by
  induction s generalizing blanks with
  | nil => simp [h.blanks_eq rfl, plainWords, isBlank, isBreak]
  | cons c s ih =>
    obtain ⟨hp, hb⟩ := h.printable c List.mem_cons_self
    by_cases hc : c = ' '
    · subst hc
      simp [plainWords, isBlank, ih h.blank]
    · obtain ⟨before, hbefore, hi⟩ := h.noIndicator
      simp only [hasIndicator, Bool.or_eq_false_iff, Bool.and_eq_false_iff] at hi
      have hblank : isBlank c = false := by
        rw [← Bool.not_eq_true, isBlank_of_isPrintable hp]
        exact hc
      have hcomment : (c == '#' && !blanks.isEmpty) = false := by
        rcases hi.1.2 with h | h
        · simp [h]
        · have : blanks = [] := by
            by_contra hn
            simp [hbefore hn] at h
          simp [this]
      have hkey : (c == ':' && endsWord (s ++ '\n' :: rest)) = false := by
        rw [endsWord_append_break, Bool.and_eq_false_iff]
        exact hi.1.1
      simp [plainWords, hblank, hb, hcomment, hkey, ih h.word]

/-! ## The text up to the next line -/

theorem plainLines_startsLine (h : plainWords false [] s = (t, '\n' :: rest))
    (hr : StartsLine rest) (fuel : ℕ) :
    plainLines false 0 (fuel + 1) s = (t, '\n' :: rest) := by
  have hn : (nextLine false 0 .empty 0 ('\n' :: rest)).2.1 = 0 := by
    cases rest with
    | nil => rfl
    | cons c rest =>
      have hc := isSpaceOrBreak_eq_false_iff.mp (hr c rfl)
      have hblank : c ≠ ' ' ∧ c ≠ '\t' := by simpa [isBlank] using hc.1
      simp [nextLine, isBreak.eq_def '\n', hc.2, hblank]
  simp [plainLines, h, isBreak.eq_def '\n', hn]

theorem goesOn_of_canBePlain (h : canBePlain s = true) : GoesOn [] s := by
  simp only [canBePlain, Bool.and_eq_true, Bool.not_eq_true', List.all_eq_true, bne_iff_ne,
    ne_eq] at h
  exact ⟨fun _ => rfl, fun c hc => h.1.1.2 c hc, h.2, ' ', fun hn => absurd rfl hn, h.1.1.1.2⟩

theorem readPlain_of_canBePlain (h : canBePlain s = true) (hr : StartsLine rest) :
    readPlain false 0 (s ++ '\n' :: rest) = (s, '\n' :: rest) :=
  plainLines_startsLine (plainWords_goesOn (goesOn_of_canBePlain h) rest) hr _

end ApiTypings.Yaml
