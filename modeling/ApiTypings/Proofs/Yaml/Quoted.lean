import Mathlib
import ApiTypings.Proofs.Text.Digits
import ApiTypings.Proofs.Yaml.Plain

/-! # Reading quoted scalars

Single quotes keep a text whose lines neither start nor end with a space. Double quotes keep every
text: what is not printable stands there as an escape sequence.
-/

namespace ApiTypings.Yaml

variable {c : Char} {s t : List Char} {gap : Gap}

/-! ## Single quotes -/

def Gap.isBroken : Gap → Bool
  | .broken _ _ => true
  | _ => false

theorem readSingle_quote (h : t.head? ≠ some '\'') :
    readSingle gap ('\'' :: t) = some (gap.text, t) := by
  rw [readSingle]
  rintro rest rfl
  exact h rfl

theorem readSingle_quotes (t : List Char) :
    readSingle gap ('\'' :: '\'' :: t) =
      (readSingle .empty t).map (prepend (gap.text ++ ['\''])) := by
  rw [readSingle]

theorem readSingle_blank (h : isBlank c = true) :
    readSingle gap (c :: t) = readSingle (gap.blank c) t := by
  have hq : c ≠ '\'' := by
    rintro rfl
    cases h
  rw [readSingle, if_pos h]
  all_goals simp [hq]

theorem readSingle_break (h : isBreak c = true) (ht : isMarker t = false) :
    readSingle gap (c :: t) = readSingle (gap.lineBreak c) t := by
  have hq : c ≠ '\'' ∧ isBlank c = false := by
    simp only [isBreak, Bool.or_eq_true, beq_iff_eq, or_assoc] at h
    rcases h with rfl | rfl | rfl <;> decide
  rw [readSingle]
  all_goals simp [hq, h, ht]

theorem readSingle_char (hq : c ≠ '\'') (h : isSpaceOrBreak c = false) :
    readSingle gap (c :: t) = (readSingle .empty t).map (prepend (gap.text ++ [c])) := by
  rw [isSpaceOrBreak_eq_false_iff] at h
  rw [readSingle]
  all_goals simp [hq, h]

/-- The indentation of a line does not count. -/
theorem readSingle_margin (gap : Gap) (t : List Char) :
    readSingle gap ((if gap.isBroken then margin else []) ++ t) = readSingle gap t := by
  cases gap with
  | inLine | joined => rfl
  | broken first more =>
    have hm : readSingle (.broken first more) (' ' :: ' ' :: t) =
        readSingle (.broken first more) t := by
      rw [readSingle_blank rfl, readSingle_blank rfl]
      rfl
    exact hm

/-- The texts that can be written between single quotes. Of the breaks, only a line feed would be
changed when lines are put together. -/
structure Singly (s : List Char) : Prop where
  printable : ∀ c ∈ s, isPrintable c = true
  no_lineFeed : '\n' ∉ s
  no_space_break : hasPair isSpace isBreak s = false
  no_break_space : hasPair isBreak isSpace s = false

/-- White space that has been read does not take what follows into itself. -/
def Joins : Gap → List Char → Prop
  | .inLine blanks, s => blanks = [] ∨ ∀ c ∈ s.head?, isBreak c = false
  | .broken first _, s => first ≠ '\n' ∧ s.head? ≠ some ' '
  | .joined _, _ => False

theorem hasPair_cons_eq_false_iff {p q : Char → Bool} : hasPair p q (c :: s) = false ↔
    (p c = true → ∀ d ∈ s.head?, q d = false) ∧ hasPair p q s = false := by
  cases s with
  | nil => simp [hasPair]
  | cons d s => simp [hasPair]

theorem Singly.tail (h : Singly (c :: s)) : Singly s where
  printable c hc := h.printable c (List.mem_cons_of_mem _ hc)
  no_lineFeed hc := h.no_lineFeed (List.mem_cons_of_mem _ hc)
  no_space_break := (hasPair_cons_eq_false_iff.mp h.no_space_break).2
  no_break_space := (hasPair_cons_eq_false_iff.mp h.no_break_space).2

theorem Singly.ne_lineFeed (h : Singly (c :: s)) : c ≠ '\n' := fun hc =>
  h.no_lineFeed (hc ▸ List.mem_cons_self)

theorem Singly.joins_blank (h : Singly (' ' :: s)) (blanks : List Char) :
    Joins (.inLine blanks) s :=
  .inr ((hasPair_cons_eq_false_iff.mp h.no_space_break).1 rfl)

/-- Breaks come after breaks or after characters, not after blanks. -/
theorem Singly.lineBreak (h : Singly (c :: s)) (hj : Joins gap (c :: s)) (hc : isBreak c = true) :
    Joins (gap.lineBreak c) s ∧ (gap.lineBreak c).isBroken = true ∧
      (gap.lineBreak c).text = gap.text ++ [c] := by
  have hn := h.ne_lineFeed
  have hs : s.head? ≠ some ' ' := fun hs => by
    have := (hasPair_cons_eq_false_iff.mp h.no_break_space).1 hc ' ' hs
    cases this
  cases gap with
  | inLine blanks =>
    have hb : blanks = [] := hj.resolve_right fun hb => by simp [hc] at hb
    refine ⟨⟨hn, hs⟩, rfl, ?_⟩
    simp [Gap.lineBreak, Gap.text, foldBreaks, hn, hb]
  | broken first more =>
    refine ⟨⟨hj.1, hs⟩, rfl, ?_⟩
    simp [Gap.lineBreak, Gap.text, foldBreaks, hj.1]
  | joined => exact hj.elim

theorem isMarker_eq_false (h : c ≠ '-' ∧ c ≠ '.') (t : List Char) : isMarker (c :: t) = false := by
  simp [isMarker, eq_comm (b := c), h]

/-- A line that goes on is indented, or empty. -/
theorem isMarker_singleBody (s t : List Char) :
    isMarker (singleBody true s ++ '\'' :: t) = false := by
  cases s with
  | nil => exact isMarker_eq_false (by decide) _
  | cons c s =>
    by_cases hb : isBreak c = true
    · have hc : c ≠ '-' ∧ c ≠ '.' := by
        constructor <;> rintro rfl <;> cases hb
      simp only [singleBody, hb, if_true, Bool.not_true, Bool.and_false, Bool.false_eq_true,
        if_false, List.nil_append, List.cons_append]
      exact isMarker_eq_false hc _
    · simp only [singleBody, hb, if_true, Bool.false_eq_true, if_false]
      exact isMarker_eq_false (by decide) _

theorem readSingle_singleBody (gap : Gap) (h : Singly s) (hj : Joins gap s)
    (ht : t.head? ≠ some '\'') :
    readSingle gap (singleBody gap.isBroken s ++ '\'' :: t) = some (gap.text ++ s, t) := by
  induction s generalizing gap with
  | nil => rw [singleBody, readSingle_margin, readSingle_quote ht, List.append_nil]
  | cons c s ih =>
    have hp := h.printable c List.mem_cons_self
    have hn := h.ne_lineFeed
    have hempty : readSingle .empty (singleBody false s ++ '\'' :: t) = some (s, t) :=
      ih .empty h.tail (.inl rfl)
    by_cases hb : isBreak c = true
    · obtain ⟨hs, hbroken, htext⟩ := h.lineBreak hj hb
      have hbody : singleBody gap.isBroken (c :: s) = c :: singleBody true s := by
        simp [singleBody, hb, hn]
      rw [hbody, List.cons_append, readSingle_break hb (isMarker_singleBody s t), ← hbroken,
        ih _ h.tail hs, htext, List.append_assoc, List.singleton_append]
    · have hbody : singleBody gap.isBroken (c :: s) = (if gap.isBroken then margin else []) ++
          ((if c = '\'' then ['\'', '\''] else [c]) ++ singleBody false s) := by
        simp [singleBody, hb]
      rw [hbody, List.append_assoc, readSingle_margin]
      by_cases hq : c = '\''
      · subst hq
        rw [if_pos rfl, List.append_assoc]
        simp [readSingle_quotes, hempty, prepend]
      rw [if_neg hq, List.append_assoc, List.singleton_append]
      by_cases hs : c = ' '
      · -- the blank is in a line, as no line starts with one
        subst hs
        cases gap with
        | inLine blanks =>
          rw [readSingle_blank rfl]
          have := ih (.inLine (blanks ++ [' '])) h.tail (h.joins_blank _)
          simpa [Gap.blank, Gap.isBroken, Gap.text] using this
        | broken first more => exact absurd rfl hj.2
        | joined => exact hj.elim
      · have hblank : isBlank c = false := by
          rw [← Bool.not_eq_true, isBlank_of_isPrintable hp]
          exact hs
        have hspace := isSpaceOrBreak_eq_false_iff.mpr ⟨hblank, by simpa using hb⟩
        rw [readSingle_char hq hspace, hempty]
        simp [prepend]

theorem readSingle_of_canBeSingle (h : canBeSingle s = true) (hn : '\n' ∉ s)
    (ht : t.head? ≠ some '\'') :
    readSingle .empty (singleBody false s ++ '\'' :: t) = some (s, t) := by
  simp only [canBeSingle, keepsLines, Bool.and_eq_true, Bool.not_eq_true', List.all_eq_true] at h
  exact readSingle_singleBody .empty ⟨h.1.1, hn, h.1.2, h.2⟩ (.inl rfl) ht

/-! ## Double quotes -/

theorem charOfDigits?_hexDigits {w : ℕ} (h : c.toNat < 16 ^ w) :
    charOfDigits? (Text.hexDigits w c.toNat) = some c := by
  have hc : c.toNat.isValidChar := c.valid
  rw [charOfDigits?, Text.digitsIn_hexDigits, Nat.mod_eq_of_lt h, Option.bind_some, charOf?,
    dif_pos hc]
  rfl

theorem escapedLetter?_of_escapeLetter? {l : Char} (h : escapeLetter? c = some l) :
    escapedLetter? l = some c ∧ isBreak l = false ∧ l ≠ 'x' ∧ l ≠ 'u' ∧ l ≠ 'U' := by
  unfold escapeLetter? at h
  split at h <;> cases h <;> decide

theorem readDouble_letter {l : Char} (h : escapeLetter? c = some l) (t : List Char) :
    readDouble gap ('\\' :: l :: t) = (readDouble .empty t).map (prepend (gap.text ++ [c])) := by
  obtain ⟨hl, hb, hx, hu, hU⟩ := escapedLetter?_of_escapeLetter? h
  rw [readDouble] <;> simp [hl, hb, hx, hu, hU]

/-- Behind a backslash stands a letter or a number. -/
theorem readDouble_writeEscape (c : Char) (gap : Gap) (t : List Char) :
    readDouble gap (writeEscape c ++ t) =
      (readDouble .empty t).map (prepend (gap.text ++ [c])) := by
  unfold writeEscape
  split
  · rename_i l hl
    exact readDouble_letter hl t
  · have hc : c.toNat < 16 ^ 8 := by
      have : c.toNat.isValidChar := c.valid
      omega
    split_ifs with hx hu
    · have hd : charOfDigits? (Text.hexDigits 2 c.toNat) = some c :=
        charOfDigits?_hexDigits (by omega)
      obtain ⟨a, b, hw⟩ : ∃ a b, Text.hexDigits 2 c.toNat = [a, b] := ⟨_, _, rfl⟩
      rw [hw] at hd ⊢
      simp [readDouble, hd]
    · have hd : charOfDigits? (Text.hexDigits 4 c.toNat) = some c :=
        charOfDigits?_hexDigits (by omega)
      obtain ⟨a₁, a₂, a₃, a₄, hw⟩ : ∃ a₁ a₂ a₃ a₄, Text.hexDigits 4 c.toNat = [a₁, a₂, a₃, a₄] :=
        ⟨_, _, _, _, rfl⟩
      rw [hw] at hd ⊢
      simp [readDouble, hd]
    · have hd : charOfDigits? (Text.hexDigits 8 c.toNat) = some c := charOfDigits?_hexDigits hc
      obtain ⟨a₁, a₂, a₃, a₄, a₅, a₆, a₇, a₈, hw⟩ : ∃ a₁ a₂ a₃ a₄ a₅ a₆ a₇ a₈,
          Text.hexDigits 8 c.toNat = [a₁, a₂, a₃, a₄, a₅, a₆, a₇, a₈] :=
        ⟨_, _, _, _, _, _, _, _, rfl⟩
      rw [hw] at hd ⊢
      simp [readDouble, hd]

theorem readDouble_blank (h : isBlank c = true) (t : List Char) :
    readDouble gap (c :: t) = readDouble (gap.blank c) t := by
  rcases isBlank_iff.mp h with rfl | rfl <;> rw [readDouble] <;> simp [isBlank]

theorem readDouble_char (hq : c ≠ '"') (hb : c ≠ '\\') (h : isSpaceOrBreak c = false)
    (t : List Char) :
    readDouble gap (c :: t) = (readDouble .empty t).map (prepend (gap.text ++ [c])) := by
  rw [isSpaceOrBreak_eq_false_iff] at h
  rw [readDouble] <;> simp [hq, hb, h]

theorem readDouble_flatMap (blanks s t : List Char) :
    readDouble (.inLine blanks) (s.flatMap doubleChar ++ '"' :: t) = some (blanks ++ s, t) := by
  induction s generalizing blanks with
  | nil => simp [readDouble, Gap.text]
  | cons c s ih =>
    have hempty : readDouble .empty (s.flatMap doubleChar ++ '"' :: t) = some (s, t) := ih []
    rw [List.flatMap_cons, List.append_assoc, doubleChar]
    split_ifs with he
    · rw [readDouble_writeEscape, hempty]
      simp [prepend, Gap.text]
    · simp only [Bool.or_eq_true, Bool.not_eq_true', beq_iff_eq, not_or,
        Bool.not_eq_false, Bool.not_eq_true] at he
      obtain ⟨⟨⟨hp, hbreak⟩, hq⟩, hb⟩ := he
      rw [List.singleton_append]
      by_cases hs : c = ' '
      · subst hs
        rw [readDouble_blank rfl, Gap.blank, ih]
        simp
      · have hblank : isBlank c = false := by
          rw [← Bool.not_eq_true, isBlank_of_isPrintable hp]
          exact hs
        rw [readDouble_char hq hb (isSpaceOrBreak_eq_false_iff.mpr ⟨hblank, hbreak⟩), hempty]
        simp [prepend, Gap.text]

/-! ## Written characters -/

theorem mem_singleBody {afterBreak : Bool} (h : c ∈ singleBody afterBreak s) :
    c ∈ s ∨ c ∈ [' ', '\n', '\''] := by
  induction s generalizing afterBreak with
  | nil =>
    rw [singleBody] at h
    split_ifs at h
    · exact .inr (by simp_all [margin])
    · cases h
  | cons d s ih =>
    simp only [singleBody] at h
    have hs : ∀ {b}, c ∈ singleBody b s → c ∈ d :: s ∨ c ∈ [' ', '\n', '\''] := fun h =>
      (ih h).imp_left (List.mem_cons_of_mem d)
    split_ifs at h <;> simp [margin] at h hs ⊢ <;> tauto

theorem isPrintable_writeSingle (h : ∀ c ∈ s, isPrintable c = true) :
    ∀ c ∈ writeSingle s, isPrintable c = true := by
  intro c hc
  have hc' : c ∈ s ∨ c ∈ [' ', '\n', '\''] := by
    simp only [writeSingle, List.cons_append, List.mem_cons, List.mem_append, List.mem_nil_iff,
      or_false] at hc
    rcases hc with rfl | hc | rfl
    · simp
    · exact mem_singleBody hc
    · simp
  rcases hc' with hc | hc
  · exact h c hc
  · have : ∀ c ∈ [' ', '\n', '\''], isPrintable c = true := by simp [isPrintable]
    exact this c hc

theorem isPrintable_hexDigits (w n : ℕ) : ∀ c ∈ Text.hexDigits w n, isPrintable c = true := by
  have hd : ∀ d < 16, isPrintable (Text.hexDigit d) = true := by decide +kernel
  induction w generalizing n with
  | zero => simp [Text.hexDigits]
  | succ w ih =>
    rw [Text.hexDigits]
    intro c hc
    rcases List.mem_append.mp hc with hc | hc
    · exact ih _ c hc
    · rw [List.mem_singleton.mp hc]
      exact hd _ (Nat.mod_lt _ (by decide))

theorem isPrintable_writeEscape (c : Char) : ∀ d ∈ writeEscape c, isPrintable d = true := by
  have hmark : ∀ d ∈ ['\\', 'x', 'u', 'U'], isPrintable d = true := by simp [isPrintable]
  unfold writeEscape
  split
  · rename_i l hl
    have hletter : ∀ d ∈ "0abtnvfre\"\\NLP".toList, isPrintable d = true := by
      simp [isPrintable]
    have : l ∈ "0abtnvfre\"\\NLP".toList := by
      unfold escapeLetter? at hl
      split at hl <;> cases hl <;> decide
    simp [hmark '\\' (by simp), hletter l this]
  · have hx : ∀ (m : Char) (w : ℕ), m ∈ ['x', 'u', 'U'] →
        ∀ d ∈ '\\' :: m :: Text.hexDigits w c.toNat, isPrintable d = true := by
      intro m w hm
      refine List.forall_mem_cons.mpr ⟨hmark _ (by simp), List.forall_mem_cons.mpr ⟨?_, ?_⟩⟩
      · exact hmark m (List.mem_cons_of_mem _ hm)
      · exact isPrintable_hexDigits w _
    split_ifs
    · exact hx 'x' 2 (by simp)
    · exact hx 'u' 4 (by simp)
    · exact hx 'U' 8 (by simp)

theorem isPrintable_writeDouble (s : List Char) : ∀ c ∈ writeDouble s, isPrintable c = true := by
  have hquote : isPrintable '"' = true := by decide +kernel
  intro c hc
  simp only [writeDouble, List.cons_append, List.mem_cons, List.mem_append, List.mem_flatMap,
    List.mem_nil_iff, or_false] at hc
  rcases hc with rfl | ⟨d, -, hd⟩ | rfl
  · exact hquote
  · rw [doubleChar] at hd
    split_ifs at hd with h
    · exact isPrintable_writeEscape d c hd
    · simp only [Bool.or_eq_true, Bool.not_eq_true', not_or, Bool.not_eq_false] at h
      rw [List.mem_singleton.mp hd]
      exact h.1.1.1
  · exact hquote

end ApiTypings.Yaml
