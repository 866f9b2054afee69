import Mathlib
import ApiTypings.Proofs.Yaml.Plain

/-! # Reading blocks

A text whose last line is ended divides into the breaks of the empty lines at its start and lines
with something in them, each with its break and those of the empty lines after it. A block has these
lines with an indentation, and they are what is read from it. What the header says about the
breaks at the end tells the text from the text with its last line ended.
-/

namespace ApiTypings.Yaml

variable {c : Char} {s t rest : List Char} {es : List Char} {l : BlockLine} {ls : List BlockLine}

/-! ## Lines of a text -/

/-- A line with something in it, and nothing but breaks after that. -/
structure BlockLine.IsLine (l : BlockLine) : Prop where
  text_ne_nil : l.text ≠ []
  no_break : ∀ c ∈ l.text, isBreak c = false
  one_break : ∃ b, isBreak b = true ∧ l.lineBreak = [b]
  only_breaks : ∀ b ∈ l.emptyAfter, isBreak b = true

def BlockLine.chars (l : BlockLine) : List Char := l.text ++ (l.lineBreak ++ l.emptyAfter)

def joinLines (es : List Char) (ls : List BlockLine) : List Char := es ++ ls.flatMap BlockLine.chars

/-- The text is empty or its last line is ended. -/
def EndsLine (s : List Char) : Prop := ∀ c ∈ s.getLast?, isBreak c = true

theorem EndsLine.tail (h : EndsLine (c :: s)) : EndsLine s := by
  cases s with
  | nil => simp [EndsLine]
  | cons d s => simpa [EndsLine, List.getLast?_cons_cons] using h

theorem exists_joinLines (h : EndsLine s) : ∃ es ls, s = joinLines es ls ∧
    (∀ b ∈ es, isBreak b = true) ∧ ∀ l ∈ ls, l.IsLine := by
  induction s with
  | nil => exact ⟨[], [], rfl, by simp, by simp⟩
  | cons c s ih =>
    obtain ⟨es, ls, rfl, hes, hls⟩ := ih h.tail
    by_cases hc : isBreak c = true
    · exact ⟨c :: es, ls, rfl, List.forall_mem_cons.mpr ⟨hc, hes⟩, hls⟩
    rw [Bool.not_eq_true] at hc
    cases es with
    | cons b es =>
      -- the character is a line of its own
      refine ⟨[], ⟨[c], [b], es⟩ :: ls, by simp [joinLines, BlockLine.chars], by simp, ?_⟩
      obtain ⟨hb, hes⟩ := List.forall_mem_cons.mp hes
      exact List.forall_mem_cons.mpr ⟨⟨by simp, by simpa using hc, ⟨b, hb, rfl⟩, hes⟩, hls⟩
    | nil =>
      cases ls with
      | nil => simp [EndsLine, joinLines, hc] at h
      | cons l ls =>
        -- the character starts the first line
        obtain ⟨hl, hls⟩ := List.forall_mem_cons.mp hls
        refine ⟨[], ⟨c :: l.text, l.lineBreak, l.emptyAfter⟩ :: ls,
          by simp [joinLines, BlockLine.chars], by simp, ?_⟩
        exact List.forall_mem_cons.mpr
          ⟨⟨by simp, List.forall_mem_cons.mpr ⟨hc, hl.no_break⟩, hl.one_break, hl.only_breaks⟩, hls⟩

/-! ## Indented lines -/

def BlockLine.indented (l : BlockLine) : List Char := margin ++ l.chars

theorem indentLines_breaks (h : ∀ b ∈ es, isBreak b = true) (t : List Char) :
    indentLines true (es ++ t) = es ++ indentLines true t := by
  induction es with
  | nil => rfl
  | cons b es ih =>
    obtain ⟨hb, hes⟩ := List.forall_mem_cons.mp h
    simp [indentLines, hb, ih hes]

theorem indentLines_text (h : ∀ c ∈ s, isBreak c = false) (t : List Char) :
    indentLines false (s ++ t) = s ++ indentLines false t := by
  induction s with
  | nil => rfl
  | cons c s ih =>
    obtain ⟨hc, hs⟩ := List.forall_mem_cons.mp h
    simp [indentLines, hc, ih hs]

theorem indentLines_line (h : l.IsLine) (t : List Char) :
    indentLines true (l.chars ++ t) = l.indented ++ indentLines true t := by
  obtain ⟨b, hb, hl⟩ := h.one_break
  obtain ⟨c, s, hs⟩ := List.exists_cons_of_ne_nil h.text_ne_nil
  have hc := h.no_break
  rw [hs] at hc
  obtain ⟨hc, hs'⟩ := List.forall_mem_cons.mp hc
  simp [BlockLine.indented, BlockLine.chars, hl, hs, indentLines, hc, indentLines_text hs', hb,
    indentLines_breaks h.only_breaks]

theorem indentLines_joinLines (hes : ∀ b ∈ es, isBreak b = true) (hls : ∀ l ∈ ls, l.IsLine) :
    indentLines true (joinLines es ls) = es ++ ls.flatMap BlockLine.indented := by
  rw [joinLines, indentLines_breaks hes]
  congr 1
  induction ls with
  | nil => rfl
  | cons l ls ih =>
    obtain ⟨hl, hls⟩ := List.forall_mem_cons.mp hls
    rw [List.flatMap_cons, indentLines_line hl, ih hls, List.flatMap_cons]

/-! ## Reading lines -/

theorem leadingSpaces_startsLine (h : StartsLine rest) : leadingSpaces rest = 0 := by
  cases rest with
  | nil => rfl
  | cons c rest =>
    have hc : c ≠ ' ' := by
      rintro rfl
      exact absurd (h ' ' rfl) (by decide)
    simp [leadingSpaces, hc]

theorem leadingSpaces_break (h : isBreak c = true) (s : List Char) :
    leadingSpaces (c :: s) = 0 := by
  have hc : c ≠ ' ' := by
    rintro rfl
    cases h
  simp [leadingSpaces, hc]

theorem leadingSpaces_margin (s : List Char) :
    leadingSpaces (margin ++ s) = leadingSpaces s + 2 := by
  simp [leadingSpaces, margin]

theorem le_leadingSpaces_indented (l : BlockLine) (t : List Char) :
    2 ≤ leadingSpaces (l.indented ++ t) := by
  rw [BlockLine.indented, List.append_assoc, leadingSpaces_margin]
  omega

theorem drop_indented (l : BlockLine) (t : List Char) : (l.indented ++ t).drop 2 = l.chars ++ t :=
  rfl

theorem emptyLines_of_drop {w : ℕ} (h : s.drop (min w (leadingSpaces s)) = c :: t) :
    emptyLines w s = if isBreak c then (emptyLines w t).map (prepend [c])
      else if c = '\t' && min w (leadingSpaces s) < w then none else some ([], s) := by
  rw [emptyLines]
  split
  · rename_i h'
    simp [h] at h'
  · rename_i h'
    rw [h] at h'
    cases h'
    rfl

theorem emptyLines_break (h : isBreak c = true) (s : List Char) :
    emptyLines 2 (c :: s) = (emptyLines 2 s).map (prepend [c]) := by
  rw [emptyLines_of_drop (c := c) (t := s) (by rw [leadingSpaces_break h]; rfl), if_pos h]

theorem emptyLines_startsLine (h : StartsLine rest) : emptyLines 2 rest = some ([], rest) := by
  cases rest with
  | nil => rw [emptyLines]; rfl
  | cons c rest =>
    have hc := isSpaceOrBreak_eq_false_iff.mp (h c rfl)
    have ht : c ≠ '\t' := by
      rintro rfl
      cases hc.1
    rw [emptyLines_of_drop (c := c) (t := rest) (by rw [leadingSpaces_startsLine h]; rfl)]
    simp [hc.2, ht]

/-- A line that is indented is not empty, even if it starts with more spaces. -/
theorem emptyLines_indented (h : l.IsLine) (t : List Char) :
    emptyLines 2 (l.indented ++ t) = some ([], l.indented ++ t) := by
  obtain ⟨c, s, hs⟩ := List.exists_cons_of_ne_nil h.text_ne_nil
  have hc : isBreak c = false := h.no_break c (hs ▸ List.mem_cons_self)
  have hspaces := min_eq_left (le_leadingSpaces_indented l t)
  rw [emptyLines_of_drop (c := c) (t := s ++ (l.lineBreak ++ l.emptyAfter) ++ t)]
  · simp [hc, hspaces]
  · rw [hspaces, drop_indented, BlockLine.chars, hs]
    rfl

theorem emptyLines_lines (hls : ∀ l ∈ ls, l.IsLine) (hr : StartsLine rest) :
    emptyLines 2 (ls.flatMap BlockLine.indented ++ rest) =
      some ([], ls.flatMap BlockLine.indented ++ rest) := by
  cases ls with
  | nil => exact emptyLines_startsLine hr
  | cons l ls =>
    rw [List.flatMap_cons, List.append_assoc]
    exact emptyLines_indented (hls l List.mem_cons_self) _

theorem emptyLines_breaks (hes : ∀ b ∈ es, isBreak b = true) (ht : emptyLines 2 t = some ([], t)) :
    emptyLines 2 (es ++ t) = some (es, t) := by
  induction es with
  | nil => exact ht
  | cons b es ih =>
    obtain ⟨hb, hes⟩ := List.forall_mem_cons.mp hes
    rw [List.cons_append, emptyLines_break hb, ih hes]
    rfl

theorem cutLine_line (h : l.IsLine) (t : List Char) :
    cutLine (l.chars ++ t) = (l.text, l.lineBreak ++ (l.emptyAfter ++ t)) := by
  obtain ⟨b, hb, hl⟩ := h.one_break
  have hn : ∀ c ∈ l.text, (!isBreak c) = true := fun c hc => by simp [h.no_break c hc]
  simp [cutLine, BlockLine.chars, hl, List.takeWhile_append_of_pos hn,
    List.dropWhile_append_of_pos hn, hb]

theorem blockLines_indented (hls : ∀ l ∈ ls, l.IsLine) (hr : StartsLine rest) {fuel : ℕ}
    (hf : ls.length ≤ fuel) :
    blockLines 2 fuel (ls.flatMap BlockLine.indented ++ rest) = some (ls, rest) := by
  induction ls generalizing fuel with
  | nil =>
    cases fuel with
    | zero => rfl
    | succ fuel => simp [blockLines, leadingSpaces_startsLine hr]
  | cons l ls ih =>
    obtain ⟨hl, hls⟩ := List.forall_mem_cons.mp hls
    obtain ⟨b, hb, hlb⟩ := hl.one_break
    cases fuel with
    | zero => cases hf
    | succ fuel =>
      have hne : l.chars ≠ [] := by simp [BlockLine.chars, hlb]
      have hspaces := (le_leadingSpaces_indented l (ls.flatMap BlockLine.indented ++ rest)).not_gt
      have hempty := emptyLines_breaks hl.only_breaks (emptyLines_lines hls hr)
      have hrest : blockLines 2 fuel (ls.flatMap BlockLine.indented ++ rest) = some (ls, rest) :=
        ih hls (by simpa using hf)
      have hdrop : ∀ t, (l.lineBreak ++ t).drop 1 = t := fun t => by rw [hlb]; rfl
      have htake : ∀ t, (l.lineBreak ++ t).take 1 = l.lineBreak := fun t => by rw [hlb]; rfl
      rw [List.flatMap_cons, List.append_assoc, blockLines, drop_indented, cutLine_line hl]
      simp [hspaces, hne, hdrop, htake, hempty, hrest]

/-! ## Headers -/

theorem headerMarks_indented (chomping : Chomping) (t : List Char) :
    headerMarks ('2' :: (chompingMark chomping ++ '\n' :: t)) = (chomping, some 2, '\n' :: t) := by
  cases chomping <;> rfl

theorem headerMarks_detected (chomping : Chomping) (t : List Char) :
    headerMarks (chompingMark chomping ++ '\n' :: t) = (chomping, none, '\n' :: t) := by
  cases chomping <;> rfl

theorem endLine_break (t : List Char) : endLine ('\n' :: t) = some t := rfl

theorem detectWidth_of_drop (h : s.drop (leadingSpaces s) = c :: t) :
    detectWidth s = if isBreak c then (detectWidth t).map (max (leadingSpaces s))
      else if c = '\t' then none else some (leadingSpaces s) := by
  rw [detectWidth]
  split
  · rename_i h'
    simp [h] at h'
  · rename_i h'
    rw [h] at h'
    cases h'
    rfl

theorem detectWidth_indented (h : l.IsLine) (hc : ∀ c ∈ l.text.head?, isBlank c = false)
    (t : List Char) : detectWidth (l.indented ++ t) = some 2 := by
  obtain ⟨c, s, hs⟩ := List.exists_cons_of_ne_nil h.text_ne_nil
  have hb : isBreak c = false := h.no_break c (hs ▸ List.mem_cons_self)
  have hblank : c ≠ ' ' ∧ c ≠ '\t' := by simpa [isBlank] using hc c (by simp [hs])
  have hspaces : leadingSpaces (l.indented ++ t) = 2 := by
    rw [BlockLine.indented, List.append_assoc, leadingSpaces_margin, BlockLine.chars, hs]
    simp [leadingSpaces, hblank]
  rw [detectWidth_of_drop (c := c) (t := s ++ (l.lineBreak ++ l.emptyAfter) ++ t)]
  · simp [hb, hblank, hspaces]
  · rw [hspaces, drop_indented, BlockLine.chars, hs]
    rfl

theorem length_le_flatMap (hls : ∀ l ∈ ls, l.IsLine) :
    ls.length ≤ (ls.flatMap BlockLine.indented).length := by
  induction ls with
  | nil => simp
  | cons l ls ih =>
    have := ih fun l hl => hls l (List.mem_cons_of_mem _ hl)
    simp [BlockLine.indented, margin]
    omega

theorem readBlock_of_width {chomping : Chomping} {indentation : Option ℕ} {w : ℕ} {u : List Char}
    (hm : headerMarks s = (chomping, indentation, '\n' :: t))
    (hw : indentation = some w ∨ indentation = none ∧ (detectWidth t).map (max 1) = some w)
    (he : emptyLines w t = some (es, u)) (hl : blockLines w u.length u = some (ls, rest)) :
    readBlock false 0 s = some (blockText false chomping false [] es ls, rest) := by
  rcases hw with rfl | ⟨rfl, hw⟩
  · simp [readBlock, hm, endLine_break, he, hl]
  · simp [readBlock, hm, endLine_break, hw, he, hl]

theorem readBlock_joinLines (hes : ∀ b ∈ es, isBreak b = true) (hls : ∀ l ∈ ls, l.IsLine)
    (hp : ∀ c ∈ joinLines es ls, isPrintable c = true) (hne : joinLines es ls ≠ [])
    (hr : StartsLine rest) (chomping : Chomping) :
    readBlock false 0 (indentationMark (joinLines es ls) ++ (chompingMark chomping ++
        '\n' :: (indentLines true (joinLines es ls) ++ rest))) =
      some (blockText false chomping false [] es ls, rest) := by
  have hempty := emptyLines_breaks hes (emptyLines_lines hls hr)
  have hlines : blockLines 2 (ls.flatMap BlockLine.indented ++ rest).length
      (ls.flatMap BlockLine.indented ++ rest) = some (ls, rest) := by
    apply blockLines_indented hls hr
    have := length_le_flatMap hls
    rw [List.length_append]
    omega
  rw [indentLines_joinLines hes hls, List.append_assoc]
  obtain ⟨c, t, hc⟩ := List.exists_cons_of_ne_nil hne
  by_cases hmark : c = ' ' ∨ isBreak c = true
  · have hi : indentationMark (joinLines es ls) = ['2'] := by
      rw [hc, indentationMark, if_pos (by simpa using hmark)]
    rw [hi]
    exact readBlock_of_width (headerMarks_indented _ _) (.inl rfl) hempty hlines
  · have hi : indentationMark (joinLines es ls) = [] := by
      rw [hc, indentationMark, if_neg (by simpa using hmark)]
    rw [hi]
    refine readBlock_of_width (headerMarks_detected _ _) (.inr ⟨rfl, ?_⟩) hempty hlines
    -- the first line starts the text, and not with a space
    push Not at hmark
    have hblank : isBlank c = false := by
      rw [← Bool.not_eq_true, isBlank_of_isPrintable (hp c (hc ▸ List.mem_cons_self))]
      exact hmark.1
    cases es with
    | cons b es =>
      obtain ⟨rfl, -⟩ := List.cons_eq_cons.mp hc
      exact absurd (hes b List.mem_cons_self) hmark.2
    | nil =>
      cases ls with
      | nil => exact absurd rfl hne
      | cons l ls =>
        have hl := hls l List.mem_cons_self
        obtain ⟨d, u, hd⟩ := List.exists_cons_of_ne_nil hl.text_ne_nil
        have hcd : d = c := by
          simp [joinLines, BlockLine.chars, hd] at hc
          exact hc.1
        rw [List.nil_append, List.flatMap_cons, List.append_assoc,
          detectWidth_indented hl (by simp [hd, hcd, hblank])]
        rfl

/-! ## The end of a block -/

theorem blockText_keep (afterBlank : Bool) (lineBreak emptyAfter : List Char) :
    blockText false .keep afterBlank lineBreak emptyAfter ls =
      lineBreak ++ joinLines emptyAfter ls := by
  induction ls generalizing afterBlank lineBreak emptyAfter with
  | nil => simp [blockText, chompedEnd, joinLines]
  | cons l ls ih => simp [blockText, between, ih, joinLines, BlockLine.chars]

/-- Only the breaks after the last line depend on what becomes of them. -/
theorem blockText_concat (chomping : Chomping) (afterBlank : Bool)
    (lineBreak emptyAfter : List Char) :
    blockText false chomping afterBlank lineBreak emptyAfter (ls ++ [l]) =
      lineBreak ++ (joinLines emptyAfter ls ++ (l.text ++
        chompedEnd chomping l.lineBreak l.emptyAfter)) := by
  induction ls generalizing afterBlank lineBreak emptyAfter with
  | nil => simp [blockText, between, joinLines]
  | cons l ls ih => simp [blockText, between, ih, joinLines, BlockLine.chars]

/-- A character before the last break is the end of the last line. -/
theorem exists_last_line {a b : Char} (hes : ∀ b ∈ es, isBreak b = true)
    (hls : ∀ l ∈ ls, l.IsLine) (ha : isBreak a = false) (h : joinLines es ls = s ++ [a, b]) :
    ∃ ls' l, ls = ls' ++ [l] ∧ l.lineBreak = [b] ∧ l.emptyAfter = [] ∧
      joinLines es ls' ++ l.text = s ++ [a] := by
  -- the character before the last one is no break
  have hbreaks : ∀ {u v : List Char}, (∀ b ∈ v, isBreak b = true) → u ++ v = s ++ [a] → v = [] := by
    intro u v hv huv
    by_contra hne
    have hlast := congrArg List.getLast? huv
    rw [List.getLast?_append_of_ne_nil _ hne, List.getLast?_concat] at hlast
    simp [hv a (List.mem_of_getLast? hlast)] at ha
  have hsplit : s ++ [a, b] = (s ++ [a]) ++ [b] := by simp
  rcases List.eq_nil_or_concat' ls with rfl | ⟨ls', l, rfl⟩
  · have hm : a ∈ es := by
      have he : es = s ++ [a, b] := by simpa [joinLines] using h
      simp [he]
    simp [hes a hm] at ha
  · have hl := hls l (by simp)
    obtain ⟨b', hb', hlb⟩ := hl.one_break
    refine ⟨ls', l, rfl, ?_⟩
    have hj : joinLines es (ls' ++ [l]) = joinLines es ls' ++ l.text ++ (b' :: l.emptyAfter) := by
      simp [joinLines, BlockLine.chars, hlb]
    rw [hj, hsplit] at h
    rcases List.eq_nil_or_concat' l.emptyAfter with he | ⟨es', e, he⟩
    · rw [he] at h
      obtain ⟨h, hb⟩ := List.append_inj' h rfl
      exact ⟨by rw [hlb, hb], he, h⟩
    · rw [he, ← List.cons_append, ← List.append_assoc] at h
      have h := (List.append_inj' h rfl).1
      have hes' : ∀ d ∈ b' :: es', isBreak d = true := List.forall_mem_cons.mpr
        ⟨hb', fun d hd => hl.only_breaks d (by simp [he, hd])⟩
      cases hbreaks hes' h

/-- A text as it stands in a block. -/
def ended (s : List Char) : List Char :=
  if (s.getLast?.map isBreak).getD false then s else s ++ ['\n']

theorem ended_concat (s : List Char) (c : Char) :
    ended (s ++ [c]) = if isBreak c then s ++ [c] else s ++ [c, '\n'] := by
  simp [ended]

theorem ended_ne_nil (h : s ≠ []) : ended s ≠ [] := by
  unfold ended
  split_ifs
  · exact h
  · simp

theorem isPrintable_ended (h : ∀ c ∈ s, isPrintable c = true) :
    ∀ c ∈ ended s, isPrintable c = true := by
  unfold ended
  split_ifs
  · exact h
  · intro c hc
    rcases List.mem_append.mp hc with hc | hc
    · exact h c hc
    · rw [List.mem_singleton.mp hc]
      rfl

theorem endsLine_ended (s : List Char) : EndsLine (ended s) := by
  unfold ended EndsLine
  split_ifs with h
  · intro c hc
    rw [Option.mem_def] at hc
    simpa [hc] using h
  · simp [isBreak]

theorem blockText_ended (hes : ∀ b ∈ es, isBreak b = true) (hls : ∀ l ∈ ls, l.IsLine)
    (hs : s ≠ []) (h : ended s = joinLines es ls) :
    blockText false (chompingFor s) false [] es ls = s := by
  obtain ⟨u, b, rfl⟩ := (List.eq_nil_or_concat' s).resolve_left hs
  rw [ended_concat] at h
  by_cases hb : isBreak b = true
  · rw [if_pos hb] at h
    rcases List.eq_nil_or_concat' u with rfl | ⟨u, a, rfl⟩
    · have hc : chompingFor ([] ++ [b]) = .keep := by simp [chompingFor, hb]
      rw [hc, blockText_keep, ← h]
      rfl
    by_cases ha : isBreak a = true
    · have hc : chompingFor (u ++ [a] ++ [b]) = .keep := by simp [chompingFor, hb, ha]
      rw [hc, blockText_keep, ← h]
      rfl
    · rw [Bool.not_eq_true] at ha
      have hc : chompingFor (u ++ [a] ++ [b]) = .clip := by simp [chompingFor, hb, ha]
      have hjoin : joinLines es ls = u ++ [a, b] := by
        rw [← h]
        simp
      obtain ⟨ls', l, rfl, hlb, hle, htext⟩ := exists_last_line hes hls ha hjoin
      rw [hc, blockText_concat, hlb, hle, ← htext]
      simp [chompedEnd]
  · rw [if_neg hb] at h
    rw [Bool.not_eq_true] at hb
    have hc : chompingFor (u ++ [b]) = .strip := by
      rcases List.eq_nil_or_concat' u with rfl | ⟨u, a, rfl⟩ <;> simp [chompingFor, hb]
    obtain ⟨ls', l, rfl, hlb, hle, htext⟩ := exists_last_line hes hls hb h.symm
    rw [hc, blockText_concat, ← htext]
    simp [chompedEnd]

theorem indentLines_concat (afterBreak : Bool) (s : List Char) (h : isBreak c = true) :
    indentLines afterBreak (s ++ [c]) = indentLines afterBreak s ++ [c] := by
  induction s generalizing afterBreak with
  | nil => simp [indentLines, h]
  | cons d s ih =>
    simp only [List.cons_append, indentLines, ih]
    split_ifs <;> simp

theorem exists_indentLines_concat (afterBreak : Bool) (s : List Char) (c : Char) :
    ∃ t, indentLines afterBreak (s ++ [c]) = t ++ [c] := by
  induction s generalizing afterBreak with
  | nil =>
    simp only [List.nil_append, indentLines]
    split_ifs
    · exact ⟨[], rfl⟩
    · exact ⟨margin, rfl⟩
    · exact ⟨[], rfl⟩
  | cons d s ih =>
    simp only [List.cons_append, indentLines]
    split_ifs
    · obtain ⟨t, ht⟩ := ih true
      exact ⟨d :: t, by rw [ht]; rfl⟩
    · obtain ⟨t, ht⟩ := ih false
      exact ⟨margin ++ d :: t, by rw [ht]; rfl⟩
    · obtain ⟨t, ht⟩ := ih false
      exact ⟨d :: t, by rw [ht]; rfl⟩

theorem ended_append (s : List Char) (ht : t ≠ []) : ended (s ++ t) = s ++ ended t := by
  unfold ended
  rw [List.getLast?_append_of_ne_nil s ht]
  split_ifs
  · rfl
  · exact List.append_assoc _ _ _

theorem ended_indentLines (hs : s ≠ []) :
    ended (indentLines true s) = indentLines true (ended s) := by
  obtain ⟨u, c, rfl⟩ := (List.eq_nil_or_concat' s).resolve_left hs
  obtain ⟨t, ht⟩ := exists_indentLines_concat true u c
  rw [ended_concat, ht, ended_concat]
  split_ifs
  · exact ht.symm
  · have hn : ∀ u, u ++ [c, '\n'] = (u ++ [c]) ++ ['\n'] := by simp
    rw [hn, hn, indentLines_concat true (u ++ [c]) rfl, ht]

theorem indentationMark_ended (hs : s ≠ []) : indentationMark (ended s) = indentationMark s := by
  obtain ⟨c, t, rfl⟩ := List.exists_cons_of_ne_nil hs
  unfold ended
  split_ifs <;> rfl

theorem indentLines_ne_nil (hs : s ≠ []) : indentLines true s ≠ [] := by
  obtain ⟨u, c, rfl⟩ := (List.eq_nil_or_concat' s).resolve_left hs
  obtain ⟨t, ht⟩ := exists_indentLines_concat true u c
  simp [ht]

theorem readNode_writeLiteral (hs : s ≠ []) (hp : ∀ c ∈ s, isPrintable c = true)
    (hr : StartsLine rest) :
    readNode 0 (ended (writeLiteral s) ++ rest) = some (.quoted (String.ofList s), rest) := by
  have hwrite : ended (writeLiteral s) ++ rest = '|' :: (indentationMark (ended s) ++
      (chompingMark (chompingFor s) ++ '\n' :: (indentLines true (ended s) ++ rest))) := by
    have hw : writeLiteral s = ('|' :: indentationMark s ++ chompingMark (chompingFor s) ++
        ['\n']) ++ indentLines true s := by simp [writeLiteral]
    rw [hw, ended_append _ (indentLines_ne_nil hs), ended_indentLines hs, indentationMark_ended hs]
    simp
  have hp' := isPrintable_ended hp
  have hne := ended_ne_nil hs
  obtain ⟨es, ls, he, hes, hls⟩ := exists_joinLines (endsLine_ended s)
  rw [hwrite, readNode, he, readBlock_joinLines hes hls (he ▸ hp') (he ▸ hne) hr,
    blockText_ended hes hls hs he]
  rfl

/-! ## Written characters -/

theorem mem_indentLines {afterBreak : Bool} (h : c ∈ indentLines afterBreak s) :
    c ∈ s ∨ c = ' ' := by
  induction s generalizing afterBreak with
  | nil => cases h
  | cons d s ih =>
    simp only [indentLines] at h
    have hs : ∀ {b}, c ∈ indentLines b s → c ∈ d :: s ∨ c = ' ' := fun h =>
      (ih h).imp_left (List.mem_cons_of_mem d)
    split_ifs at h <;> simp [margin] at h hs ⊢ <;> tauto

theorem isPrintable_writeLiteral (h : ∀ c ∈ s, isPrintable c = true) :
    ∀ c ∈ writeLiteral s, isPrintable c = true := by
  have hmarks : ∀ c ∈ ['|', '2', '-', '+', '\n', ' '], isPrintable c = true := by
    simp [isPrintable]
  intro c hc
  have hc' : c ∈ s ∨ c ∈ ['|', '2', '-', '+', '\n', ' '] := by
    simp only [writeLiteral, List.cons_append, List.mem_cons, List.mem_append] at hc
    rcases hc with rfl | (hc | hc) | rfl | hc
    · simp
    · right
      unfold indentationMark at hc
      split at hc
      · cases hc
      · split_ifs at hc <;> simp_all
    · right
      revert hc
      cases chompingFor s <;> simp +contextual [chompingMark]
    · simp
    · exact (mem_indentLines hc).imp_right fun hc => by simp [hc]
  rcases hc' with hc | hc
  · exact h c hc
  · exact hmarks c hc

end ApiTypings.Yaml
