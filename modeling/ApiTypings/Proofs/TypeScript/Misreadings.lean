import Mathlib
import ApiTypings.Proofs.TypeScript.Substitutions

/-! # Misread templates

A backslash in a path starts an escape sequence of its template, and a dollar sign before a brace
that starts no token starts a substitution. What these use up is told in terms of the pieces of the
path. An escape sequence takes characters of the path, or the first character that was written for
some piece. A substitution ends in the path, and as the brace starts no token, a token lies within
it, in the quotes of the name that is read.
-/

namespace ApiTypings.TypeScript

open Text (Piece pieces)

/-! ## What escape sequences use up -/

/-- Characters with which no other piece of a template starts. -/
def IsOrdinary (c : Char) : Prop := c ≠ '$' ∧ c ≠ '\\' ∧ c ≠ '\x60'

theorem isOrdinary_of_digitsIn {digits : List Char} {n : ℕ}
    (h : Text.digitsIn 16 digits = some n) : ∀ c ∈ digits, IsOrdinary c := by
  unfold Text.digitsIn at h
  generalize 0 = value at h
  induction digits generalizing value with
  | nil => simp
  | cons c digits ih =>
    rw [List.foldlM_cons] at h
    obtain ⟨m, hm, h⟩ := Option.bind_eq_some_iff.mp h
    obtain ⟨d, hd, -⟩ := Option.bind_eq_some_iff.mp hm
    refine List.forall_mem_cons.mpr ⟨⟨?_, ?_, ?_⟩, ih m h⟩
    all_goals
      rintro rfl
      simp [Text.hexValue?] at hd

theorem isOrdinary_of_code? {digits : List Char} {n : ℕ} (h : code? digits = some n) :
    ∀ c ∈ digits, IsOrdinary c := by
  unfold code? at h
  split_ifs at h
  exact isOrdinary_of_digitsIn h

theorem length_escapedChar?_le {c : Char} {u : Units} (h : escapedChar? c = some u) :
    u.length ≤ (charUnits c).length := by
  have hc : 0 < (charUnits c).length := length_codeUnits_pos c.toNat
  unfold escapedChar? at h
  split_ifs at h
  · cases h
    simp
  · simp only [Option.some.injEq] at h
    cases hu : controlUnit? c with
    | none => simp [← h, hu]
    | some u' =>
      have he : u = [u'] := by simpa [hu] using h.symm
      rw [he, List.length_singleton]
      exact hc

/-- An escape sequence uses up a single character, or ordinary ones only, and stands for no more
than these. -/
theorem escape_cases {s : List Char} {u : Units} {n : ℕ} (h : escape s = some (u, n)) :
    ∃ w t, s = w ++ t ∧ w.length = n ∧ u.length ≤ (units w).length ∧
      ((∃ c, w = [c]) ∨ ∀ c ∈ w, IsOrdinary c) := by
  unfold escape at h
  split at h
  · cases h
  · rename_i t
    cases h
    exact ⟨['\r', '\n'], t, rfl, rfl, by simp, .inr (by simp [IsOrdinary])⟩
  · rename_i t
    split_ifs at h
    cases h
    exact ⟨['0'], t, rfl, rfl, by decide, .inl ⟨_, rfl⟩⟩
  · rename_i a b t
    obtain ⟨m, hm, he⟩ := Option.map_eq_some_iff.mp h
    cases he
    refine ⟨['x', a, b], t, rfl, rfl, ?_, .inr ?_⟩
    · exact le_trans (by simp) (length_le_length_units ['x', a, b])
    · refine List.forall_mem_cons.mpr ⟨by simp [IsOrdinary], isOrdinary_of_code? hm⟩
  · rename_i tail
    dsimp only at h
    split at h
    · rename_i d t m hdrop hm
      split_ifs at h with hle
      cases h
      have hd : d = '\x7d' := by
        have := List.head?_dropWhile_not (· != '\x7d') tail
        simpa [hdrop] using this
      have htail : tail = tail.takeWhile (· != '\x7d') ++ '\x7d' :: t := by
        rw [← hd, ← hdrop, hd, List.takeWhile_append_dropWhile]
      refine ⟨'u' :: '\x7b' :: (tail.takeWhile (· != '\x7d') ++ ['\x7d']), t, ?_, ?_, ?_, .inr ?_⟩
      · simpa using htail
      · simp
      · have hl := length_le_length_units
          ('u' :: '\x7b' :: (tail.takeWhile (· != '\x7d') ++ ['\x7d']))
        have := length_codeUnits m
        simp at hl ⊢
        split_ifs at this <;> omega
      · have ho := isOrdinary_of_code? hm
        simp only [List.mem_cons, List.mem_append, List.mem_nil_iff, or_false]
        rintro c (rfl | rfl | hc | rfl)
        · simp [IsOrdinary]
        · simp [IsOrdinary]
        · exact ho c hc
        · simp [IsOrdinary]
    · cases h
  · rename_i a b c d t _
    obtain ⟨m, hm, he⟩ := Option.map_eq_some_iff.mp h
    cases he
    refine ⟨['u', a, b, c, d], t, rfl, rfl, ?_, .inr ?_⟩
    · exact le_trans (by simp) (length_le_length_units ['u', a, b, c, d])
    · refine List.forall_mem_cons.mpr ⟨by simp [IsOrdinary], isOrdinary_of_code? hm⟩
  · rename_i c t _ _ _ _ _
    obtain ⟨v, hv, he⟩ := Option.map_eq_some_iff.mp h
    cases he
    exact ⟨[c], t, rfl, rfl, by simpa using length_escapedChar?_le hv, .inl ⟨c, rfl⟩⟩

/-! ## Where pieces begin -/

variable {ps qs : List (Piece (List Char))}

theorem remainder_cases (ps : List (Piece (List Char))) :
    (ps = [] ∧ remainder ps = ['\x60']) ∨
    (∃ qs, ps = .plain '\x60' :: qs ∧ remainder ps = '\\' :: '\x60' :: remainder qs) ∨
    (∃ c qs, c ≠ '\x60' ∧ ps = .plain c :: qs ∧ remainder ps = c :: remainder qs) ∨
    ∃ name qs, ps = .found name :: qs ∧
      remainder ps = '$' :: '\x7b' :: (access (escapeBackticks name) ++ remainder qs) := by
  match ps with
  | [] => exact .inl ⟨rfl, rfl⟩
  | .plain c :: qs =>
    by_cases h : c = '\x60'
    · subst h
      exact .inr (.inl ⟨qs, rfl, remainder_backtick⟩)
    · exact .inr (.inr (.inl ⟨c, qs, h, rfl, remainder_plain h⟩))
  | .found name :: qs => exact .inr (.inr (.inr ⟨name, qs, rfl, remainder_found name⟩))

theorem remainder_eq_cons {c : Char} {t : List Char} (hc : IsOrdinary c)
    (h : remainder ps = c :: t) :
    ∃ qs, ps = .plain c :: qs ∧ t = remainder qs := by
  rcases remainder_cases ps with ⟨-, hr⟩ | ⟨qs, -, hr⟩ | ⟨d, qs, -, rfl, hr⟩ | ⟨name, qs, -, hr⟩ <;>
    rw [hr] at h <;> obtain ⟨rfl, rfl⟩ := List.cons_eq_cons.mp h
  · exact absurd rfl hc.2.2
  · exact absurd rfl hc.2.1
  · exact ⟨qs, rfl, rfl⟩
  · exact absurd rfl hc.1

theorem remainder_eq_append {w t : List Char} (hw : ∀ c ∈ w, IsOrdinary c)
    (h : remainder ps = w ++ t) :
    ∃ qs, ps = w.map .plain ++ qs ∧ t = remainder qs := by
  induction w generalizing ps with
  | nil => exact ⟨ps, rfl, h.symm⟩
  | cons c w ih =>
    obtain ⟨hc, hw⟩ := List.forall_mem_cons.mp hw
    obtain ⟨qs, rfl, hq⟩ := remainder_eq_cons hc h
    obtain ⟨qs, rfl, rfl⟩ := ih hw hq.symm
    exact ⟨qs, rfl, rfl⟩

/-- What an escape sequence uses up: characters of the path, one of the characters that the
escaping of backticks or the start of a substitution has added, or the closing backtick. -/
theorem remainder_eq_escape {w t : List Char} (hw : (∃ c, w = [c]) ∨ ∀ c ∈ w, IsOrdinary c)
    (h : remainder ps = w ++ t) :
    (∃ qs, ps = w.map .plain ++ qs ∧ t = remainder qs) ∨
    (∃ qs, ps = .plain '\x60' :: qs ∧ t = '\x60' :: remainder qs) ∨
    (∃ name qs, w = ['$'] ∧ ps = .found name :: qs ∧
      t = '\x7b' :: (access (escapeBackticks name) ++ remainder qs)) ∨
    (ps = [] ∧ t = []) := by
  rcases hw with ⟨c, rfl⟩ | hw
  · rcases remainder_cases ps with
      ⟨rfl, hr⟩ | ⟨qs, rfl, hr⟩ | ⟨d, qs, -, rfl, hr⟩ | ⟨name, qs, rfl, hr⟩ <;>
      rw [hr] at h <;> obtain ⟨rfl, rfl⟩ := List.cons_eq_cons.mp h
    · exact .inr (.inr (.inr ⟨rfl, rfl⟩))
    · exact .inr (.inl ⟨qs, rfl, rfl⟩)
    · exact .inl ⟨qs, rfl, rfl⟩
    · exact .inr (.inr (.inl ⟨name, qs, rfl, rfl, rfl⟩))
  · exact .inl (remainder_eq_append hw h)

/-! ## Braces without a partner -/

theorem Divides.tail {s : List Char} {p : Piece (List Char)} (h : Divides s (p :: ps)) :
    ∃ t, Divides t ps := by
  cases h with
  | token _ h => exact ⟨_, h⟩
  | char _ h => exact ⟨_, h⟩

theorem Divides.of_append {s : List Char} (h : Divides s (qs ++ ps)) : ∃ t, Divides t ps := by
  induction qs generalizing s with
  | nil => exact ⟨s, h⟩
  | cons q qs ih =>
    obtain ⟨t, ht⟩ := h.tail
    exact ih ht

theorem Divides.eq_of_plain {s w : List Char} (h : Divides s (w.map .plain ++ ps)) :
    ∃ t, s = w ++ t ∧ Divides t ps := by
  induction w generalizing s with
  | nil => exact ⟨s, rfl, h⟩
  | cons c w ih =>
    cases h with
    | char _ h =>
      obtain ⟨t, rfl, ht⟩ := ih h
      exact ⟨t, rfl, ht⟩

theorem Divides.noBraces {s name : List Char} (h : Divides s ps) (hn : .found name ∈ ps) :
    NoBraces name := by
  induction h with
  | nil => cases hn
  | token hb _ ih =>
    rcases List.mem_cons.mp hn with he | hn
    · cases he
      exact hb
    · exact ih hn
  | char _ _ ih =>
    rcases List.mem_cons.mp hn with he | hn
    · cases he
    · exact ih hn

theorem exists_first_brace {w : List Char} (h : ¬ NoBraces w) :
    ∃ u b v, w = u ++ b :: v ∧ NoBraces u ∧ (b = '\x7b' ∨ b = '\x7d') := by
  induction w with
  | nil => exact absurd (by simp [NoBraces]) h
  | cons c w ih =>
    by_cases hc : c = '\x7b' ∨ c = '\x7d'
    · exact ⟨[], c, w, rfl, by simp [NoBraces], hc⟩
    · push Not at hc
      have hw : ¬ NoBraces w := fun hw => h (List.forall_mem_cons.mpr ⟨hc, hw⟩)
      obtain ⟨u, b, v, rfl, hu, hb⟩ := ih hw
      exact ⟨c :: u, b, v, rfl, List.forall_mem_cons.mpr ⟨hc, hu⟩, hb⟩

/-- After an opening brace that starts no token there is no closing one without a token between
them: the last opening brace before it would start one. -/
theorem Divides.not_pair {s w : List Char}
    (h : Divides s (.plain '\x7b' :: (w.map .plain ++ .plain '\x7d' :: ps))) : False := by
  induction hn : w.length using Nat.strong_induction_on generalizing s w with
  | _ n ih =>
    cases h with
    | @char _ t _ hc h =>
      by_cases hw : NoBraces w
      · obtain ⟨t', rfl, ht⟩ := h.eq_of_plain
        cases ht with
        | char _ _ => exact hc w _ hw rfl
      · obtain ⟨u, b, v, rfl, hu, rfl | rfl⟩ := exists_first_brace hw
        · have hv : (u ++ '\x7b' :: v).map Piece.plain ++ .plain '\x7d' :: ps =
              u.map .plain ++ .plain '\x7b' :: (v.map .plain ++ .plain '\x7d' :: ps) := by simp
          obtain ⟨t', rfl, ht⟩ := (hv ▸ h).eq_of_plain
          exact ih v.length (by simp at hn; omega) ht rfl
        · obtain ⟨t', rfl, -⟩ := h.eq_of_plain
          exact hc u (v ++ t') hu (by simp)

theorem eq_map_plain (h : ∀ name, Piece.found name ∉ qs) : ∃ w : List Char, qs = w.map .plain := by
  induction qs with
  | nil => exact ⟨[], rfl⟩
  | cons q qs ih =>
    obtain ⟨w, rfl⟩ := ih fun name hm => h name (List.mem_cons_of_mem q hm)
    cases q with
    | plain c => exact ⟨c :: w, rfl⟩
    | found name => exact absurd List.mem_cons_self (h name)

theorem Divides.exists_found {s : List Char}
    (h : Divides s (.plain '\x7b' :: (qs ++ .plain '\x7d' :: ps))) : ∃ name, .found name ∈ qs := by
  by_contra! hn
  obtain ⟨w, rfl⟩ := eq_map_plain hn
  exact h.not_pair

/-! ## Substitutions that are not those of the path -/

section

variable {k : Units} {s t r : List Char}

theorem exists_of_readAfter {v : Units} {o : Option (Units × List Char)}
    (h : readAfter v o = some (k, r)) : ∃ k', o = some (k', r) ∧ k = v ++ k' := by
  obtain ⟨⟨k', r'⟩, ho, he⟩ := Option.map_eq_some_iff.mp h
  cases he
  exact ⟨k', ho, rfl⟩

theorem readTo_literal_tail {c : Char} (hq : c ≠ '"') (hb : c ≠ '\\')
    (h : readTo '"' stringElement 0 (c :: t) = some (k, r)) :
    ∃ k', readTo '"' stringElement 0 t = some (k', r) := by
  have he : stringElement (c :: t) =
      if c = '\n' ∨ c = '\r' then none else some (charUnits c, 1) := by
    simp [stringElement]
  split_ifs at he with hc
  · rw [readTo_none hq he] at h
    cases h
  · obtain ⟨k', hk, -⟩ := exists_of_readAfter ((readTo_element (w := []) hq he).symm.trans h)
    exact ⟨k', hk⟩

theorem readTo_literal_append {w : List Char} (hw : ∀ c ∈ w, c ≠ '"' ∧ c ≠ '\\')
    (h : readTo '"' stringElement 0 (w ++ t) = some (k, r)) :
    ∃ k', readTo '"' stringElement 0 t = some (k', r) := by
  induction w generalizing k with
  | nil => exact ⟨k, h⟩
  | cons c w ih =>
    obtain ⟨⟨hq, hb⟩, hw⟩ := List.forall_mem_cons.mp hw
    obtain ⟨k', hk⟩ := readTo_literal_tail hq hb h
    exact ih hw hk

theorem readTo_literal_escape (h : readTo '"' stringElement 0 ('\\' :: s) = some (k, r)) :
    ∃ w t k', s = w ++ t ∧ ((∃ c, w = [c]) ∨ ∀ c ∈ w, IsOrdinary c) ∧
      readTo '"' stringElement 0 t = some (k', r) := by
  cases he : escape s with
  | none =>
    rw [readTo_none (by decide) (by simp [stringElement, he])] at h
    cases h
  | some e =>
    obtain ⟨w, t, rfl, hn, -, hw⟩ := escape_cases (u := e.1) (n := e.2) he
    rw [readTo_element (v := e.1) (by decide) (by simp [stringElement, he, hn])] at h
    obtain ⟨k', hk, -⟩ := exists_of_readAfter h
    exact ⟨w, t, k', rfl, hw, hk⟩

theorem escapeChars_ne_brace {name : List Char} (hn : NoBraces name) :
    escapeChars name ++ '"' :: t ≠ '\x7d' :: r := by
  intro h
  cases name with
  | nil => simp [escapeChars] at h
  | cons c name =>
    have hc := (hn c List.mem_cons_self).2
    rw [escapeChars, List.flatMap_cons] at h
    unfold escapeChar at h
    split_ifs at h <;> simp_all

/-- What a substitution of the path has behind a quote does not end one. -/
theorem escapeChars_ne {name : List Char} (hn : NoBraces name) :
    escapeChars name ++ '"' :: t ≠ ']' :: '\x7d' :: r := by
  intro h
  cases name with
  | nil => simp [escapeChars] at h
  | cons c name =>
    have ht := escapeChars_ne_brace (t := t) (r := r) fun d hd => hn d (List.mem_cons_of_mem c hd)
    rw [escapeChars, List.flatMap_cons, ← escapeChars] at h
    unfold escapeChar at h
    split_ifs at h
    · simp at h
    · exact ht (List.cons_eq_cons.mp h).2

theorem readTo_literal_access {name : List Char} (hn : NoBraces name)
    (h : readTo '"' stringElement 0 ('\x7b' :: (access name ++ t)) =
      some (k, ']' :: '\x7d' :: r)) :
    ∃ k', readTo '"' stringElement 0 t = some (k', ']' :: '\x7d' :: r) := by
  unfold access at h
  split_ifs at h with hi
  · refine readTo_literal_append (w := '\x7b' :: ("params.".toList ++ (name ++ ['\x7d']))) ?_ h
    intro c hc
    simp only [List.mem_cons, List.mem_append, List.mem_nil_iff, or_false] at hc
    rcases hc with rfl | hc | hc | rfl
    · decide
    · revert c
      simp
    · have := forall_isNamePart hi c hc
      constructor <;> rintro rfl <;> simp [isNamePart, Char.isAlphanum, Char.isAlpha] at this
    · decide
  · obtain ⟨k', hk⟩ := readTo_literal_append (w := '\x7b' :: "params[".toList)
      (t := '"' :: (escapeChars name ++ '"' :: ']' :: '\x7d' :: t)) (by simp) (by simpa using h)
    rw [readTo_closing] at hk
    simp only [Option.some.injEq, Prod.mk.injEq] at hk
    exact absurd hk.2 (escapeChars_ne hn)

/-- A string literal that begins in the path and ends with a substitution ends in the path. -/
theorem exists_end_of_literal (hb : ∀ name, .found name ∈ ps → NoBraces name)
    (h : readTo '"' stringElement 0 (remainder ps) = some (k, ']' :: '\x7d' :: r)) :
    ∃ qs qs', ps = qs ++ .plain ']' :: .plain '\x7d' :: qs' ∧ r = remainder qs' := by
  induction hn : ps.length using Nat.strong_induction_on generalizing ps k with
  | _ n ih =>
    -- what the literal uses up before it goes on in the rest of the path
    have go : ∀ (us vs : List (Piece (List Char))) (k' : Units), us ≠ [] → ps = us ++ vs →
        readTo '"' stringElement 0 (remainder vs) = some (k', ']' :: '\x7d' :: r) →
        ∃ qs qs', ps = qs ++ .plain ']' :: .plain '\x7d' :: qs' ∧ r = remainder qs' := by
      rintro us vs k' hus rfl hk
      have hl := List.length_pos_iff.mpr hus
      obtain ⟨qs, qs', rfl, hr⟩ := ih vs.length (by simp at hn; omega)
        (fun name hm => hb name (List.mem_append_right us hm)) hk rfl
      exact ⟨us ++ qs, qs', by simp, hr⟩
    have hnil : ∀ k', readTo '"' stringElement 0 [] ≠ some (k', ']' :: '\x7d' :: r) := by
      simp [readTo]
    rcases remainder_cases ps with ⟨rfl, hr⟩ | ⟨qs, rfl, hr⟩ | ⟨c, qs, -, rfl, hr⟩ |
      ⟨name, qs, rfl, hr⟩ <;> rw [hr] at h
    · obtain ⟨k', hk⟩ := readTo_literal_tail (by decide) (by decide) h
      exact absurd hk (hnil k')
    · have he : readTo '"' stringElement 0 ('\\' :: '\x60' :: remainder qs) =
          readAfter (charUnits '\x60') (readTo '"' stringElement 0 (remainder qs)) :=
        readTo_element (w := ['\x60']) (by decide) rfl
      obtain ⟨k', hk, -⟩ := exists_of_readAfter (he.symm.trans h)
      exact go [.plain '\x60'] qs k' (by simp) rfl hk
    · by_cases hq : c = '"'
      · subst hq
        rw [readTo_closing] at h
        simp only [Option.some.injEq, Prod.mk.injEq] at h
        obtain ⟨qs, rfl, ht⟩ := remainder_eq_cons (by simp [IsOrdinary]) h.2
        obtain ⟨qs', rfl, ht'⟩ := remainder_eq_cons (by simp [IsOrdinary]) ht.symm
        exact ⟨[.plain '"'], qs', rfl, ht'⟩
      by_cases hs : c = '\\'
      · subst hs
        obtain ⟨w, t, k', he, hw, hk⟩ := readTo_literal_escape h
        rcases remainder_eq_escape hw he with ⟨rs, rfl, rfl⟩ | ⟨rs, rfl, rfl⟩ |
          ⟨name, rs, -, rfl, rfl⟩ | ⟨rfl, rfl⟩
        · exact go (.plain '\\' :: w.map .plain) rs k' (by simp) rfl hk
        · obtain ⟨k', hk⟩ := readTo_literal_tail (by decide) (by decide) hk
          exact go [.plain '\\', .plain '\x60'] rs k' (by simp) rfl hk
        · obtain ⟨k', hk⟩ := readTo_literal_access (hb name (by simp)).escapeBackticks hk
          exact go [.plain '\\', .found name] rs k' (by simp) rfl hk
        · exact absurd hk (hnil k')
      · obtain ⟨k', hk⟩ := readTo_literal_tail hq hs h
        exact go [.plain c] qs k' (by simp) rfl hk
    · obtain ⟨k', hk⟩ := readTo_literal_tail (by decide) (by decide) h
      obtain ⟨k', hk⟩ := readTo_literal_access (hb name (by simp)).escapeBackticks hk
      exact go [.found name] qs k' (by simp) rfl hk

theorem remainder_eq_name {name : List Char} (hn : ∀ c ∈ name, isNamePart c = true)
    (h : remainder ps = name ++ '\x7d' :: t) :
    ∃ qs, ps = name.map .plain ++ .plain '\x7d' :: qs ∧ t = remainder qs := by
  induction name generalizing ps with
  | nil => exact remainder_eq_cons (by simp [IsOrdinary]) h
  | cons c name ih =>
    obtain ⟨hc, hn⟩ := List.forall_mem_cons.mp hn
    have hp : ∃ qs, ps = .plain c :: qs ∧ remainder qs = name ++ '\x7d' :: t := by
      rcases remainder_cases ps with ⟨-, hr⟩ | ⟨qs, -, hr⟩ | ⟨d, qs, -, rfl, hr⟩ |
        ⟨name', qs, -, hr⟩ <;> rw [hr] at h <;> obtain ⟨rfl, ht⟩ := List.cons_eq_cons.mp h
      · simp [isNamePart, Char.isAlphanum, Char.isAlpha] at hc
      · simp [isNamePart, Char.isAlphanum, Char.isAlpha] at hc
      · exact ⟨qs, rfl, ht⟩
      · cases name with
        | nil => simp at ht
        | cons d name =>
          obtain ⟨rfl, -⟩ := List.cons_eq_cons.mp ht
          have := hn '\x7b' (by simp)
          simp [isNamePart, Char.isAlphanum, Char.isAlpha] at this
    obtain ⟨qs, rfl, hq⟩ := hp
    obtain ⟨qs, rfl, rfl⟩ := ih hn hq
    exact ⟨qs, rfl, rfl⟩

/-- A substitution that begins in the path ends there, and a token lies in it. -/
theorem exists_end_of_substitution {s : List Char} (hd : Divides s (.plain '\x7b' :: ps))
    (h : readParameter (remainder ps) = some (k, r)) :
    ∃ name qs qs', .found name ∈ qs ∧ ps = qs ++ qs' ∧ r = remainder qs' := by
  have hb : ∀ name, .found name ∈ ps → NoBraces name := fun name hm =>
    hd.noBraces (List.mem_cons_of_mem _ hm)
  have hprefix : ∀ w : List Char, (∀ c ∈ w, IsOrdinary c) → ∀ t, remainder ps = w ++ t →
      ∃ qs, ps = w.map .plain ++ qs ∧ t = remainder qs := fun w hw t he =>
    remainder_eq_append hw he
  generalize hs : remainder ps = s' at h
  unfold readParameter at h
  split at h
  · rename_i tail
    obtain ⟨qs, rfl, hq⟩ := hprefix "params.".toList (by simp [IsOrdinary]) tail hs
    dsimp only at h
    split at h
    · rename_i t hdrop
      have htail : tail = tail.takeWhile isNamePart ++ '\x7d' :: t := by
        rw [← hdrop, List.prefix_iff_eq_append.mp (List.takeWhile_prefix isNamePart)]
      have hname : ∀ c ∈ tail.takeWhile isNamePart, isNamePart c = true := fun c hc =>
        List.mem_takeWhile_imp hc
      obtain ⟨qs', rfl, -⟩ := remainder_eq_name hname (hq.symm.trans htail)
      rw [← List.append_assoc, ← List.map_append] at hd
      exact hd.not_pair.elim
    · cases h
  · rename_i tail
    split at h
    · rename_i name t hl
      cases h
      unfold readLiteral at hl
      split at hl
      · rename_i tail
        obtain ⟨us, rfl, hu⟩ := hprefix "params[\"".toList (by simp [IsOrdinary]) tail hs
        rw [hu] at hl
        obtain ⟨qs, qs', rfl, hr⟩ := exists_end_of_literal
          (fun name hm => hb name (List.mem_append_right _ hm)) hl
        have he : "params[\"".toList.map Piece.plain ++ (qs ++ .plain ']' :: .plain '\x7d' :: qs') =
            ("params[\"".toList.map .plain ++ (qs ++ [.plain ']'])) ++ .plain '\x7d' :: qs' := by
          simp
        rw [he] at hd ⊢
        obtain ⟨name, hm⟩ := hd.exists_found
        exact ⟨name, _ ++ [.plain '\x7d'], qs', List.mem_append_left _ hm, by simp, hr⟩
      · cases hl
    · cases h
  · cases h

end

end ApiTypings.TypeScript
