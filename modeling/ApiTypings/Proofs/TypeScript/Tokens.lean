import Mathlib
import ApiTypings.Proofs.Text.Scanning
import ApiTypings.TypeScript.UrlTemplate

/-! # Tokens of a path

A token is a pair of braces with none between them. A path divides in one way into tokens and the
characters around them, and the template literal for the path is written piece by piece.
-/

namespace ApiTypings

namespace TypeScript

open Text (Piece pieces)

/-! ## Dividing a path -/

def NoBraces (name : List Char) : Prop := ∀ c ∈ name, c ≠ '\x7b' ∧ c ≠ '\x7d'

theorem noBraces_iff {name : List Char} :
    NoBraces name ↔ ∀ c ∈ name, (c != '\x7b' && c != '\x7d') = true := by
  simp [NoBraces]

/-- Tokens are the innermost pairs of braces. Whatever starts no token is a character. -/
inductive Divides : List Char → List (Piece (List Char)) → Prop
  | nil : Divides [] []
  | token {name t : List Char} {ps : List (Piece (List Char))} : NoBraces name → Divides t ps →
      Divides ('\x7b' :: (name ++ '\x7d' :: t)) (.found name :: ps)
  | char {c : Char} {t : List Char} {ps : List (Piece (List Char))} :
      (∀ name t', NoBraces name → c :: t ≠ '\x7b' :: (name ++ '\x7d' :: t')) → Divides t ps →
      Divides (c :: t) (.plain c :: ps)

theorem pathParameter_token {name t : List Char} (h : NoBraces name) :
    pathParameter ('\x7b' :: (name ++ '\x7d' :: t)) = some (name, name.length + 2) :=
  Text.braced_eq_some (noBraces_iff.mp h) rfl

theorem exists_token_of_pathParameter {s name : List Char} {n : ℕ}
    (h : pathParameter s = some (name, n)) :
    ∃ t, s = '\x7b' :: (name ++ '\x7d' :: t) ∧ NoBraces name ∧ n = name.length + 2 := by
  obtain ⟨t, hs, hb, hn⟩ := Text.exists_of_braced h
  exact ⟨t, hs, noBraces_iff.mpr hb, hn⟩

theorem pathParameter_eq_none {c : Char} {t : List Char}
    (h : ∀ name t', NoBraces name → c :: t ≠ '\x7b' :: (name ++ '\x7d' :: t')) :
    pathParameter (c :: t) = none := by
  by_contra hn
  obtain ⟨⟨name, n⟩, hs⟩ := Option.ne_none_iff_exists'.mp hn
  obtain ⟨t', ht, hb, -⟩ := exists_token_of_pathParameter hs
  exact h name t' hb ht

theorem Divides.pieces_eq {s : List Char} {ps : List (Piece (List Char))} (h : Divides s ps) :
    pieces pathParameter s = ps := by
  induction h with
  | nil => rfl
  | @token name t ps hb _ ih =>
    have hp := pathParameter_token hb (t := t)
    rw [show name ++ '\x7d' :: t = (name ++ ['\x7d']) ++ t by simp] at hp ⊢
    rw [Text.pieces_found (by simpa using hp), ih]
  | char hc _ ih => rw [Text.pieces_plain (pathParameter_eq_none hc), ih]

theorem divides_pieces (s : List Char) : Divides s (pieces pathParameter s) := by
  induction hn : s.length using Nat.strong_induction_on generalizing s with
  | _ n ih =>
    cases s with
    | nil => exact .nil
    | cons c t =>
      by_cases h : ∃ name t', NoBraces name ∧ c :: t = '\x7b' :: (name ++ '\x7d' :: t')
      · obtain ⟨name, t', hb, he⟩ := h
        obtain ⟨rfl, rfl⟩ := List.cons_eq_cons.mp he
        have hd := Divides.token hb (ih t'.length (by simp at hn; omega) t' rfl)
        rwa [hd.pieces_eq]
      · push Not at h
        have hd := Divides.char h (ih t.length (by simp at hn; omega) t rfl)
        rwa [hd.pieces_eq]

theorem divides_iff {s : List Char} {ps : List (Piece (List Char))} :
    Divides s ps ↔ ps = pieces pathParameter s :=
  ⟨fun h => h.pieces_eq.symm, fun h => h ▸ divides_pieces s⟩

/-! ## The written template -/

def pieceText : Piece (List Char) → List Char
  | .plain c => if c = '\x60' then ['\\', c] else [c]
  | .found name => substitution (escapeBackticks name)

def templateText (ps : List (Piece (List Char))) : List Char := ps.flatMap pieceText

theorem escapeBackticks_append (s t : List Char) :
    escapeBackticks (s ++ t) = escapeBackticks s ++ escapeBackticks t :=
  List.flatMap_append

theorem escapeBackticks_cons {c : Char} (h : c ≠ '\x60') (s : List Char) :
    escapeBackticks (c :: s) = c :: escapeBackticks s := by
  simp [escapeBackticks, h]

theorem mem_escapeBackticks {c : Char} {s : List Char} (h : c ∈ s) : c ∈ escapeBackticks s :=
  List.mem_flatMap.mpr ⟨c, h, by split_ifs <;> simp⟩

theorem of_mem_escapeBackticks {c : Char} {s : List Char} (h : c ∈ escapeBackticks s) :
    c ∈ s ∨ c = '\\' := by
  obtain ⟨d, hd, hc⟩ := List.mem_flatMap.mp h
  split_ifs at hc
  · rcases List.mem_pair.mp hc with rfl | rfl
    · exact .inr rfl
    · exact .inl hd
  · rw [List.mem_singleton.mp hc]
    exact .inl hd

theorem NoBraces.escapeBackticks {name : List Char} (h : NoBraces name) :
    NoBraces (escapeBackticks name) := by
  intro c hc
  rcases of_mem_escapeBackticks hc with hc | rfl
  · exact h c hc
  · decide

/-- A character without a part in the escaping divides the text before it, too. -/
theorem exists_eq_of_escapeBackticks_eq {d : Char} (hd : d ≠ '\x60' ∧ d ≠ '\\')
    {s w t : List Char} (h : escapeBackticks s = w ++ d :: t) :
    ∃ w' t', s = w' ++ d :: t' ∧ w = escapeBackticks w' := by
  induction s generalizing w with
  | nil => simp [escapeBackticks] at h
  | cons c s ih =>
    by_cases hc : c = '\x60'
    · subst hc
      change '\\' :: '\x60' :: escapeBackticks s = w ++ d :: t at h
      rcases w with _ | ⟨x, _ | ⟨y, w⟩⟩
      · exact absurd (List.cons_eq_cons.mp h).1.symm hd.2
      · exact absurd (List.cons_eq_cons.mp (List.cons_eq_cons.mp h).2).1.symm hd.1
      · simp only [List.cons_append, List.cons.injEq] at h
        obtain ⟨rfl, rfl, h⟩ := h
        obtain ⟨w', t', rfl, rfl⟩ := ih h
        exact ⟨'\x60' :: w', t', rfl, rfl⟩
    · rw [escapeBackticks_cons hc] at h
      rcases w with _ | ⟨x, w⟩
      · obtain ⟨rfl, -⟩ := List.cons_eq_cons.mp h
        exact ⟨[], s, rfl, rfl⟩
      · simp only [List.cons_append, List.cons.injEq] at h
        obtain ⟨rfl, h⟩ := h
        obtain ⟨w', t', rfl, rfl⟩ := ih h
        exact ⟨c :: w', t', rfl, (escapeBackticks_cons hc w').symm⟩

theorem pathParameter_escaped_eq_none {c : Char} {t : List Char}
    (h : ∀ name t', NoBraces name → c :: t ≠ '\x7b' :: (name ++ '\x7d' :: t')) :
    pathParameter (c :: escapeBackticks t) = none := by
  apply pathParameter_eq_none
  intro name t' hb he
  obtain ⟨rfl, ht⟩ := List.cons_eq_cons.mp he
  obtain ⟨name', t'', rfl, rfl⟩ := exists_eq_of_escapeBackticks_eq (by decide) ht
  exact h name' t'' (fun c hc => hb c (mem_escapeBackticks hc)) rfl

theorem Divides.replaceAll_eq {s : List Char} {ps : List (Piece (List Char))} (h : Divides s ps) :
    Text.replaceAll pathParameter substitution (escapeBackticks s) = templateText ps := by
  induction h with
  | nil => rfl
  | @token name t ps hb _ ih =>
    have hp := pathParameter_token hb.escapeBackticks (t := escapeBackticks t)
    have he : escapeBackticks ('\x7b' :: (name ++ '\x7d' :: t)) =
        '\x7b' :: ((escapeBackticks name ++ ['\x7d']) ++ escapeBackticks t) := by
      rw [escapeBackticks_cons (by decide), escapeBackticks_append,
        escapeBackticks_cons (by decide)]
      simp
    rw [he, Text.replaceAll_found (by simpa using hp), ih]
    rfl
  | @char c t ps hc _ ih =>
    by_cases hb : c = '\x60'
    · subst hb
      have he : escapeBackticks ('\x60' :: t) = '\\' :: '\x60' :: escapeBackticks t := rfl
      rw [he, Text.replaceAll_plain rfl, Text.replaceAll_plain rfl, ih]
      rfl
    · rw [escapeBackticks_cons hb, Text.replaceAll_plain (pathParameter_escaped_eq_none hc), ih]
      simp [templateText, pieceText, hb]

theorem toList_urlTemplate (path : String) :
    (urlTemplate path).toList = templateText (pieces pathParameter path.toList) := by
  rw [← (divides_pieces path.toList).replaceAll_eq]
  simp [urlTemplate]

end TypeScript

end ApiTypings
