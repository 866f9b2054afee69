import Mathlib
import ApiTypings.Proofs.Url.Joining

/-! # Paths

The segments of a path that has been read have nothing in them to encode and are not made of dots.
Their text is cut at its slashes into the same segments, and these are taken as they stand.
-/

namespace ApiTypings.Url

variable {c : Char} {s t : List Char} {scheme : List Char} {ss path : List (List Char)}

/-! ## Segments -/

structure IsSegment (scheme s : List Char) : Prop where
  chars : ∀ c ∈ s, c ≠ '/' ∧ isPathChar scheme c = true
  dots : isDot s = false ∧ isDoubleDot s = false

theorem isSegment_nil : IsSegment scheme [] := ⟨by simp, by decide⟩

theorem isSegment_drive (hc : c.isAlpha = true) : IsSegment scheme [c, ':'] := by
  have hn : ∀ d : Char, d.isAlpha = false → c ≠ d := by
    rintro d hd rfl
    simp [hc] at hd
  refine ⟨List.forall_mem_cons.mpr ⟨⟨hn _ (by decide), ?_⟩, List.forall_mem_singleton.mpr
    ⟨by decide, ?_⟩⟩, by simp [isDot, isDoubleDot, dotForms]⟩
  · exact isPathChar_iff.mpr ⟨not_inPath_of_isAlpha hc, fun _ => hn _ (by decide)⟩
  · exact isPathChar_iff.mpr ⟨by decide, fun _ => by decide⟩

theorem isSegment_encode (hs : ∀ c ∈ s, isSlash (isSpecial scheme) c = false)
    (hd : isDot s = false ∧ isDoubleDot s = false) : IsSegment scheme (encode inPath s) where
  chars c hc := by
    have hx : ∀ m < 16, Text.hexDigit m ≠ '/' := by decide
    refine ⟨?_, isPathChar_of_mem_encode (fun h hm => ?_) hc⟩
    · obtain ⟨hc, -⟩ | rfl | ⟨m, hm, rfl⟩ := mem_encode hc
      · rintro rfl
        simpa [isSlash] using hs _ hc
      · decide
      · exact hx m hm
    · simpa [isSlash, h] using hs _ hm
  dots := not_dots_encode (by decide) hd

theorem IsSegment.not_isSlash (h : IsSegment scheme s) :
    ∀ c ∈ s, isSlash (isSpecial scheme) c = false := fun c hc => by
  rw [isSlash_of_isPathChar (h.chars c hc).2]
  simpa using (h.chars c hc).1

/-! ## Drives -/

theorem added_eq_encode
    (h : ∀ c : Char, s = [c, '|'] → (isFile scheme && path.isEmpty && c.isAlpha) = false) :
    added scheme path s = encode inPath s := by
  unfold added
  split
  · next c => rw [if_neg (by simp [h c rfl])]
  · rfl

/-- A drive is written with a colon once and for all. -/
theorem added_added (scheme s : List Char) :
    added scheme [] (added scheme [] s) = added scheme [] s := by
  by_cases hs : ∃ c : Char, s = [c, '|'] ∧ (isFile scheme && c.isAlpha) = true
  · obtain ⟨c, rfl, hc⟩ := hs
    have ha : added scheme [] [c, '|'] = encode inPath [c, ':'] := by simp [added, hc]
    have hd : IsSegment scheme [c, ':'] := isSegment_drive (Bool.and_eq_true_iff.mp hc).2
    have hk : encode inPath [c, ':'] = [c, ':'] := encode_eq_self fun d hm =>
      (isPathChar_iff.mp (hd.chars d hm).2).1
    rw [ha, hk, added_eq_encode (by simp), hk]
  · have ha : added scheme [] s = encode inPath s := added_eq_encode fun c hc => by
      by_contra hn
      exact hs ⟨c, hc, by simpa using hn⟩
    rw [ha, added_eq_encode, encode_encode keepsBytes_inPath]
    intro c hc
    by_contra hn
    have hn : (isFile scheme && c.isAlpha) = true := by simpa using hn
    -- A drive has no encoded byte in it, so it was there before.
    have hm : '%' ∉ encode inPath s := by
      rw [hc]
      have hp : c ≠ '%' := by
        rintro rfl
        simp at hn
      simp [hp.symm]
    exact hs ⟨c, (encode_eq_self_of_not_mem hm).symm.trans hc, hn⟩

/-! ## Paths -/

structure IsPath (scheme : List Char) (ss : List (List Char)) : Prop where
  segments : ∀ s ∈ ss, IsSegment scheme s
  first : ∀ s ∈ ss.head?, added scheme [] s = s

theorem isPath_nil : IsPath scheme [] := ⟨by simp, by simp⟩

theorem readSegments_ne_nil (h : ss ≠ []) : readSegments scheme path ss ≠ [] := by
  induction ss generalizing path with
  | nil => exact absurd rfl h
  | cons s ss ih =>
    rw [readSegments_cons]
    cases ss with
    | nil => split_ifs with h₁ h₂ h₃ h₄ <;> simp_all [readSegments]
    | cons t ts => split_ifs <;> exact ih (by simp)

theorem first_readSegments (h : ∀ s ∈ path.head?, added scheme [] s = s) :
    ∀ s ∈ (readSegments scheme path ss).head?, added scheme [] s = s := by
  have hc : ∀ {path : List (List Char)} {t : List Char},
      (∀ s ∈ path.head?, added scheme [] s = s) →
      (path = [] → added scheme [] t = t) → ∀ s ∈ (path ++ [t]).head?, added scheme [] s = s := by
    rintro (_ | ⟨a, path⟩) t hp ht
    · simpa using ht rfl
    · simpa using hp
  have hn : added scheme [] [] = [] := rfl
  induction ss generalizing path with
  | nil => exact h
  | cons t ss ih =>
    have hx : ∀ s ∈ (shorten scheme path).head?, added scheme [] s = s := by
      obtain ⟨r, hr⟩ := shorten_isPrefix scheme path
      intro s hs
      rw [← hr, List.head?_append] at h
      exact h s (by rw [hs]; rfl)
    rw [readSegments_cons]
    split_ifs
    · exact ih (hc hx fun _ => hn)
    · exact ih hx
    · exact ih (hc h fun _ => hn)
    · exact ih h
    · refine ih (hc h ?_)
      rintro rfl
      exact added_added scheme t

theorem exists_readPath (scheme s : List Char) :
    ∃ t ts, readPath scheme [] s = .segments (t :: ts) ∧ IsPath scheme (t :: ts) := by
  have hn : readSegments scheme [] (splitPath scheme s) ≠ [] :=
    readSegments_ne_nil (List.splitOnP_ne_nil (isSlash (isSpecial scheme)) s)
  obtain ⟨t, ts, ht⟩ := List.exists_cons_of_ne_nil hn
  refine ⟨t, ts, congrArg UrlPath.segments ht, ?_⟩
  rw [← ht]
  refine ⟨?_, first_readSegments (by simp)⟩
  refine forall_mem_drop_readSegments (n := 0) isSegment_nil (fun c => isSegment_drive)
    (fun s hs h₁ h₂ => isSegment_encode (Text.mem_splitOnP hs).1 ⟨h₁, h₂⟩) (by simp)

theorem IsPath.readSegments_eq (h : IsPath scheme ss) : readSegments scheme [] ss = ss := by
  cases ss with
  | nil => rfl
  | cons s ss =>
    obtain ⟨hs, hss⟩ := List.forall_mem_cons.mp h.segments
    rw [readSegments_cons, if_neg (by simp [hs.dots]), if_neg (by simp [hs.dots]), h.first s rfl,
      List.nil_append, Url.readSegments_eq (by simp) fun t ht => ?_]
    · rfl
    · exact ⟨fun c hc => (isPathChar_iff.mp ((hss t ht).chars c hc).2).1, (hss t ht).dots⟩

@[simp] theorem chars_nil : UrlPath.chars (.segments []) = [] := rfl

@[simp] theorem chars_cons (s : List Char) (ss : List (List Char)) :
    UrlPath.chars (.segments (s :: ss)) = '/' :: (s ++ UrlPath.chars (.segments ss)) := rfl

theorem splitPath_chars (h : ∀ t ∈ s :: ss, IsSegment scheme t) :
    splitPath scheme (s ++ UrlPath.chars (.segments ss)) = s :: ss := by
  induction ss generalizing s with
  | nil =>
    rw [chars_nil, List.append_nil, splitPath,
      List.splitOnP_eq_singleton (h s List.mem_cons_self).not_isSlash]
  | cons t ss ih =>
    obtain ⟨hs, h⟩ := List.forall_mem_cons.mp h
    exact (List.splitOnP_append_cons_of_forall_mem hs.not_isSlash '/' rfl _).trans
      (congrArg (s :: ·) (ih h))

theorem IsPath.readPath_eq (h : IsPath scheme (s :: ss)) :
    readPath scheme [] (s ++ UrlPath.chars (.segments ss)) = .segments (s :: ss) := by
  rw [readPath, splitPath_chars h.segments, h.readSegments_eq]

/-- A dot before a path leads nowhere. -/
theorem readPath_dot (scheme s : List Char) (path : List (List Char)) :
    readPath scheme path ('.' :: '/' :: s) = readPath scheme path s := by
  have hd : ∀ c ∈ ['.'], isSlash (isSpecial scheme) c = false := by simp [isSlash]
  have hs : splitPath scheme ('.' :: '/' :: s) = ['.'] :: splitPath scheme s :=
    List.splitOnP_append_cons_of_forall_mem hd '/' rfl s
  have he : (splitPath scheme s).isEmpty = false := by
    simp [splitPath, List.splitOnP_ne_nil]
  rw [readPath, readPath, hs, readSegments_cons, if_neg (by decide), if_pos (by decide), he]
  rfl

end ApiTypings.Url
