import Mathlib
import ApiTypings.Proofs.Text.Letters
import ApiTypings.Proofs.Text.Pieces
import ApiTypings.Proofs.Url.Encoding

/-! # Joining a path

An address that is joined with the path of a document keeps its scheme and its host. The segments of
the path follow the directory of the address, but dots in them lead elsewhere, some characters are
encoded, and a query or a fragment ends the path.
-/

namespace ApiTypings.Url

variable {c : Char} {s t name : List Char} {scheme : List Char} {ss path : List (List Char)}
  {base u : Url}

/-! ## Characters -/

def isPathChar (scheme : List Char) (c : Char) : Bool :=
  !inPath c && !(isSpecial scheme && c == '\\')

theorem isPathChar_iff : isPathChar scheme c = true ↔
    inPath c = false ∧ (isSpecial scheme = true → c ≠ '\\') := by
  cases h : isSpecial scheme <;> simp [isPathChar, h]

theorem not_inPath_of_isAlphanum (h : c.isAlphanum = true) : inPath c = false := by
  have hc : ∀ n < 0x7F, (Char.ofNat n).isAlphanum = true → inPath (Char.ofNat n) = false := by
    decide
  simpa using hc c.toNat (Text.toNat_lt_of_isAlphanum h) (by simpa using h)

theorem not_inPath_of_isAlpha (h : c.isAlpha = true) : inPath c = false :=
  not_inPath_of_isAlphanum (by simp [Char.isAlphanum, h])

theorem isPathChar_of_mem_encode (hs : isSpecial scheme = true → '\\' ∉ s)
    (h : c ∈ encode inPath s) : isPathChar scheme c = true := by
  have hx : ∀ m < 16, Text.hexDigit m ≠ '\\' := by decide
  refine isPathChar_iff.mpr ⟨not_of_mem_encode keepsBytes_inPath h, fun hsp => ?_⟩
  obtain ⟨hc, -⟩ | rfl | ⟨m, hm, rfl⟩ := mem_encode h
  · exact ne_of_mem_of_not_mem hc (hs hsp)
  · decide
  · exact hx m hm

/-! ## Segments -/

/-- A segment made of dots starts with a dot or with the sign of a character that was encoded. -/
theorem not_dots_of_head (h : ∀ c ∈ s, c.toLower ≠ '.' ∧ c.toLower ≠ '%') :
    isDot s = false ∧ isDoubleDot s = false := by
  cases s with
  | nil => decide
  | cons c s =>
    obtain ⟨h₁, h₂⟩ := h c List.mem_cons_self
    simp [isDot, isDoubleDot, dotForms, h₁, h₂]

theorem isSlash_of_isPathChar (h : isPathChar scheme c = true) :
    isSlash (isSpecial scheme) c = (c == '/') := by
  have h := (isPathChar_iff.mp h).2
  cases hs : isSpecial scheme
  · simp [isSlash]
  · simp [isSlash, h hs]

theorem splitPath_eq (h : ∀ c ∈ s, isPathChar scheme c = true) :
    splitPath scheme s = s.splitOn '/' := by
  rw [splitPath, List.splitOn_eq_splitOnP]
  exact Text.splitOnP_congr fun c hc => isSlash_of_isPathChar (h c hc)

/-- A text that a reader takes as it stands: no character of it has to be encoded or ends the path,
and no segment is made of dots. -/
structure Verbatim (scheme : List Char) (s : List Char) : Prop where
  chars : ∀ c ∈ s, isPathChar scheme c = true
  dots : ∀ t ∈ s.splitOn '/', isDot t = false ∧ isDoubleDot t = false

theorem verbatim_iff : Verbatim scheme s ↔ (∀ c ∈ s, isPathChar scheme c = true) ∧
    ∀ t ∈ s.splitOn '/', isDot t = false ∧ isDoubleDot t = false :=
  ⟨fun h => ⟨h.chars, h.dots⟩, fun h => ⟨h.1, h.2⟩⟩

instance : Decidable (Verbatim scheme s) :=
  decidable_of_iff (s.all (isPathChar scheme) = true ∧
    ((s.splitOn '/').all fun t => !isDot t && !isDoubleDot t) = true) (by simp [verbatim_iff])

theorem isPathChar_slash (scheme : List Char) : isPathChar scheme '/' = true :=
  isPathChar_iff.mpr ⟨by decide, fun _ => by decide⟩

theorem verbatim_append_slash :
    Verbatim scheme (s ++ '/' :: t) ↔ Verbatim scheme s ∧ Verbatim scheme t := by
  simp only [verbatim_iff, List.splitOn_append_cons_self, List.forall_mem_append,
    List.forall_mem_cons, isPathChar_slash]
  tauto

theorem verbatim_of_segment (hs : ∀ c ∈ s, c ≠ '/' ∧ isPathChar scheme c = true)
    (hd : isDot s = false ∧ isDoubleDot s = false) : Verbatim scheme s where
  chars c hc := (hs c hc).2
  dots := by
    rw [List.splitOn_eq_singleton fun h => (hs _ h).1 rfl, List.forall_mem_singleton]
    exact hd

theorem forall_isPathChar (h : ∀ t ∈ s.splitOn '/', ∀ c ∈ t, isPathChar scheme c = true) :
    ∀ c ∈ s, isPathChar scheme c = true := by
  intro c hc
  by_cases hs : c = '/'
  · exact hs ▸ isPathChar_slash scheme
  · rw [List.splitOn_eq_splitOnP] at h
    obtain ⟨t, ht, hc⟩ := Text.exists_mem_splitOnP (p := (· == '/')) hc (by simpa using hs)
    exact h t ht c hc

theorem shorten_concat {d : List Char} (h : isDrive d = false) (path : List (List Char)) :
    shorten scheme (path ++ [d]) = path := by
  unfold shorten
  split
  · next x hx =>
    rcases path with _ | ⟨a, _ | _⟩
    · obtain rfl : d = x := by simpa using hx
      simp [h]
    · simp at hx
    · simp at hx
  · rw [List.dropLast_concat]

theorem shorten_isPrefix (scheme : List Char) (path : List (List Char)) :
    shorten scheme path <+: path := by
  unfold shorten
  split
  · split_ifs
    · exact List.prefix_rfl
    · exact List.nil_prefix
  · exact List.dropLast_prefix path

theorem mem_drop_shorten {n : Nat} (h : s ∈ (shorten scheme path).drop n) : s ∈ path.drop n :=
  ((shorten_isPrefix scheme path).drop n).subset h

/-- What is added for a segment: a drive at the start of a file path is written with a colon. -/
def added (scheme : List Char) (path : List (List Char)) (s : List Char) : List Char :=
  encode inPath (match s with
    | [c, '|'] => if isFile scheme && path.isEmpty && c.isAlpha then [c, ':'] else s
    | _ => s)

theorem readSegments_cons (scheme : List Char) (path : List (List Char)) (s : List Char)
    (rest : List (List Char)) :
    readSegments scheme path (s :: rest) =
      if isDoubleDot s then
        readSegments scheme
          (if rest.isEmpty then shorten scheme path ++ [[]] else shorten scheme path) rest
      else if isDot s then
        readSegments scheme (if rest.isEmpty then path ++ [[]] else path) rest
      else readSegments scheme (path ++ [added scheme path s]) rest := by
  rw [readSegments.eq_def]
  rfl

theorem added_cases (scheme : List Char) (path : List (List Char)) (s : List Char) :
    added scheme path s = encode inPath s ∨
      path = [] ∧ ∃ c : Char, c.isAlpha = true ∧ added scheme path s = [c, ':'] := by
  unfold added
  split
  · next c =>
    split_ifs with h
    · obtain ⟨⟨-, hp⟩, hc⟩ : (isFile scheme = true ∧ path = []) ∧ c.isAlpha = true := by
        simpa using h
      refine .inr ⟨hp, c, hc, encode_eq_self fun a ha => ?_⟩
      rcases List.mem_pair.mp ha with rfl | rfl
      · exact not_inPath_of_isAlpha hc
      · decide
    · exact .inl rfl
  · exact .inl rfl

theorem forall_mem_drop_concat {Q : List Char → Prop} {n : Nat} (hp : ∀ s ∈ path.drop n, Q s)
    (hs : Q s) : ∀ t ∈ (path ++ [s]).drop n, Q t := by
  intro t ht
  rw [List.drop_append, List.mem_append] at ht
  rcases ht with ht | ht
  · exact hp t ht
  · obtain rfl := List.mem_singleton.mp (List.mem_of_mem_drop ht)
    exact hs

/-- The segments beyond some place are those that were there and those that are read, as far as they
are not made of dots. -/
theorem forall_mem_drop_readSegments {Q : List Char → Prop} {n : Nat} (h₀ : Q [])
    (hd : ∀ c : Char, c.isAlpha = true → Q [c, ':'])
    (hs : ∀ s ∈ ss, isDot s = false → isDoubleDot s = false → Q (encode inPath s))
    (hp : ∀ s ∈ path.drop n, Q s) : ∀ s ∈ (readSegments scheme path ss).drop n, Q s := by
  induction ss generalizing path with
  | nil => exact hp
  | cons t ss ih =>
    obtain ⟨ht, hs⟩ := List.forall_mem_cons.mp hs
    have hx : ∀ s ∈ (shorten scheme path).drop n, Q s := fun s h => hp s (mem_drop_shorten h)
    rw [readSegments_cons]
    split_ifs with h₁ h₂ h₃ h₄
    · exact ih hs (forall_mem_drop_concat hx h₀)
    · exact ih hs hx
    · exact ih hs (forall_mem_drop_concat hp h₀)
    · exact ih hs hp
    · refine ih hs (forall_mem_drop_concat hp ?_)
      rcases added_cases scheme path t with he | ⟨-, c, hc, he⟩ <;> rw [he]
      · exact ht (by simpa using h₃) (by simpa using h₁)
      · exact hd c hc

theorem readSegments_eq (hp : path ≠ [])
    (hs : ∀ s ∈ ss, (∀ c ∈ s, inPath c = false) ∧ isDot s = false ∧ isDoubleDot s = false) :
    readSegments scheme path ss = path ++ ss := by
  induction ss generalizing path with
  | nil => simp [readSegments]
  | cons s ss ih =>
    obtain ⟨⟨hc, h₁, h₂⟩, hs⟩ := List.forall_mem_cons.mp hs
    have he : added scheme path s = s := by
      rcases added_cases scheme path s with he | ⟨hn, -⟩
      · rw [he, encode_eq_self hc]
      · exact absurd hn hp
    rw [readSegments_cons, if_neg (by simp [h₂]), if_neg (by simp [h₁]), he, ih (by simp) hs,
      List.append_assoc, List.singleton_append]

theorem Verbatim.readSegments_eq (h : Verbatim scheme s) (hp : path ≠ []) :
    readSegments scheme path (splitPath scheme s) = path ++ s.splitOn '/' := by
  rw [splitPath_eq h.chars]
  refine Url.readSegments_eq hp fun t ht => ⟨fun c hc => ?_, h.dots t ht⟩
  rw [List.splitOn_eq_splitOnP] at ht
  exact (isPathChar_iff.mp (h.chars c ((Text.mem_splitOnP ht).2 hc))).1

/-! ## Reading relative to an address -/

/-- The name of a directory that no reader takes for anything else. -/
structure IsDirectoryName (name : List Char) : Prop where
  long : 2 < name.length
  chars : ∀ c ∈ name, c.isAlpha = true ∨ c = '-'
  notDot : isDot name = false
  notDoubleDot : isDoubleDot name = false

namespace IsDirectoryName

variable (h : IsDirectoryName name)

include h

theorem ne_of_mem (hc : c ∈ name) {d : Char} (h₁ : d.isAlpha = false) (h₂ : d ≠ '-') : c ≠ d := by
  rintro rfl
  rcases h.chars c hc with h | h
  · simp [h] at h₁
  · exact h₂ h

theorem not_inPath (hc : c ∈ name) : inPath c = false := by
  rcases h.chars c hc with h | rfl
  · exact not_inPath_of_isAlpha h
  · decide

theorem isSlash_eq (hc : c ∈ name) (special : Bool) : isSlash special c = false := by
  simp [isSlash, h.ne_of_mem hc (d := '/') (by decide) (by decide),
    h.ne_of_mem hc (d := '\\') (by decide) (by decide)]

theorem isPathChar (hc : c ∈ name) (scheme : List Char) : isPathChar scheme c = true :=
  isPathChar_iff.mpr ⟨h.not_inPath hc, fun _ => h.ne_of_mem hc (by decide) (by decide)⟩

theorem ne_nil : name ≠ [] := by
  rintro rfl
  simpa using h.long

/-- A name is no scheme if a slash follows. -/
theorem readScheme_eq (t : List Char) : readScheme (name ++ '/' :: t) = none := by
  have hp : ∀ c ∈ name, (c.isAlphanum || c == '+' || c == '-' || c == '.') = true := fun c hc => by
    rcases h.chars c hc with h | rfl
    · simp [Char.isAlphanum, h]
    · decide
  obtain ⟨a, as, rfl⟩ := List.exists_cons_of_ne_nil h.ne_nil
  have ht : ((a :: as) ++ '/' :: t).takeWhile
      (fun c => c.isAlphanum || c == '+' || c == '-' || c == '.') = a :: as := by
    rw [List.takeWhile_append_of_pos hp]
    simp
  simp only [readScheme, ht, List.drop_left]
  rfl

end IsDirectoryName

/-- The text without white space at its end and without tabs and line breaks. -/
def cleanedEnd (s : List Char) : List Char :=
  (s.reverse.dropWhile fun c => c.toNat ≤ 0x20).reverse.filter fun c =>
    c != '\t' && c != '\n' && c != '\r'

theorem isText_of_not_inPath (h : inPath c = false) :
    decide (c.toNat ≤ 0x20) = false ∧ (c != '\t' && c != '\n' && c != '\r') = true := by
  have h := lt_of_not_inPath h
  have hn : ∀ d : Char, d.toNat ≤ 0x20 → c ≠ d := by
    rintro d hd rfl
    omega
  refine ⟨by simpa using h, ?_⟩
  simp [hn '\t' (by decide), hn '\n' (by decide), hn '\r' (by decide)]

theorem cleaned_append (hn : name ≠ []) (hc : ∀ c ∈ name, inPath c = false) (t : List Char) :
    cleaned (name ++ t) = name ++ cleanedEnd t := by
  have hf : ∀ s : List Char, (∀ c ∈ s, inPath c = false) → s ≠ [] → ∀ t : List Char,
      (s ++ t).dropWhile (fun c => decide (c.toNat ≤ 0x20)) = s ++ t := by
    intro s hs hn t
    obtain ⟨a, s, rfl⟩ := List.exists_cons_of_ne_nil hn
    rw [List.cons_append, List.dropWhile_cons_of_neg]
    simpa using (isText_of_not_inPath (hs a List.mem_cons_self)).1
  have hr : name.reverse.dropWhile (fun c => decide (c.toNat ≤ 0x20)) = name.reverse := by
    simpa using hf name.reverse (fun c h => hc c (List.mem_reverse.mp h)) (by simpa using hn) []
  simp only [cleaned, cleanedEnd, hf name hc hn, List.reverse_append, List.dropWhile_append, hr]
  have hk : name.filter (fun c => c != '\t' && c != '\n' && c != '\r') = name :=
    List.filter_eq_self.mpr fun c h => (isText_of_not_inPath (hc c h)).2
  split_ifs with he
  · simp [List.isEmpty_iff.mp he, hk]
  · simp only [List.reverse_append, List.reverse_reverse, List.filter_append, hk]

theorem cleanedEnd_eq_self (h : ∀ c ∈ s, 0x20 ≤ c.toNat) (hb : ' ' ∉ s.getLast?) :
    cleanedEnd s = s := by
  have hr : s.reverse.dropWhile (fun c => decide (c.toNat ≤ 0x20)) = s.reverse := by
    cases hs : s.reverse with
    | nil => rfl
    | cons a t =>
      have ha : s.getLast? = some a := by rw [← List.head?_reverse, hs, List.head?_cons]
      have hl := h a (List.mem_of_getLast? ha)
      have hn : a.toNat ≠ 0x20 := fun hn => hb (ha.trans (congrArg some (Char.toNat_inj.mp hn)))
      rw [List.dropWhile_cons_of_neg]
      simp only [decide_eq_true_eq]
      omega
  rw [cleanedEnd, hr, List.reverse_reverse]
  refine List.filter_eq_self.mpr fun c hc => ?_
  have hn : ∀ d : Char, d.toNat < 0x20 → (c != d) = true := fun d hd => by
    refine bne_iff_ne.mpr ?_
    rintro rfl
    exact Nat.not_le.mpr hd (h _ hc)
  simp [hn '\t' (by decide), hn '\n' (by decide), hn '\r' (by decide)]

theorem cleanedEnd_eq (h : ∀ c ∈ s, inPath c = false) : cleanedEnd s = s :=
  cleanedEnd_eq_self (fun c hc => (lt_of_not_inPath (h c hc)).le) fun hb =>
    absurd (h _ (List.mem_of_getLast? hb)) (by decide)

theorem blank_not_mem_getLast?_cleaned (s : List Char) : ' ' ∉ (cleaned s).getLast? := by
  rw [cleaned]
  cases hs : (s.dropWhile fun c : Char => decide (c.toNat ≤ 0x20)).reverse.dropWhile
      (fun c : Char => decide (c.toNat ≤ 0x20)) with
  | nil => simp
  | cons a t =>
    have ha : ¬ a.toNat ≤ 0x20 := by
      have h := List.head?_dropWhile_not (fun c : Char => decide (c.toNat ≤ 0x20))
        (s.dropWhile fun c : Char => decide (c.toNat ≤ 0x20)).reverse
      rw [hs] at h
      simpa using h
    have hk : ∀ d : Char, d.toNat ≤ 0x20 → a ≠ d := by
      rintro d hd rfl
      exact ha hd
    have hf : [a].filter (fun c => c != '\t' && c != '\n' && c != '\r') = [a] := by
      simp [hk '\t' (by decide), hk '\n' (by decide), hk '\r' (by decide)]
    simpa [hf] using hk ' ' (by decide)

theorem cutFragment_append (hn : '#' ∉ name) (t : List Char) :
    cutFragment (name ++ t) = (name ++ (cutFragment t).1, (cutFragment t).2) := by
  have hp : ∀ c ∈ name, (c != '#') = true := fun c hc => by
    simpa using ne_of_mem_of_not_mem hc hn
  rw [cutFragment, cutFragment, List.dropWhile_append_of_pos hp, List.takeWhile_append_of_pos hp]
  split <;> rfl

theorem cutQuery_append (scheme : List Char) (hn : '?' ∉ name) (t : List Char) :
    cutQuery scheme (name ++ t) = (name ++ (cutQuery scheme t).1, (cutQuery scheme t).2) := by
  have hp : ∀ c ∈ name, (c != '?') = true := fun c hc => by
    simpa using ne_of_mem_of_not_mem hc hn
  rw [cutQuery, cutQuery, List.dropWhile_append_of_pos hp, List.takeWhile_append_of_pos hp]
  split <;> rfl

/-- What a reader takes a text for that continues a path. -/
structure Continuation where
  path : List Char
  query : Option (List Char)
  fragment : Option (List Char)

def Continuation.read (scheme t : List Char) : Continuation :=
  let s := cutFragment (cleanedEnd t)
  let r := cutQuery scheme s.1
  ⟨r.1, r.2, s.2⟩

theorem Continuation.read_eq (h : ∀ c ∈ t, inPath c = false) :
    read scheme t = ⟨t, none, none⟩ := by
  have hd : ∀ mark : Char, inPath mark = true → t.dropWhile (· != mark) = [] := fun mark hm => by
    refine List.dropWhile_eq_nil_iff.mpr fun c hc => bne_iff_ne.mpr ?_
    rintro rfl
    simp [h c hc] at hm
  simp [read, cleanedEnd_eq h, cutFragment, cutQuery, hd '#' (by decide), hd '?' (by decide)]

namespace IsDirectoryName

variable (h : IsDirectoryName name)

include h

theorem isDrive_eq : isDrive name = false := by
  unfold isDrive
  split
  · simpa using h.long
  · rfl

theorem added_eq (scheme : List Char) (path : List (List Char)) : added scheme path name = name := by
  have he := encode_eq_self fun c hc => h.not_inPath (c := c) hc
  unfold added
  split
  · simpa using h.long
  · exact he

theorem splitPath_eq (scheme t : List Char) :
    splitPath scheme (name ++ '/' :: t) = name :: splitPath scheme t :=
  List.splitOnP_append_cons_of_forall_mem (fun c hc => h.isSlash_eq (c := c) hc _) '/'
    (by simp [isSlash]) t

theorem readPath_eq (scheme : List Char) (path : List (List Char)) (t : List Char) :
    readPath scheme path (name ++ '/' :: t) =
      .segments (readSegments scheme (path ++ [name]) (splitPath scheme t)) := by
  rw [readPath, h.splitPath_eq, readSegments_cons, if_neg (by simp [h.notDoubleDot]),
    if_neg (by simp [h.notDot]), h.added_eq]

theorem readRelative_eq (base : Url) (path : List (List Char)) (t : List Char)
    (query fragment : Option (List Char)) :
    readRelative base path (name ++ '/' :: t) query fragment =
      .ok ⟨base.scheme, base.authority,
        .segments (readSegments base.scheme (shorten base.scheme path ++ [name])
          (splitPath base.scheme t)), query, fragment⟩ := by
  rw [← h.readPath_eq]
  obtain ⟨a, as, rfl⟩ := List.exists_cons_of_ne_nil h.ne_nil
  obtain ⟨b, bs, rfl⟩ := List.exists_cons_of_ne_nil (l := as) (by
    rintro rfl
    simpa using h.long)
  simp [readRelative, h.isSlash_eq List.mem_cons_self]

theorem readFile_eq (hb : base.path = .segments path) (hs : isFile base.scheme = true)
    (t : List Char) (query fragment : Option (List Char)) :
    readFile (some base) (name ++ '/' :: t) query fragment =
      .ok ⟨base.scheme, base.authority,
        .segments (readSegments base.scheme (shorten base.scheme path ++ [name])
          (splitPath base.scheme t)), query, fragment⟩ := by
  obtain ⟨scheme, authority, p, q, f⟩ := base
  obtain rfl : p = .segments path := hb
  obtain rfl : scheme = "file".toList := by simpa [isFile] using hs
  have hd : isDrive ((splitPath "file".toList (name ++ '/' :: t)).headD []) = false := by
    rw [h.splitPath_eq]
    exact h.isDrive_eq
  rw [← h.readPath_eq]
  obtain ⟨a, as, rfl⟩ := List.exists_cons_of_ne_nil h.ne_nil
  rw [List.cons_append] at hd ⊢
  simp only [readFile, h.isSlash_eq List.mem_cons_self, hd]
  rfl

end IsDirectoryName

theorem join_name {text : String} (hn : IsDirectoryName name)
    (htext : text.toList = name ++ '/' :: t) :
    Url.join base text =
      match base.path with
      | .segments path => .ok ⟨base.scheme, base.authority,
        .segments (readSegments base.scheme (shorten base.scheme path ++ [name])
          (splitPath base.scheme (Continuation.read base.scheme t).path)),
        (Continuation.read base.scheme t).query, (Continuation.read base.scheme t).fragment⟩
      | .opaqueText _ => .error .baseCannotBeBase := by
  have hc : ∀ c ∈ name ++ ['/'], inPath c = false := fun c hc => by
    rcases List.mem_append.mp hc with hc | hc
    · exact hn.not_inPath hc
    · obtain rfl := List.mem_singleton.mp hc
      decide
  have hm : ∀ mark, inPath mark = true → mark ∉ name ++ ['/'] := fun mark hi hm => by
    simp [hc mark hm] at hi
  have ht : ∀ t, name ++ '/' :: t = (name ++ ['/']) ++ t := by simp
  simp only [Url.join, read, htext]
  rw [ht, cleaned_append (by simp) hc, cutFragment_append (hm '#' (by decide))]
  simp only
  rw [← ht, hn.readScheme_eq, ht]
  simp only
  rw [cutQuery_append base.scheme (hm '?' (by decide))]
  simp only [← ht]
  cases hb : base.path with
  | opaqueText => simp
  | segments path =>
    simp only
    split_ifs with hf
    · exact hn.readFile_eq hb hf _ _ _
    · exact hn.readRelative_eq _ _ _ _ _

/-! ## Two steps -/

section Twice

variable {a b : List Char} (ha : IsDirectoryName a) (hb : IsDirectoryName b)

/-- The segments of an address that was reached in two steps. -/
def segmentsBelow (scheme : List Char) (path : List (List Char)) (a s b t : List Char) :
    List (List Char) :=
  readSegments scheme
    (shorten scheme (readSegments scheme (path ++ [a])
      (splitPath scheme (Continuation.read scheme (s ++ ['/'])).path)) ++ [b])
    (splitPath scheme (Continuation.read scheme t).path)

theorem segmentsBelow_of_verbatim (a b : List Char) (hs : Verbatim scheme s)
    (ht : Verbatim scheme t) :
    segmentsBelow scheme path a s b t =
      path ++ (a :: s.splitOn '/' ++ b :: t.splitOn '/') := by
  have hs' : Verbatim scheme (s ++ ['/']) :=
    verbatim_append_slash.mpr ⟨hs, ⟨by simp, by simp; decide⟩⟩
  have hc : ∀ {s : List Char}, Verbatim scheme s → Continuation.read scheme s = ⟨s, none, none⟩ :=
    fun h => Continuation.read_eq fun c hc => (isPathChar_iff.mp (h.chars c hc)).1
  rw [segmentsBelow, hc hs', hc ht, hs'.readSegments_eq (by simp), List.splitOn_append_cons_self,
    List.splitOn_nil, ← List.append_assoc, shorten_concat rfl, ht.readSegments_eq (by simp)]
  simp

include ha hb in
theorem forall_mem_of_segmentsBelow_eq {Q : List Char → Prop} {rest : List (List Char)} (h₀ : Q [])
    (hd : ∀ c : Char, c.isAlpha = true → Q [c, ':']) (hn : ∀ n, IsDirectoryName n → Q n)
    (hs : ∀ x ∈ splitPath scheme (Continuation.read scheme (s ++ ['/'])).path,
      isDot x = false → isDoubleDot x = false → Q (encode inPath x))
    (ht : ∀ x ∈ splitPath scheme (Continuation.read scheme t).path,
      isDot x = false → isDoubleDot x = false → Q (encode inPath x))
    (he : segmentsBelow scheme path a s b t = path ++ rest) : ∀ x ∈ rest, Q x := by
  have h₁ : ∀ x ∈ (readSegments scheme (path ++ [a])
      (splitPath scheme (Continuation.read scheme (s ++ ['/'])).path)).drop path.length, Q x :=
    forall_mem_drop_readSegments h₀ hd hs (by simpa using hn a ha)
  have h₂ : ∀ x ∈ (segmentsBelow scheme path a s b t).drop path.length, Q x :=
    forall_mem_drop_readSegments h₀ hd ht
      (forall_mem_drop_concat (fun x hx => h₁ x (mem_drop_shorten hx)) (hn b hb))
  simpa [he] using h₂

include ha hb in
/-- What was read has only characters that a path keeps. So nothing of the texts was cut off. -/
theorem isPathChar_of_segmentsBelow_eq
    (he : segmentsBelow scheme path a s b t =
      path ++ (a :: s.splitOn '/' ++ b :: t.splitOn '/')) :
    (∀ c ∈ s, isPathChar scheme c = true) ∧ ∀ c ∈ t, isPathChar scheme c = true := by
  have hm : ∀ r, ∀ x ∈ splitPath scheme r, isDot x = false → isDoubleDot x = false →
      ∀ c ∈ encode inPath x, isPathChar scheme c = true :=
    fun r x hx _ _ c hc => isPathChar_of_mem_encode
      (fun hs hc => by simpa [isSlash, hs] using (Text.mem_splitOnP hx).1 _ hc) hc
  have hd : ∀ c : Char, c.isAlpha = true → ∀ x ∈ [c, ':'], isPathChar scheme x = true := by
    intro c hc x hx
    rcases List.mem_pair.mp hx with rfl | rfl
    · refine isPathChar_iff.mpr ⟨not_inPath_of_isAlpha hc, ?_⟩
      rintro - rfl
      cases hc
    · exact isPathChar_iff.mpr ⟨by decide, fun _ => by decide⟩
  have hc := forall_mem_of_segmentsBelow_eq ha hb (Q := fun x => ∀ c ∈ x, isPathChar scheme c = true)
    (by simp) hd (fun n hn c hc => hn.isPathChar hc scheme) (hm _) (hm _) he
  obtain ⟨⟨-, hs⟩, -, ht⟩ := by simpa only [List.forall_mem_append, List.forall_mem_cons] using hc
  exact ⟨forall_isPathChar hs, forall_isPathChar ht⟩

include ha hb in
theorem segmentsBelow_eq_iff (path : List (List Char)) :
    segmentsBelow scheme path a s b t = path ++ (a :: s.splitOn '/' ++ b :: t.splitOn '/') ↔
      Verbatim scheme s ∧ Verbatim scheme t := by
  refine ⟨fun he => ?_, fun h => segmentsBelow_of_verbatim a b h.1 h.2⟩
  obtain ⟨hs, ht⟩ := isPathChar_of_segmentsBelow_eq ha hb he
  have hs' : ∀ c ∈ s ++ ['/'], isPathChar scheme c = true :=
    List.forall_mem_append.mpr ⟨hs, by simpa using isPathChar_slash scheme⟩
  have hm : ∀ {r : List Char}, (∀ c ∈ r, isPathChar scheme c = true) →
      ∀ x ∈ splitPath scheme (Continuation.read scheme r).path, isDot x = false →
        isDoubleDot x = false →
          isDot (encode inPath x) = false ∧ isDoubleDot (encode inPath x) = false := by
    intro r hr x hx h₁ h₂
    have hi : ∀ c ∈ r, inPath c = false := fun c hc => (isPathChar_iff.mp (hr c hc)).1
    rw [Continuation.read_eq hi] at hx
    rw [encode_eq_self fun c hc => hi c ((Text.mem_splitOnP hx).2 hc)]
    exact ⟨h₁, h₂⟩
  have hd : ∀ c : Char, isDot [c, ':'] = false ∧ isDoubleDot [c, ':'] = false := fun c => by
    simp [isDot, isDoubleDot, dotForms]
  have hc := forall_mem_of_segmentsBelow_eq ha hb
    (Q := fun x => isDot x = false ∧ isDoubleDot x = false) (by decide) (fun c _ => hd c)
    (fun n hn => ⟨hn.notDot, hn.notDoubleDot⟩) (hm hs') (hm ht) he
  obtain ⟨⟨-, hs'⟩, -, ht'⟩ := by simpa only [List.forall_mem_append, List.forall_mem_cons] using hc
  exact ⟨⟨hs, hs'⟩, ⟨ht, ht'⟩⟩

end Twice

end ApiTypings.Url
