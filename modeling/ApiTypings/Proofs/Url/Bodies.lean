import Mathlib
import ApiTypings.Proofs.Url.Authorities
import ApiTypings.Proofs.Url.Paths

/-! # Authority and path

What stands between the scheme and the query of an address is of one of four forms: that of a file,
a host and a path below it, a path without a host, or a text of its own. A reader returns one of
these forms, and reads the text of each as what it is.
-/

namespace ApiTypings.Url

variable {c : Char} {s host scheme : List Char} {query fragment : Option (List Char)}
  {a : Authority} {u : Url} {final : Prop} {ss : List (List Char)}

/-- Authority and path of an address that has been read. A text of its own has no blank at its end
if that is the end of the whole text. -/
inductive IsBody (final : Prop) (scheme : List Char) : Option Authority → UrlPath → Prop
  | file {host : List Char} {ss : List (List Char)} (hs : isFile scheme = true)
      (hh : host = [] ∨ IsHost true host) (hl : host ≠ "localhost".toList)
      (hp : IsPath scheme ss) (hn : ss ≠ []) :
      IsBody final scheme (some { localFile with host }) (.segments ss)
  | authority {a : Authority} {ss : List (List Char)} (hs : isFile scheme = false)
      (ha : IsAuthority scheme a) (hp : IsPath scheme ss)
      (hn : isSpecial scheme = true → ss ≠ []) : IsBody final scheme (some a) (.segments ss)
  | root {ss : List (List Char)} (hs : isSpecial scheme = false) (hp : IsPath scheme ss)
      (hn : ss ≠ []) : IsBody final scheme none (.segments ss)
  | opaqueText {s : List Char} (hs : isSpecial scheme = false)
      (hc : ∀ c ∈ s, isControl c = false ∧ c ≠ '#' ∧ c ≠ '?') (hd : s.head? ≠ some '/')
      (he : final → ' ' ∉ s.getLast?) : IsBody final scheme none (.opaqueText s)

/-! ## Forms of addresses -/

theorem not_isFile (h : isSpecial scheme = false) : isFile scheme = false := by
  by_contra hf
  obtain rfl : scheme = "file".toList := by simpa [isFile] using hf
  exact absurd h (by decide)

section Forms

variable (query fragment)

theorem readAfterScheme_file (s : List Char) :
    readAfterScheme none "file".toList s query fragment = readFile none s query fragment := by
  unfold readAfterScheme
  rw [if_pos (by decide), Option.filter_none]

theorem readAfterScheme_special (hf : isFile scheme = false) (hs : isSpecial scheme = true)
    (s : List Char) : readAfterScheme none scheme s query fragment =
      readHostAndPath scheme (s.dropWhile (isSlash true)) query fragment := by
  unfold readAfterScheme
  rw [if_neg (by simp [hf]), if_pos hs]
  exact ite_self _

theorem readAfterScheme_slashes (hs : isSpecial scheme = false) (s : List Char) :
    readAfterScheme none scheme ('/' :: '/' :: s) query fragment =
      readHostAndPath scheme s query fragment := by
  unfold readAfterScheme
  rw [if_neg (by simp [not_isFile hs]), if_neg (by simp [hs])]
  rfl

theorem readAfterScheme_slash (hs : isSpecial scheme = false) (hd : s.head? ≠ some '/') :
    readAfterScheme none scheme ('/' :: s) query fragment =
      .ok ⟨scheme, none, readPath scheme [] s, query, fragment⟩ := by
  unfold readAfterScheme
  rw [if_neg (by simp [not_isFile hs]), if_neg (by simp [hs])]
  split
  · next h =>
    cases h
    exact absurd rfl hd
  · next h =>
    cases h
    rfl
  · next h => exact absurd rfl (h s)

theorem readAfterScheme_opaqueText (hs : isSpecial scheme = false) (hd : s.head? ≠ some '/') :
    readAfterScheme none scheme s query fragment =
      .ok ⟨scheme, none, .opaqueText (encode isControl s), query, fragment⟩ := by
  unfold readAfterScheme
  rw [if_neg (by simp [not_isFile hs]), if_neg (by simp [hs])]
  split
  · exact absurd rfl hd
  · exact absurd rfl hd
  · rfl

end Forms

/-! ## Reading -/

/-- An address whose parts behind the scheme have been read. -/
def IsReadAfter (final : Prop) (scheme : List Char) (query fragment : Option (List Char))
    (u : Url) : Prop :=
  ∃ a path, u = ⟨scheme, a, path, query, fragment⟩ ∧ IsBody final scheme a path

theorem isPath_singleton_nil (scheme : List Char) : IsPath scheme [[]] :=
  ⟨List.forall_mem_singleton.mpr isSegment_nil, by rintro _ ⟨⟩; rfl⟩

theorem isReadAfter_of_readHostAndPath (hs : isFile scheme = false)
    (h : readHostAndPath scheme s query fragment = .ok u) :
    IsReadAfter final scheme query fragment u := by
  unfold readHostAndPath at h
  cases ha : readAuthority scheme (s.takeWhile fun c => !isSlash (isSpecial scheme) c) with
  | error => simp [ha, bind, Except.bind] at h
  | ok a =>
    have hi := isAuthority_of_readAuthority ha
    simp only [ha, bind, Except.bind, pure, Except.pure, Except.ok.injEq] at h
    subst h
    refine ⟨some a, _, rfl, ?_⟩
    split
    · obtain ⟨t, ts, ht, hp⟩ := exists_readPath scheme _
      rw [ht]
      exact .authority hs hi hp fun _ => by simp
    · split_ifs with hsp
      · exact .authority hs hi (isPath_singleton_nil scheme) fun _ => by simp
      · exact .authority hs hi isPath_nil fun h => absurd h hsp

theorem isReadAfter_readPath (hs : isFile scheme = true) (hh : host = [] ∨ IsHost true host)
    (hl : host ≠ "localhost".toList) (s : List Char) (query fragment : Option (List Char)) :
    IsReadAfter final scheme query fragment
      ⟨scheme, some { localFile with host }, readPath scheme [] s, query, fragment⟩ := by
  obtain ⟨t, ts, ht, hp⟩ := exists_readPath scheme s
  rw [ht]
  exact ⟨_, _, rfl, .file hs hh hl hp (by simp)⟩

/-- The host of a file is read from what stands between two slashes and the next. -/
def readFileHost (host : List Char) : Except UrlError (List Char) :=
  if host = [] then .ok [] else hostText true host

theorem readFile_slashes {x y : Char} (hx : isSlash true x = true) (hy : isSlash true y = true)
    (s : List Char) : readFile none (x :: y :: s) query fragment =
      if isDrive (s.takeWhile fun c => !isSlash true c) then
        .ok ⟨"file".toList, some localFile, readPath "file".toList [] s, query, fragment⟩
      else
        (readFileHost (s.takeWhile fun c => !isSlash true c)).map fun host =>
          ⟨"file".toList, some { localFile with
            host := if host = "localhost".toList then [] else host },
            readPath "file".toList [] ((s.dropWhile fun c => !isSlash true c).drop 1),
            query, fragment⟩ := by
  unfold readFile readFileHost
  simp only [hx, hy, if_true]
  split_ifs with hd hh hn hn
  · rfl
  · rfl
  · exact absurd (List.isEmpty_iff.mp hh) hn
  · exact absurd (List.isEmpty_iff.mpr hn) hh
  · cases hostText true (s.takeWhile fun c => !isSlash true c) <;> rfl

theorem isReadAfter_of_readFile (h : readFile none s query fragment = .ok u) :
    IsReadAfter final "file".toList query fragment u := by
  have hf : isFile "file".toList = true := by decide
  have hl : ([] : List Char) ≠ "localhost".toList := by decide
  have hr : ∀ s, IsReadAfter final "file".toList query fragment
      ⟨"file".toList, some localFile, readPath "file".toList [] s, query, fragment⟩ := fun s =>
    isReadAfter_readPath hf (.inl rfl) hl s query fragment
  rcases s with _ | ⟨x, rest⟩
  · cases h
    exact hr []
  by_cases hx : isSlash true x = true
  swap
  · unfold readFile at h
    simp only [hx, if_false, Bool.false_eq_true] at h
    cases h
    exact hr _
  rcases rest with _ | ⟨y, rest⟩
  · unfold readFile at h
    simp only [hx, if_true] at h
    cases h
    exact hr []
  by_cases hy : isSlash true y = true
  swap
  · unfold readFile at h
    simp only [hx, hy, if_true, if_false, Bool.false_eq_true] at h
    cases h
    exact hr _
  rw [readFile_slashes hx hy] at h
  split_ifs at h
  · cases h
    exact hr rest
  cases hh : readFileHost (rest.takeWhile fun c => !isSlash true c) with
  | error => simp [hh, Except.map] at h
  | ok host =>
    rw [hh] at h
    cases h
    refine isReadAfter_readPath hf ?_ ?_ _ query fragment
    · split_ifs with hlo
      · exact .inl rfl
      · unfold readFileHost at hh
        split_ifs at hh
        · exact .inl (Except.ok.inj hh).symm
        · exact .inr (isHost_of_hostText hh)
    · split_ifs with hlo
      · exact hl
      · exact hlo

theorem isReadAfter_opaqueText (hsp : isSpecial scheme = false) (hs : ∀ c ∈ s, c ≠ '#' ∧ c ≠ '?')
    (hd : s.head? ≠ some '/') (he : final → ' ' ∉ s.getLast?) :
    IsReadAfter final scheme query fragment
      ⟨scheme, none, .opaqueText (encode isControl s), query, fragment⟩ := by
  have hx : ∀ m < 16, Text.hexDigit m ≠ '#' ∧ Text.hexDigit m ≠ '?' ∧ Text.hexDigit m ≠ ' ' := by
    decide
  refine ⟨_, _, rfl, .opaqueText hsp (fun c hc => ⟨not_of_mem_encode keepsBytes_isControl hc, ?_⟩)
    (fun hm => ?_) fun hf hm => ?_⟩
  · obtain ⟨hc, -⟩ | rfl | ⟨m, hm, rfl⟩ := mem_encode hc
    · exact hs c hc
    · decide
    · exact ⟨(hx m hm).1, (hx m hm).2.1⟩
  · obtain hm | hm := head?_encode hm
    · exact hd hm
    · exact absurd hm (by decide)
  · obtain hm | hm | ⟨m, hlt, hm⟩ := getLast?_encode hm
    · exact he hf hm
    · exact absurd hm (by decide)
    · exact (hx m hlt).2.2 hm.symm

theorem isReadAfter_of_readAfterScheme (hs : ∀ c ∈ s, c ≠ '#' ∧ c ≠ '?')
    (he : final → ' ' ∉ s.getLast?)
    (h : readAfterScheme none scheme s query fragment = .ok u) :
    IsReadAfter final scheme query fragment u := by
  by_cases hsp : isSpecial scheme = true
  · by_cases hf : isFile scheme = true
    · obtain rfl : scheme = "file".toList := by simpa [isFile] using hf
      exact isReadAfter_of_readFile (readAfterScheme_file query fragment s ▸ h)
    · have hf : isFile scheme = false := by simpa using hf
      exact isReadAfter_of_readHostAndPath hf (readAfterScheme_special query fragment hf hsp s ▸ h)
  have hsp : isSpecial scheme = false := by simpa using hsp
  by_cases hd : s.head? = some '/'
  swap
  · rw [readAfterScheme_opaqueText query fragment hsp hd] at h
    cases h
    exact isReadAfter_opaqueText hsp hs hd he
  obtain ⟨t, rfl⟩ := List.head?_eq_some_iff.mp hd
  by_cases ht : t.head? = some '/'
  · obtain ⟨r, rfl⟩ := List.head?_eq_some_iff.mp ht
    exact isReadAfter_of_readHostAndPath (not_isFile hsp)
      (readAfterScheme_slashes query fragment hsp r ▸ h)
  · rw [readAfterScheme_slash query fragment hsp ht] at h
    cases h
    obtain ⟨r, rs, hr, hp⟩ := exists_readPath scheme t
    rw [hr]
    exact ⟨_, _, rfl, .root hsp hp (by simp)⟩

/-! ## Reading again -/

def body (u : Url) : List Char := (u.authority.map authorityText).getD [] ++ u.pathText

theorem isSlash_of_not_isSlash (h : isSlash true c = false) (special : Bool) :
    isSlash special c = false := by
  simp only [isSlash, Bool.true_and, Bool.or_eq_false_iff] at h
  simp [isSlash, h]

/-- A path begins where the text before it ends. -/
theorem span_chars (h : ∀ c ∈ s, isSlash true c = false) (special : Bool) (ss : List (List Char)) :
    (s ++ UrlPath.chars (.segments ss)).takeWhile (fun c => !isSlash special c) = s ∧
      (s ++ UrlPath.chars (.segments ss)).dropWhile (fun c => !isSlash special c) =
        UrlPath.chars (.segments ss) := by
  have hs : ∀ c ∈ s, (!isSlash special c) = true := fun c hc => by
    simp [isSlash_of_not_isSlash (h c hc)]
  rw [List.takeWhile_append_of_pos hs, List.dropWhile_append_of_pos hs]
  cases ss <;> simp [isSlash]

theorem readHostAndPath_eq (ha : IsAuthority scheme a) (hp : IsPath scheme ss)
    (hn : isSpecial scheme = true → ss ≠ []) (query fragment : Option (List Char)) :
    readHostAndPath scheme
        (credentialsText a ++ (a.host ++ portText a.port) ++ UrlPath.chars (.segments ss))
        query fragment =
      .ok ⟨scheme, some a, .segments ss, query, fragment⟩ := by
  obtain ⟨ht, hd⟩ := span_chars (fun c hc => (ha.not_isCut hc).2) (isSpecial scheme) ss
  rw [readHostAndPath, ht, hd, ha.readAuthority_eq]
  cases ss with
  | nil =>
    have hs : isSpecial scheme = false := by
      by_contra h
      exact hn (by simpa using h) rfl
    simp [bind, Except.bind, pure, Except.pure, hs]
  | cons t ts => simp [bind, Except.bind, pure, Except.pure, hp.readPath_eq]

theorem readFile_eq (hh : host = [] ∨ IsHost true host) (hl : host ≠ "localhost".toList)
    (hp : IsPath "file".toList ss) (hn : ss ≠ []) (query fragment : Option (List Char)) :
    readFile none ('/' :: '/' :: (host ++ UrlPath.chars (.segments ss))) query fragment =
      .ok ⟨"file".toList, some { localFile with host }, .segments ss, query, fragment⟩ := by
  have hc : ∀ c ∈ host, isSlash true c = false := fun c hc => by
    obtain rfl | hh := hh
    · cases hc
    · exact (not_isCut_of_staysInHost (hh.chars c hc)).2
  have hd : isDrive host = false := by
    obtain rfl | hh := hh
    · rfl
    · exact hh.isDrive_eq
  have hr : readFileHost host = .ok host := by
    unfold readFileHost
    split_ifs with he
    · rw [he]
    · exact (hh.resolve_left he).read
  obtain ⟨t, ts, rfl⟩ := List.exists_cons_of_ne_nil hn
  obtain ⟨ht, hw⟩ := span_chars hc true (t :: ts)
  rw [readFile_slashes (by decide) (by decide), ht, hw, hd, hr, if_neg (by simp)]
  rw [chars_cons, List.drop_succ_cons, List.drop_zero, hp.readPath_eq]
  simp only [Except.map, if_neg hl]

/-- Without a host a dot stands before two slashes, and leads nowhere. -/
theorem readAfterScheme_root (hs : isSpecial scheme = false) (hp : IsPath scheme ss) (hn : ss ≠ [])
    (query fragment : Option (List Char)) :
    readAfterScheme none scheme (pathText ⟨scheme, none, .segments ss, query, fragment⟩)
      query fragment = .ok ⟨scheme, none, .segments ss, query, fragment⟩ := by
  obtain ⟨t, ts, rfl⟩ := List.exists_cons_of_ne_nil hn
  -- A second slash would begin a host, so the text depends on the first segment being empty.
  cases t with
  | cons c t =>
    have hc := ((hp.segments _ List.mem_cons_self).chars c List.mem_cons_self).1
    have hr := readAfterScheme_slash query fragment (s := c :: t ++ UrlPath.chars (.segments ts))
      hs (by simpa using hc)
    rw [hp.readPath_eq] at hr
    exact hr
  | nil =>
    cases ts with
    | nil =>
      have hr := readAfterScheme_slash query fragment (s := [] ++ UrlPath.chars (.segments []))
        hs (by simp)
      rw [hp.readPath_eq] at hr
      exact hr
    | cons t ts =>
      have hr := readAfterScheme_slash query fragment
        (s := '.' :: UrlPath.chars (.segments ([] :: t :: ts))) hs (by simp)
      rw [chars_cons, readPath_dot, hp.readPath_eq] at hr
      exact hr

theorem readAfterScheme_authority (hf : isFile scheme = false) (ha : IsAuthority scheme a)
    (hp : IsPath scheme ss) (hn : isSpecial scheme = true → ss ≠ [])
    (query fragment : Option (List Char)) :
    readAfterScheme none scheme (authorityText a ++ UrlPath.chars (.segments ss)) query fragment =
      .ok ⟨scheme, some a, .segments ss, query, fragment⟩ := by
  have hr := readHostAndPath_eq ha hp hn query fragment
  rw [authorityText_eq]
  by_cases hs : isSpecial scheme = true
  · -- All slashes at the start are skipped, so the authority must not begin with one.
    have hne : a.host ≠ [] := fun he => by simp [(ha.empty he).1] at hs
    obtain ⟨c, t, ht⟩ := List.exists_cons_of_ne_nil
      (l := credentialsText a ++ (a.host ++ portText a.port)) (by simp [hne])
    have hc : isSlash true c = false := (ha.not_isCut (ht ▸ List.mem_cons_self)).2
    have hw : ('/' :: '/' :: (c :: t) ++ UrlPath.chars (.segments ss)).dropWhile (isSlash true) =
        c :: t ++ UrlPath.chars (.segments ss) := by
      simp [hc, show isSlash true '/' = true from rfl]
    rw [readAfterScheme_special query fragment hf hs, ← hr, ht, hw]
  · rw [← hr]
    exact readAfterScheme_slashes query fragment (by simpa using hs) _

theorem readAfterScheme_body (h : IsBody final u.scheme u.authority u.path) :
    readAfterScheme none u.scheme u.body u.query u.fragment = .ok u := by
  obtain ⟨scheme, authority, path, query, fragment⟩ := u
  cases h with
  | file hs hh hl hp hn =>
    obtain rfl : scheme = "file".toList := by simpa [isFile] using hs
    rw [← readFile_eq hh hl hp hn query fragment, readAfterScheme_file]
    simp [body, authorityText, credentialsText, localFile, pathText]
  | authority hs ha hp hn => exact readAfterScheme_authority hs ha hp hn query fragment
  | root hs hp hn => exact readAfterScheme_root hs hp hn query fragment
  | opaqueText hs hc hd he =>
    have hr := readAfterScheme_opaqueText query fragment hs hd
    rw [encode_eq_self fun c h => (hc c h).1] at hr
    exact hr

theorem not_isCut_of_mem_pathText (hp : IsPath u.scheme ss) (h : u.path = .segments ss)
    (hc : c ∈ u.pathText) : isCut c = false := by
  have hm : c ∈ UrlPath.chars (.segments ss) ∨ c = '/' ∨ c = '.' := by
    unfold pathText at hc
    split at hc
    · next hss =>
      rw [h] at hss
      obtain rfl := UrlPath.segments.inj hss
      exact (List.mem_append.mp hc).symm.imp_right fun hc => by simpa using hc
    · exact .inl (h ▸ hc)
  obtain hm | rfl | rfl := hm
  · obtain ⟨t, ht, hc⟩ := List.mem_flatMap.mp hm
    obtain rfl | hc := List.mem_cons.mp hc
    · decide
    · exact not_isCut_of_not_inPath (isPathChar_iff.mp ((hp.segments t ht).chars c hc).2).1
  · decide
  · decide

theorem not_isCut_of_mem_authorityText (hc : c ∈ authorityText a)
    (ha : ∀ c ∈ credentialsText a ++ (a.host ++ portText a.port), isCut c = false) :
    isCut c = false := by
  rw [authorityText_eq] at hc
  obtain rfl | hc := List.mem_cons.mp hc
  · decide
  obtain rfl | hc := List.mem_cons.mp hc
  · decide
  · exact ha c hc

/-- No sign in the text ends it, and it has no blank at its end if that is the end of all. -/
theorem body_chars (h : IsBody final u.scheme u.authority u.path) :
    (∀ c ∈ u.body, 0x20 ≤ c.toNat ∧ c ≠ '#' ∧ c ≠ '?') ∧ (final → ' ' ∉ u.body.getLast?) := by
  -- Only a text of its own can have blanks.
  have hk : (∀ c ∈ u.body, isCut c = false) →
      (∀ c ∈ u.body, 0x20 ≤ c.toNat ∧ c ≠ '#' ∧ c ≠ '?') ∧ (final → ' ' ∉ u.body.getLast?) := by
    refine fun hk => ⟨fun c hc => ?_, fun _ hb => ?_⟩
    · have hk := hk c hc
      simp only [isCut, Bool.or_eq_false_iff, decide_eq_false_iff_not, beq_eq_false_iff_ne] at hk
      exact ⟨by omega, hk.1.2, hk.2⟩
    · exact absurd (hk _ (List.mem_of_getLast? hb)) (by decide)
  obtain ⟨scheme, authority, path, query, fragment⟩ := u
  cases h with
  | file hs hh hl hp hn =>
    refine hk (List.forall_mem_append.mpr ⟨fun c hc => not_isCut_of_mem_authorityText hc ?_,
      fun c => not_isCut_of_mem_pathText hp rfl⟩)
    intro c hc
    simp only [localFile, credentialsText, portText, List.isEmpty_nil, Bool.and_self, if_true,
      List.nil_append, List.append_nil] at hc
    obtain rfl | hh := hh
    · cases hc
    · exact (not_isCut_of_staysInHost (hh.chars c hc)).1
  | authority hs ha hp hn =>
    exact hk (List.forall_mem_append.mpr
      ⟨fun c hc => not_isCut_of_mem_authorityText hc fun c hc => (ha.not_isCut hc).1,
        fun c => not_isCut_of_mem_pathText hp rfl⟩)
  | root hs hp hn => exact hk fun c => not_isCut_of_mem_pathText hp rfl
  | opaqueText hs hc hd he =>
    refine ⟨fun c hm => ⟨?_, (hc c hm).2⟩, he⟩
    have hi := (hc c hm).1
    simp only [isControl, Bool.or_eq_false_iff, decide_eq_false_iff_not] at hi
    omega

end ApiTypings.Url
