import Mathlib
import ApiTypings.Proofs.Url.Bodies
import ApiTypings.Url.Base

/-! # Normal forms of addresses

The text of an address that has been read is read as the address. What a reader returns is in a
normal form: no part has a sign in it at which a reader cuts it off, and what is encoded or resolved
in a part is not there any more.
-/

namespace ApiTypings.Url

variable {c : Char} {s scheme rest : List Char} {query fragment : Option (List Char)} {u : Url}

/-! ## Schemes -/

def isSchemeChar (c : Char) : Bool := c.isAlphanum || c == '+' || c == '-' || c == '.'

structure IsScheme (scheme : List Char) : Prop where
  head : ∃ c ∈ scheme.head?, c.isAlpha = true
  chars : ∀ c ∈ scheme, isSchemeChar c = true ∧ c.toLower = c

theorem lt_of_isSchemeChar (h : isSchemeChar c = true) : c.toNat < 0x7F := by
  simp only [isSchemeChar, Bool.or_eq_true, beq_iff_eq] at h
  obtain ((h | rfl) | rfl) | rfl := h
  · exact Text.toNat_lt_of_isAlphanum h
  all_goals decide

theorem isSchemeChar_toLower (h : isSchemeChar c = true) :
    (isSchemeChar c.toLower = true ∧ c.toLower.toLower = c.toLower) ∧
      c.toLower.isAlpha = c.isAlpha ∧ inPath c = false := by
  have hc : ∀ n < 0x7F, isSchemeChar (Char.ofNat n) = true →
      (isSchemeChar (Char.ofNat n).toLower = true ∧
        (Char.ofNat n).toLower.toLower = (Char.ofNat n).toLower) ∧
          (Char.ofNat n).toLower.isAlpha = (Char.ofNat n).isAlpha ∧
            inPath (Char.ofNat n) = false := by decide
  simpa using hc c.toNat (lt_of_isSchemeChar h) (by simpa using h)

theorem isScheme_of_readScheme (h : readScheme s = some (scheme, rest)) :
    IsScheme scheme ∧ ∃ name, s = name ++ ':' :: rest := by
  unfold readScheme at h
  dsimp only at h
  split at h
  · next c cs rest' hn hd =>
    split_ifs at h with ha
    obtain ⟨rfl, rfl⟩ := Prod.mk.inj (Option.some.inj h)
    have hc : ∀ a ∈ c :: cs, isSchemeChar a = true := fun a hm =>
      List.mem_takeWhile_imp (hn ▸ hm)
    obtain ⟨hc, hcs⟩ := List.forall_mem_cons.mp hc
    refine ⟨?_, c :: cs, ?_⟩
    · rw [hn]
      refine ⟨⟨c.toLower, rfl, (isSchemeChar_toLower hc).2.1.trans ha⟩,
        List.forall_mem_cons.mpr ⟨(isSchemeChar_toLower hc).1, fun a hm => ?_⟩⟩
      obtain ⟨b, hb, rfl⟩ := List.mem_map.mp hm
      exact (isSchemeChar_toLower (hcs b hb)).1
    · rw [← hd, ← hn, List.prefix_iff_eq_append.mp (List.takeWhile_prefix _)]
  · cases h

theorem IsScheme.not_inPath (h : IsScheme scheme) : ∀ c ∈ scheme ++ [':'], inPath c = false :=
  List.forall_mem_append.mpr ⟨fun c hc => (isSchemeChar_toLower (h.chars c hc).1).2.2,
    List.forall_mem_singleton.mpr (by decide)⟩

theorem IsScheme.readScheme_eq (h : IsScheme scheme) (rest : List Char) :
    readScheme (scheme ++ ':' :: rest) = some (scheme, rest) := by
  have ht : (scheme ++ ':' :: rest).takeWhile
      (fun c => c.isAlphanum || c == '+' || c == '-' || c == '.') = scheme :=
    (List.takeWhile_append_of_pos (p := isSchemeChar) fun c hc => (h.chars c hc).1).trans
      (by simp [isSchemeChar])
  have hm : scheme.map Char.toLower = scheme :=
    (List.map_congr_left fun c hc => (h.chars c hc).2).trans scheme.map_id'
  obtain ⟨c, hc, ha⟩ := h.head
  obtain ⟨t, rfl⟩ := List.head?_eq_some_iff.mp hc
  simp only [readScheme, ht, List.drop_left, ha, if_true, hm]

/-! ## Query and fragment -/

theorem cutFragment_spec (s : List Char) :
    '#' ∉ (cutFragment s).1 ∧ ((cutFragment s).2 = none → (cutFragment s).1 = s) ∧
      ∀ f ∈ (cutFragment s).2, ∀ c ∈ f, inFragment c = false := by
  unfold cutFragment
  split
  · refine ⟨fun hm => by simpa using List.mem_takeWhile_imp hm, by simp, ?_⟩
    rintro _ ⟨⟩ c hc
    exact not_of_mem_encode keepsBytes_inFragment hc
  · next hd =>
    refine ⟨fun hm => ?_, fun _ => rfl, by simp⟩
    simpa using List.dropWhile_eq_nil_iff.mp hd _ hm

/-- The set of characters that are encoded in a query. -/
def inQueryOf (scheme : List Char) : Char → Bool :=
  if isSpecial scheme then inSpecialQuery else inQuery

theorem keepsBytes_inQueryOf (scheme : List Char) : KeepsBytes (inQueryOf scheme) := by
  unfold inQueryOf
  split_ifs <;> decide

theorem cutQuery_spec (scheme s : List Char) :
    ('?' ∉ (cutQuery scheme s).1 ∧ (cutQuery scheme s).1 ⊆ s) ∧
      ((cutQuery scheme s).2 = none → (cutQuery scheme s).1 = s) ∧
        ∀ q ∈ (cutQuery scheme s).2, ∀ c ∈ q, inQueryOf scheme c = false := by
  unfold cutQuery
  split
  · refine ⟨⟨fun hm => by simpa using List.mem_takeWhile_imp hm, List.takeWhile_subset _⟩,
      by simp, ?_⟩
    rintro _ ⟨⟩ c hc
    exact not_of_mem_encode (keepsBytes_inQueryOf scheme) hc
  · next hd =>
    refine ⟨⟨fun hm => ?_, List.Subset.refl _⟩, fun _ => rfl, by simp⟩
    simpa using List.dropWhile_eq_nil_iff.mp hd _ hm

theorem cutFragment_marked (h : ∀ f ∈ fragment, ∀ c ∈ f, inFragment c = false) :
    cutFragment (marked '#' fragment) = ([], fragment) := by
  cases fragment with
  | none => rfl
  | some f => simp [marked, cutFragment, encode_eq_self (h f rfl)]

theorem cutQuery_marked (h : ∀ q ∈ query, ∀ c ∈ q, inQueryOf scheme c = false) :
    cutQuery scheme (marked '?' query) = ([], query) := by
  cases query with
  | none => rfl
  | some q =>
    have he : encode (if isSpecial scheme then inSpecialQuery else inQuery) q = q :=
      encode_eq_self (h q rfl)
    simp [marked, cutQuery, he]

/-! ## Addresses -/

structure IsNormal (u : Url) : Prop where
  scheme : IsScheme u.scheme
  body : IsBody (u.query = none ∧ u.fragment = none) u.scheme u.authority u.path
  query : ∀ q ∈ u.query, ∀ c ∈ q, inQueryOf u.scheme c = false
  fragment : ∀ f ∈ u.fragment, ∀ c ∈ f, inFragment c = false

theorem isNormal_of_parse {text : String} (h : parse text = .ok u) : IsNormal u := by
  have hb := blank_not_mem_getLast?_cleaned text.toList
  obtain ⟨hs, hsn, hf⟩ := cutFragment_spec (cleaned text.toList)
  unfold parse read at h
  dsimp only at h
  split at h
  · next scheme rest hr =>
    obtain ⟨hi, name, he⟩ := isScheme_of_readScheme hr
    obtain ⟨⟨hq, hsub⟩, hqn, hqe⟩ := cutQuery_spec scheme rest
    have hc : ∀ c ∈ (cutQuery scheme rest).1, c ≠ '#' ∧ c ≠ '?' := fun c hc =>
      ⟨ne_of_mem_of_not_mem (hsub hc) fun hm => hs (by simp [he, hm]), ne_of_mem_of_not_mem hc hq⟩
    -- Without query and fragment the text ends where the cleaned text ends.
    have hl : (cutQuery scheme rest).2 = none ∧ (cutFragment (cleaned text.toList)).2 = none →
        ' ' ∉ (cutQuery scheme rest).1.getLast? := by
      rintro ⟨hn, hn'⟩ hm
      rw [hqn hn] at hm
      rw [hsn hn'] at he
      obtain ⟨init, rfl⟩ := List.getLast?_eq_some_iff.mp hm
      exact hb (List.getLast?_eq_some_iff.mpr ⟨name ++ ':' :: init, by simp [he]⟩)
    obtain ⟨a, path, rfl, hbody⟩ := isReadAfter_of_readAfterScheme hc hl h
    exact ⟨hi, hbody, hqe, hf⟩
  · cases h

theorem toList_text (u : Url) : u.text.toList =
    (u.scheme ++ [':']) ++ (u.body ++ (marked '?' u.query ++ marked '#' u.fragment)) := by
  simp [text, body]

namespace IsNormal

variable (h : IsNormal u)

include h

theorem query_chars : ∀ c ∈ marked '?' u.query, 0x20 < c.toNat ∧ c ≠ '#' := by
  intro c hc
  cases hq : u.query with
  | none => simp [hq, marked] at hc
  | some q =>
    rw [hq, marked] at hc
    obtain rfl | hc := List.mem_cons.mp hc
    · decide
    have hi : inQuery c = false := by
      have hi := h.query q hq c hc
      unfold inQueryOf at hi
      split_ifs at hi
      · exact (Bool.or_eq_false_iff.mp hi).1
      · exact hi
    simp only [inQuery, Bool.or_eq_false_iff, beq_eq_false_iff_ne] at hi
    exact ⟨lt_of_not_isControl (by tauto) (by tauto), by tauto⟩

theorem fragment_chars : ∀ c ∈ marked '#' u.fragment, 0x20 < c.toNat := by
  intro c hc
  cases hf : u.fragment with
  | none => simp [hf, marked] at hc
  | some f =>
    rw [hf, marked] at hc
    obtain rfl | hc := List.mem_cons.mp hc
    · decide
    have hi := h.fragment f hf c hc
    simp only [inFragment, Bool.or_eq_false_iff, beq_eq_false_iff_ne] at hi
    exact lt_of_not_isControl (by tauto) (by tauto)

theorem cleaned_text : cleaned u.text.toList = u.text.toList := by
  obtain ⟨hb, he⟩ := body_chars h.body
  have hm : ∀ c ∈ marked '?' u.query ++ marked '#' u.fragment, 0x20 < c.toNat :=
    List.forall_mem_append.mpr ⟨fun c hc => (h.query_chars c hc).1, h.fragment_chars⟩
  rw [toList_text, cleaned_append (by simp) h.scheme.not_inPath, cleanedEnd_eq_self]
  · exact List.forall_mem_append.mpr ⟨fun c hc => (hb c hc).1, fun c hc => (hm c hc).le⟩
  · intro hl
    by_cases hn : marked '?' u.query ++ marked '#' u.fragment = []
    · rw [hn, List.append_nil] at hl
      refine he ?_ hl
      cases hq : u.query <;> cases hf : u.fragment <;> simp_all [marked]
    · rw [List.getLast?_append_of_ne_nil _ hn] at hl
      exact absurd (hm _ (List.mem_of_getLast? hl)) (by decide)

theorem parse_text : parse u.text = .ok u := by
  have hb := (body_chars h.body).1
  have hh : '#' ∉ u.scheme ++ [':'] ++ (u.body ++ marked '?' u.query) := by
    intro hm
    obtain hm | hm := List.mem_append.mp hm
    · exact absurd (h.scheme.not_inPath _ hm) (by decide)
    obtain hm | hm := List.mem_append.mp hm
    · exact (hb _ hm).2.1 rfl
    · exact (h.query_chars _ hm).2 rfl
  have hf : cutFragment u.text.toList =
      (u.scheme ++ [':'] ++ (u.body ++ marked '?' u.query), u.fragment) := by
    rw [toList_text, ← List.append_assoc u.body, ← List.append_assoc (u.scheme ++ [':']),
      cutFragment_append hh, cutFragment_marked h.fragment, List.append_nil]
  have hq : cutQuery u.scheme (u.body ++ marked '?' u.query) = (u.body, u.query) := by
    rw [cutQuery_append u.scheme fun hm => (hb _ hm).2.2 rfl, cutQuery_marked h.query,
      List.append_nil]
  unfold parse read
  rw [h.cleaned_text, hf]
  simp only [List.append_assoc, List.singleton_append, h.scheme.readScheme_eq, hq]
  exact readAfterScheme_body h.body

end IsNormal

theorem parse_text_of_parse {text : String} (h : parse text = .ok u) : parse u.text = .ok u :=
  (isNormal_of_parse h).parse_text

end ApiTypings.Url

namespace ApiTypings.BaseUrl

theorem map_url_parse? (text : String) :
    (parse? text).map BaseUrl.url = (Url.parse text).toOption := by
  cases h : Url.parse text with
  | error => simp [parse?, h, Except.toOption]
  | ok u => simp [parse?, h, Except.toOption, ofUrl?, Url.parse_text_of_parse h]

end ApiTypings.BaseUrl
