import Mathlib
import ApiTypings.Proofs.Source.Confinement
import ApiTypings.Proofs.Url.Joining
import ApiTypings.Source.Share

/-! # Addresses of documents

The document of an endpoint is meant to have its address below those of the share: the address of the
share, followed by the name of the directory and by the id. It has that address exactly if neither
the id of the share nor the id of the endpoint says anything else to a reader of addresses.
-/

namespace ApiTypings

namespace Url

variable {u : Url} {path : List (List Char)} {s : List Char}

/-- The address with a text after the last slash of its path, and nothing after that. -/
def extended (u : Url) (tail : String) : Url :=
  match u.path with
  | .segments ss =>
    { u with
      path := .segments (ss.dropLast ++ tail.toList.splitOn '/')
      query := none
      fragment := none }
  | .opaqueText _ => u

theorem flatMap_splitOn (s : List Char) : (s.splitOn '/').flatMap ('/' :: ·) = '/' :: s := by
  have hc : ∀ xs : List (List Char), xs ≠ [] →
      xs.flatMap ('/' :: ·) = '/' :: ['/'].intercalate xs := by
    intro xs hx
    induction xs with
    | nil => exact absurd rfl hx
    | cons x xs ih =>
      cases xs with
      | nil => simp
      | cons y ys =>
        rw [List.flatMap_cons, ih (by simp), List.intercalate_cons_cons]
        simp
  rw [hc _ (List.splitOn_ne_nil '/' s), List.intercalate_splitOn]

theorem chars_segments_append (xs ys : List (List Char)) :
    UrlPath.chars (.segments (xs ++ ys)) =
      UrlPath.chars (.segments xs) ++ UrlPath.chars (.segments ys) :=
  List.flatMap_append

theorem exists_pathText_eq (u : Url) (path : List (List Char)) :
    ∃ p, ∀ a as, a ≠ [] ∨ as = [] → ({ u with path := .segments (path ++ a :: as) } : Url).pathText =
      p ++ UrlPath.chars (.segments (path ++ a :: as)) := by
  obtain ⟨scheme, authority | authority, _, _, _⟩ := u
  · rcases path with _ | ⟨x, xs⟩
    · refine ⟨[], fun a as h => ?_⟩
      rcases h with h | rfl
      · cases a <;> simp_all [pathText]
      · simp [pathText]
    · rcases x with _ | ⟨c, x⟩
      · refine ⟨"/.".toList, fun a as h => ?_⟩
        cases xs <;> simp [pathText]
      · exact ⟨[], fun a as h => by simp [pathText]⟩
  · exact ⟨[], fun a as h => by simp [pathText]⟩

theorem text_extended (hp : u.path = .segments (path ++ [[]])) (hq : u.query = none)
    (hf : u.fragment = none) {tail : String} {name t : List Char}
    (ht : tail.toList = name ++ '/' :: t) (hn : IsDirectoryName name) :
    (u.extended tail).text = u.text ++ tail := by
  have hs : tail.toList.splitOn '/' = name :: t.splitOn '/' := by
    rw [ht, List.splitOn_append_cons_self_of_not_mem]
    exact fun hm => hn.ne_of_mem hm (by decide) (by decide) rfl
  have hc : UrlPath.chars (.segments (name :: t.splitOn '/')) = '/' :: tail.toList := by
    rw [← hs]
    exact flatMap_splitOn _
  obtain ⟨p, h⟩ := exists_pathText_eq u path
  have he := h name (t.splitOn '/') (.inl hn.ne_nil)
  have hu := h [] [] (.inr rfl)
  rw [show ({ u with path := .segments (path ++ [[]]) } : Url) = u by rw [← hp]] at hu
  rw [chars_segments_append] at he hu
  refine String.toList_inj.mp ?_
  simp only [text, extended, hp, List.dropLast_concat, hs, String.toList_append,
    String.toList_ofList, hq, hf, marked, List.append_nil] at he ⊢
  rw [he, hu, hc]
  simp [UrlPath.chars]

end Url

namespace Share

open Url

variable {base : Url} {share id : String} {s : Share} {n : Network} {ss path : List (List Char)}

theorem isDirectoryName_api : IsDirectoryName "api".toList :=
  ⟨by decide, by simp, by decide, by decide⟩

theorem isDirectoryName_httpApis : IsDirectoryName "http-apis".toList :=
  ⟨by decide, by simp, by decide, by decide⟩

/-! ## The meant addresses -/

def documentsUrl (base : Url) (share : String) : Url :=
  (withSlash base).extended ("api/v1/shared-docs/" ++ Text.trim share ++ "/")

def endpointUrl (base : Url) (share id : String) : Url :=
  (documentsUrl base share).extended (endpointTail id)

theorem exists_withSlash_eq (hb : base.path = .segments ss) :
    ∃ path, withSlash base = { base with path := .segments (path ++ [[]]) } := by
  rw [withSlash, hb]
  simp only
  split_ifs with h
  · obtain ⟨path, rfl⟩ := List.getLast?_eq_some_iff.mp h
    exact ⟨path, by rw [← hb]⟩
  · exact ⟨ss, rfl⟩

/-- What stands below the first directory in the address of a share. -/
def shareText (share : String) : List Char :=
  "v1/shared-docs/".toList ++ (Text.trim share).toList

theorem verbatim_shareText {scheme : List Char} :
    Verbatim scheme (shareText share) ↔ Verbatim scheme (Text.trim share).toList := by
  have ht : shareText share = "v1".toList ++ '/' :: ("shared-docs".toList ++ '/' ::
      (Text.trim share).toList) := by
    unfold shareText
    simp
  have hc : ∀ name ∈ ["v1".toList, "shared-docs".toList], Verbatim scheme name := by
    intro name hn
    have hp : ∀ c ∈ name, c ≠ '/' ∧ c ≠ '\\' ∧ inPath c = false := by
      rcases List.mem_pair.mp hn with rfl | rfl <;> simp <;> decide
    refine verbatim_of_segment (fun c h => ⟨(hp c h).1, ?_⟩) ?_
    · exact isPathChar_iff.mpr ⟨(hp c h).2.2, fun _ => (hp c h).2.1⟩
    · rcases List.mem_pair.mp hn with rfl | rfl <;> decide
  rw [ht, verbatim_append_slash, verbatim_append_slash]
  constructor
  · intro h
    exact h.2.2
  · intro h
    exact ⟨hc _ (by simp), hc _ (by simp), h⟩

theorem toList_documentsTail (share : String) :
    ("api/v1/shared-docs/" ++ Text.trim share ++ "/").toList =
      "api".toList ++ '/' :: (shareText share ++ ['/']) := by
  unfold shareText
  simp

theorem toList_endpointTail (id : String) :
    (endpointTail id).toList = "http-apis".toList ++ '/' :: id.toList := by
  simp [endpointTail]

theorem documentsUrl_eq (share : String)
    (hw : withSlash base = { base with path := .segments (path ++ [[]]) }) :
    documentsUrl base share = { base with
      path := .segments (path ++ "api".toList :: (shareText share).splitOn '/' ++ [[]])
      query := none
      fragment := none } := by
  rw [documentsUrl, hw, extended, toList_documentsTail]
  simp only [List.splitOn_append_cons_self, List.splitOn_nil, List.dropLast_concat]
  simp [List.splitOn_eq_singleton]

theorem endpointUrl_eq (share id : String)
    (hw : withSlash base = { base with path := .segments (path ++ [[]]) }) :
    endpointUrl base share id = { base with
      path := .segments (path ++ ("api".toList :: (shareText share).splitOn '/' ++
        "http-apis".toList :: id.toList.splitOn '/'))
      query := none
      fragment := none } := by
  rw [endpointUrl, documentsUrl_eq share hw, extended, toList_endpointTail]
  simp only [List.splitOn_append_cons_self, List.dropLast_concat]
  simp [List.splitOn_eq_singleton]

theorem text_documentsUrl (hb : base.path = .segments ss) (share : String) :
    (documentsUrl base share).text =
      ({ withSlash base with query := none, fragment := none } : Url).text ++
        ("api/v1/shared-docs/" ++ Text.trim share ++ "/") := by
  obtain ⟨path, hw⟩ := exists_withSlash_eq hb
  rw [← text_extended (u := { withSlash base with query := none, fragment := none })
    (by rw [hw]) rfl rfl (toList_documentsTail share) isDirectoryName_api]
  simp [documentsUrl, extended, hw]

theorem text_endpointUrl (hb : base.path = .segments ss) (share id : String) :
    (endpointUrl base share id).text = (documentsUrl base share).text ++ endpointTail id := by
  obtain ⟨path, hw⟩ := exists_withSlash_eq hb
  have hd := documentsUrl_eq share hw
  exact text_extended (by rw [hd]) (by rw [hd]) (by rw [hd]) (toList_endpointTail id)
    isDirectoryName_httpApis

/-! ## The addresses of a share -/

theorem join_of_at? (h : at? base share = .ok s) :
    Url.join (withSlash base) ("api/v1/shared-docs/" ++ Text.trim share ++ "/") =
      .ok s.documents := by
  unfold at? at h
  simp only at h
  split_ifs at h
  split at h
  · next u hu =>
    obtain rfl := Except.ok.inj h
    exact hu
  · cases h

theorem exists_segments_of_at? (h : at? base share = .ok s) : ∃ ss, base.path = .segments ss := by
  have hj := join_of_at? h
  rw [join_name isDirectoryName_api (toList_documentsTail share)] at hj
  cases hb : base.path with
  | opaqueText => simp [withSlash, hb] at hj
  | segments ss => exact ⟨ss, rfl⟩

/-- The addresses of documents are read in two steps from the address of the service. -/
theorem exists_address_eq (h : at? base share = .ok s) :
    ∃ path, withSlash base = { base with path := .segments (path ++ [[]]) } ∧ ∀ id,
      s.address (endpointTail id) = .ok ⟨base.scheme, base.authority,
        .segments (segmentsBelow base.scheme path "api".toList (shareText share)
          "http-apis".toList id.toList),
        (Continuation.read base.scheme id.toList).query,
        (Continuation.read base.scheme id.toList).fragment⟩ := by
  obtain ⟨ss, hb⟩ := exists_segments_of_at? h
  obtain ⟨path, hw⟩ := exists_withSlash_eq hb
  have hj := join_of_at? h
  rw [join_name isDirectoryName_api (toList_documentsTail share)] at hj
  simp only [hw, shorten_concat (d := []) rfl] at hj
  have hd := Except.ok.inj hj
  refine ⟨path, hw, fun id => ?_⟩
  rw [address, join_name isDirectoryName_httpApis (toList_endpointTail id), ← hd]
  rfl

theorem address_eq_iff (h : at? base share = .ok s) :
    s.address (endpointTail id) = .ok (endpointUrl base share id) ↔
      Verbatim base.scheme (Text.trim share).toList ∧ Verbatim base.scheme id.toList := by
  obtain ⟨path, hw, ha⟩ := exists_address_eq h
  rw [ha, endpointUrl_eq share id hw, ← verbatim_shareText,
    ← segmentsBelow_eq_iff isDirectoryName_api isDirectoryName_httpApis path]
  simp only [Except.ok.injEq, Url.mk.injEq, UrlPath.segments.injEq, true_and]
  refine ⟨And.left, fun he => ⟨he, ?_⟩⟩
  have ht := (isPathChar_of_segmentsBelow_eq isDirectoryName_api isDirectoryName_httpApis he).2
  rw [Continuation.read_eq fun c hc => (isPathChar_iff.mp (ht c hc)).1]
  exact ⟨rfl, rfl⟩

/-! ## Requests -/

theorem requests_endpoint {u : Url} (n : Network) (h : s.address (endpointTail id) = .ok u) :
    ((s.source n).endpoint id).requests = [u] := by
  simp only [source, read, h, Except.mapError]
  rw [Run.bind_ok rfl]
  cases hg : (get n u).result with
  | ok body =>
    rw [Run.bind_ok hg]
    rfl
  | error e =>
    rw [Run.bind_error hg]
    rfl

theorem requests_endpoint_eq_iff (h : at? base share = .ok s) (n : Network) :
    ((s.source n).endpoint id).requests = [endpointUrl base share id] ↔
      Verbatim base.scheme (Text.trim share).toList ∧ Verbatim base.scheme id.toList := by
  obtain ⟨path, -, ha⟩ := exists_address_eq h
  rw [requests_endpoint n (ha id), List.singleton_inj, ← address_eq_iff h, ha, Except.ok.injEq]

theorem verbatim_of_isPlain (scheme : List Char) (h : Snapshot.IsPlain id) :
    Verbatim scheme id.toList := by
  have hl : ∀ n < 0x7F, (Char.ofNat n).isAlphanum = true →
      (Char.ofNat n).toLower ≠ '.' ∧ (Char.ofNat n).toLower ≠ '%' := by decide
  have hc : ∀ c ∈ id.toList, inPath c = false ∧ c ≠ '/' ∧ c ≠ '\\' ∧ c.toLower ≠ '.' ∧
      c.toLower ≠ '%' := by
    intro c hc
    have ha : c.isAlphanum = true ∨ c = '-' ∨ c = '_' := by
      simpa [Char.isAlphanum, or_assoc] using h.chars c hc
    rcases ha with ha | rfl | rfl
    · have hl := hl c.toNat (Text.toNat_lt_of_isAlphanum ha) (by simpa using ha)
      refine ⟨not_inPath_of_isAlphanum ha, ?_, ?_, by simpa using hl⟩ <;>
        · rintro rfl
          cases ha
    · decide
    · decide
  refine verbatim_of_segment (fun c h => ⟨(hc c h).2.1, ?_⟩)
    (not_dots_of_head fun c h => (hc c h).2.2.2)
  exact isPathChar_iff.mpr ⟨(hc c h).1, fun _ => (hc c h).2.2.1⟩

/-- The ids under which a snapshot keeps files are taken as they stand. -/
theorem requests_endpoint_of_isPlain (h : at? base share = .ok s) (n : Network)
    (hs : Verbatim base.scheme (Text.trim share).toList) (hi : Snapshot.IsPlain id) :
    ((s.source n).endpoint id).requests = [endpointUrl base share id] :=
  (requests_endpoint_eq_iff h n).mpr ⟨hs, verbatim_of_isPlain base.scheme hi⟩

/-- The document of an endpoint is requested from the address of the share, followed by the name of
the directory and the id, exactly if both ids are taken as they stand. -/
theorem endpoint_requested (h : at? base share = .ok s) (n : Network) :
    (∀ id, ((s.source n).endpoint id).requests = [endpointUrl base share id] ↔
        Verbatim base.scheme (Text.trim share).toList ∧ Verbatim base.scheme id.toList) ∧
      (documentsUrl base share).text =
        ({ withSlash base with query := none, fragment := none } : Url).text ++
          ("api/v1/shared-docs/" ++ Text.trim share ++ "/") ∧
      (∀ id, (endpointUrl base share id).text = (documentsUrl base share).text ++ "http-apis/" ++ id) ∧
      ∀ id id', endpointUrl base share id = endpointUrl base share id' → id = id' := by
  obtain ⟨ss, hb⟩ := exists_segments_of_at? h
  have ht : ∀ id, (endpointUrl base share id).text =
      (documentsUrl base share).text ++ "http-apis/" ++ id := fun id => by
    rw [text_endpointUrl hb, endpointTail, String.append_assoc]
  refine ⟨fun id => requests_endpoint_eq_iff h n, text_documentsUrl hb share, ht,
    fun id id' he => ?_⟩
  have he := congrArg (fun u => u.text.toList) he
  exact String.toList_inj.mp (by simpa [ht] using he)

/-- A service below a directory of its host. -/
def sampleBase : Url :=
  ⟨"https".toList, some ⟨[], [], "x.cn".toList, none⟩, .segments ["api-docs".toList], none, none⟩

def firstShare : Share :=
  ⟨⟨"https".toList, some ⟨[], [], "x.cn".toList, none⟩, .segments ["api-docs".toList, "api".toList,
    "v1".toList, "shared-docs".toList, "s1".toList, []], none, none⟩⟩

theorem at?_sampleBase : at? sampleBase " s1 " = .ok firstShare := by decide +kernel

theorem sample_endpoint_requested :
    at? sampleBase " s1 " = .ok firstShare ∧
      ((firstShare.source fun _ => .closed).endpoint "7").requests =
        [endpointUrl sampleBase " s1 " "7"] :=
  ⟨at?_sampleBase,
    ((endpoint_requested at?_sampleBase fun _ => .closed).1 "7").mpr (by decide +kernel)⟩

/-- The id of an endpoint that leads to an endpoint of another share. -/
theorem exists_request_elsewhere :
    ¬ ∀ base share s n id, at? base share = .ok s →
      ((s.source n).endpoint id).requests = [endpointUrl base share id] := by
  intro h
  have h := h sampleBase " s1 " firstShare (fun _ => .closed) "../../s2/http-apis/7" at?_sampleBase
  have he : ((firstShare.source fun _ => .closed).endpoint "../../s2/http-apis/7").requests =
      [endpointUrl sampleBase "s2" "7"] := by
    decide +kernel
  exact absurd (he.symm.trans h) (by decide +kernel)

end Share

end ApiTypings
