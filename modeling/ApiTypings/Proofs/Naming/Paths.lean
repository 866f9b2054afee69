import Mathlib
import ApiTypings.Proofs.Naming.Identifiers
import ApiTypings.Proofs.Text.Pieces

/-! # Names from paths

The segments of a path stand behind its slashes, and its last parameter is the one that starts last,
wherever else slashes and braces stand. The scans for them find exactly these. So the first two names
tried for an endpoint depend on two segments and one parameter of its path only.
-/

namespace ApiTypings.Naming

variable {path : String} {s before name after : List Char} {parameter : Option (List Char)}

/-! ## Segments -/

/-- What follows each slash before the next one, as far as it is made of letters, digits and
underscores. -/
def segmentsOf (path : String) : List String :=
  let pieces := (path.toList.splitOn '/').tail
  let names := pieces.map (List.takeWhile fun c => c.isAlphanum || c == '_')
  (names.filter fun name => name ≠ []).map String.ofList

theorem opensWith_segment : Text.OpensWith segment '/' where
  head {s name n} hp := by
    unfold segment at hp
    split at hp
    · rfl
    · cases hp
  fresh {s name n} hp := by
    have hw : '/' ∉ s.takeWhile isWord := fun hm => by
      simpa [isWord] using List.mem_takeWhile_imp hm
    simp only [segment] at hp
    split_ifs at hp
    cases hp
    rwa [Nat.add_sub_cancel, ← List.prefix_iff_eq_take.mp (List.takeWhile_prefix isWord)]

theorem everywhere_segment (s : List Char) :
    Text.everywhere segment s =
      ((s.splitOn '/').tail.map (List.takeWhile isWord)).filter fun name => name ≠ [] := by
  rw [List.splitOn_eq_splitOnP]
  induction s with
  | nil => rfl
  | cons c s ih =>
    rw [Text.everywhere_cons, Text.tail_splitOnP_cons, ih]
    by_cases hc : c = '/'
    · subst hc
      have hq : ∀ c, (c == '/') = true → isWord c = false := by simp [isWord]
      obtain ⟨piece, rest, hs, hw⟩ := Text.exists_splitOnP_eq_cons hq s
      rw [if_pos (beq_self_eq_true '/'), hs, List.tail_cons, List.map_cons, hw]
      by_cases he : s.takeWhile isWord = []
      · simp [segment, he]
      · simp [segment, he]
    · have hn : segment (c :: s) = none := opensWith_segment.eq_none (by simpa using hc)
      rw [if_neg (by simpa using hc), hn]
      rfl

theorem segments_ofEndpoint (path method : String) :
    (Candidate.ofEndpoint path method).segments = segmentsOf path := by
  have hs : (Candidate.ofEndpoint path method).segments =
      (Text.occurrences segment path.toList).map String.ofList := rfl
  rw [hs, opensWith_segment.occurrences_eq, everywhere_segment]
  rfl

theorem ne_empty_of_mem_segmentsOf {s : String} (h : s ∈ segmentsOf path) : s ≠ "" := by
  obtain ⟨name, hn, rfl⟩ := List.mem_map.mp h
  simpa using (List.mem_filter.mp hn).2

/-! ## The last parameter -/

/-- A parameter in braces, with letters, digits and underscores in its name, stands between two
parts of a path. -/
structure HasParameter (path before name after : List Char) : Prop where
  path_eq : path = before ++ '\x7b' :: (name ++ '\x7d' :: after)
  word : ∀ c ∈ name, (c.isAlphanum || c == '_') = true

/-- The name of the parameter that starts last, if there is a parameter. -/
inductive LastParameter (path : List Char) : Option (List Char) → Prop
  | absent : (∀ before name after, ¬ HasParameter path before name after) → LastParameter path none
  | present {before name after : List Char} : HasParameter path before name after →
      (∀ before' name' after', HasParameter path before' name' after' →
        before'.length ≤ before.length) →
      LastParameter path (some name)

theorem HasParameter.routeParameter_eq (h : HasParameter s before name after) :
    routeParameter ('\x7b' :: (name ++ '\x7d' :: after)) = some (name, name.length + 2) :=
  Text.braced_eq_some h.word rfl

theorem hasParameter_cons_cons {b c : Char} :
    HasParameter (c :: s) (b :: before) name after ↔ c = b ∧ HasParameter s before name after := by
  constructor
  · rintro ⟨hp, hw⟩
    obtain ⟨hc, hs⟩ := List.cons.inj hp
    exact ⟨hc, hs, hw⟩
  · rintro ⟨rfl, hs, hw⟩
    exact ⟨congrArg (c :: ·) hs, hw⟩

/-- A character in front of a text brings in a new last parameter only if there was none. -/
theorem LastParameter.cons (h : LastParameter s parameter) (c : Char) :
    LastParameter (c :: s) (parameter.or ((routeParameter (c :: s)).map Prod.fst)) := by
  cases h with
  | present h hlast =>
    refine .present (hasParameter_cons_cons.mpr ⟨rfl, h⟩) fun before' name' after' h' => ?_
    cases before' with
    | nil => exact Nat.zero_le _
    | cons b before' => exact Nat.succ_le_succ (hlast _ _ _ (hasParameter_cons_cons.mp h').2)
  | absent hnone =>
    cases hp : routeParameter (c :: s) with
    | none =>
      refine .absent fun before name after h => ?_
      cases before with
      | nil =>
        have hs : c :: s = '\x7b' :: (name ++ '\x7d' :: after) := h.path_eq
        rw [hs, h.routeParameter_eq] at hp
        cases hp
      | cons b before => exact hnone _ _ _ (hasParameter_cons_cons.mp h).2
    | some m =>
      obtain ⟨name, n⟩ := m
      obtain ⟨after, hs, hw, -⟩ := Text.exists_of_braced hp
      have h : HasParameter (c :: s) [] name after := ⟨hs, hw⟩
      refine .present h fun before' name' after' h' => ?_
      cases before' with
      | nil => exact le_rfl
      | cons b before' => exact absurd (hasParameter_cons_cons.mp h').2 (hnone _ _ _)

theorem lastParameter_everywhere (s : List Char) :
    LastParameter s (Text.everywhere routeParameter s).getLast? := by
  induction s with
  | nil =>
    refine .absent fun before name after h => ?_
    simpa using h.path_eq
  | cons c s ih =>
    have hc : ((routeParameter (c :: s)).map Prod.fst).toList.getLast? =
        (routeParameter (c :: s)).map Prod.fst := by
      cases routeParameter (c :: s) <;> rfl
    rw [Text.everywhere_cons, List.getLast?_append, hc]
    exact ih.cons c

theorem LastParameter.unique {other : Option (List Char)} (h : LastParameter s parameter)
    (h' : LastParameter s other) : parameter = other := by
  cases h with
  | absent hnone =>
    cases h' with
    | absent => rfl
    | present h' => exact absurd h' (hnone _ _ _)
  | @present before name after h hlast =>
    cases h' with
    | absent hnone => exact absurd h (hnone _ _ _)
    | @present before' name' after' h' hlast' =>
      have hl : before.length = before'.length := le_antisymm (hlast' _ _ _ h) (hlast _ _ _ h')
      obtain ⟨-, ht⟩ := List.append_inj (h.path_eq.symm.trans h'.path_eq) hl
      have hp := h.routeParameter_eq
      rw [ht, h'.routeParameter_eq] at hp
      cases hp
      rfl

/-- The name of a parameter with a capital, unless it is empty. -/
def suffixOf : Option (List Char) → Option String
  | none => none
  | some [] => none
  | some (c :: rest) => some (Text.capitalize (String.ofList (c :: rest)))

theorem suffix_ofEndpoint (h : LastParameter path.toList parameter) (method : String) :
    (Candidate.ofEndpoint path method).suffix = suffixOf parameter := by
  have ho : Text.OpensWith routeParameter '\x7b' := Text.opensWith_braced rfl
  have hp : (Text.occurrences routeParameter path.toList).getLast? = parameter := by
    rw [ho.occurrences_eq]
    exact (lastParameter_everywhere path.toList).unique h
  unfold Candidate.ofEndpoint
  dsimp only
  rw [hp]
  cases h with
  | absent => rfl
  | @present before name after h =>
    cases name with
    | nil => rfl
    | cons c rest =>
      have hc : isWord c = true := h.word c List.mem_cons_self
      have hu := Text.upper_of_lt (isWord_toUpper hc).2
      simp [suffixOf, Text.capitalize, hu]

/-! ## Names -/

/-- The method, the last segment and the parameter, each with a capital. -/
def primaryOf (segments : List String) (parameter : Option (List Char)) (method : String) :
    String :=
  "A" ++ Text.capitalize method ++ Text.capitalize (segments.getLast?.getD "Root") ++
    (suffixOf parameter).elim "" ("_" ++ ·)

/-- The method and up to two segments, each with a capital. -/
def fallbackOf (segments : List String) (method : String) : String :=
  "A" ++ Text.capitalize method ++ match segments with
    | [previous, last] => Text.capitalize previous ++ Text.capitalize last
    | [last] => Text.capitalize last
    | _ => "Root"

theorem lastSegment_ne_empty (path method : String) :
    (Candidate.ofEndpoint path method).lastSegment ≠ "" := by
  unfold Candidate.lastSegment
  rw [segments_ofEndpoint]
  cases h : (segmentsOf path).getLast? with
  | none => simp
  | some s => exact ne_empty_of_mem_segmentsOf (List.mem_of_getLast? h)

theorem getLast?_rtake_two {α : Type} (l : List α) : (l.rtake 2).getLast? = l.getLast? := by
  rw [List.rtake.eq_def, List.getLast?_drop]
  split_ifs with hn
  · rw [List.eq_nil_of_length_eq_zero (by omega : l.length = 0), List.getLast?_nil]
  · rfl

theorem primary_ofEndpoint (h : LastParameter path.toList parameter) (method : String) :
    (Candidate.ofEndpoint path method).primary =
      primaryOf ((segmentsOf path).rtake 2) parameter (Text.lowercase method) := by
  have hs := lastSegment_ne_empty path method
  simp only [Candidate.primary, primaryOf, Text.capitalize_append hs, suffix_ofEndpoint h,
    getLast?_rtake_two]
  rw [← String.append_assoc, Candidate.lastSegment, segments_ofEndpoint]
  cases suffixOf parameter <;> rfl

theorem fallback_ofEndpoint (path method : String) :
    (Candidate.ofEndpoint path method).fallback =
      fallbackOf ((segmentsOf path).rtake 2) (Text.lowercase method) := by
  have hm : (Candidate.ofEndpoint path method).method =
      Text.capitalize (Text.lowercase method) := rfl
  have he : Text.capitalize "" = "" := rfl
  have hr : Text.capitalize "Root" = "Root" := by decide +kernel
  rw [Candidate.fallback, Candidate.previousSegment, Candidate.lastSegment, segments_ofEndpoint, hm]
  rcases List.eq_nil_or_concat (segmentsOf path) with hs | ⟨rest, last, hs⟩
  · simp [hs, fallbackOf, List.rtake, he, hr]
  rcases List.eq_nil_or_concat rest with rfl | ⟨rest, previous, rfl⟩
  · simp [hs, fallbackOf, List.rtake, he]
  · simp [hs, fallbackOf, List.rtake, String.append_assoc]

/-- The segments of an endpoint are what follows the slashes of its path, and its suffix is made of
the parameter that starts last, of which there is at most one. The names tried first are made of the
last two segments, this parameter and the method in lower case alone. -/
theorem ofEndpoint_described (path method : String) :
    ∃ parameter,
      (∀ other, LastParameter path.toList other ↔ other = parameter) ∧
      (Candidate.ofEndpoint path method).segments = segmentsOf path ∧
      (Candidate.ofEndpoint path method).suffix = suffixOf parameter ∧
      (Candidate.ofEndpoint path method).primary =
        primaryOf ((segmentsOf path).rtake 2) parameter (Text.lowercase method) ∧
      (Candidate.ofEndpoint path method).fallback =
        fallbackOf ((segmentsOf path).rtake 2) (Text.lowercase method) := by
  have h := lastParameter_everywhere path.toList
  refine ⟨_, fun other => ⟨fun ho => ho.unique h, fun ho => ho ▸ h⟩, ?_⟩
  exact ⟨segments_ofEndpoint path method, suffix_ofEndpoint h method, primary_ofEndpoint h method,
    fallback_ofEndpoint path method⟩

/-- Slashes in braces, braces in braces and an open brace at the end. -/
example :
    Candidate.ofEndpoint "/files/\x7ba/b\x7d//\x7b\x7bid\x7d\x7d/é-x/v1\x7b" "GET" =
      ⟨"Get", ["files", "b", "v1"], some "Id"⟩ := by
  decide +kernel

end ApiTypings.Naming
