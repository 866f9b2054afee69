import Mathlib
import ApiTypings.Proofs.TypeScript.UrlValue

/-! # Parameters of addresses

An address uses the parameters with which its value changes. Line breaks aside, the pieces of a path
are read as they are if nothing but a token is read as the start of something else. Then the address
uses exactly the parameters that the tokens of the path name.
-/

namespace ApiTypings.TypeScript

open Text (Piece)

variable {ps qs : List (Piece (List Char))} {name : List Char} {n : Units}

/-- The value of a template literal changes with that of a parameter. -/
def Uses (template : List Char) (name : Units) : Prop :=
  ∃ env v, templateValue? (Function.update env name v) template ≠ templateValue? env template

/-- The pieces of a path whose tokens are read back: nothing else is read as the start of something,
and the names can be written. -/
structure Legible (ps : List (Piece (List Char))) : Prop where
  inert : Inert ps
  names : ∀ name, .found name ∈ ps → '\x60' ∉ name ∧ OnOneLine name

theorem Legible.tail {p : Piece (List Char)} (h : Legible (p :: ps)) : Legible ps where
  inert := by
    constructor
    · exact fun hm => h.inert.1 (List.mem_cons_of_mem p hm)
    · exact fun hi => h.inert.2 (hi.trans (List.suffix_cons p ps).isInfix)
  names name hm := h.names name (List.mem_cons_of_mem p hm)

/-! ## Values of legible pieces -/

/-- The value is that of the same tokens between other line breaks. -/
theorem exists_pieces_of_legible (h : Legible ps) :
    ∃ qs, (∀ name, .found name ∈ qs ↔ .found name ∈ ps) ∧
      ∀ env, readTemplate env (remainder ps) = some (documentedValue env qs, []) := by
  induction ps with
  | nil => exact ⟨[], fun _ => Iff.rfl, fun _ => readTemplate_closing []⟩
  | cons p ps ih =>
    obtain ⟨qs, hq, hv⟩ := ih h.tail
    cases p with
    | plain c =>
      obtain ⟨⟨hb, hs⟩, -⟩ := inert_plain_iff.mp h.inert
      by_cases ht : c = '\x60'
      · subst ht
        refine ⟨.plain '\x60' :: qs, by simpa using hq, fun env => ?_⟩
        rw [remainder_backtick, readTemplate_backtick, hv]
        rfl
      by_cases hr : c = '\r'
      · subst hr
        by_cases hn : (remainder ps).head? = some '\n'
        · refine ⟨qs, by simpa using hq, fun env => ?_⟩
          rw [remainder_plain ht, readTemplate_return, if_pos hn, hv]
          rfl
        · refine ⟨.plain '\n' :: qs, by simpa using hq, fun env => ?_⟩
          rw [remainder_plain ht, readTemplate_return, if_neg hn, hv]
          rfl
      · refine ⟨.plain c :: qs, by simpa using hq, fun env => ?_⟩
        rw [remainder_plain ht, readTemplate_plain ht hb hr hs, hv]
        rfl
    | found name =>
      obtain ⟨ht, hl⟩ := h.names name List.mem_cons_self
      refine ⟨.found name :: qs, fun other => ?_, fun env => ?_⟩
      · rw [List.mem_cons, List.mem_cons, hq]
      · rw [readTemplate_remainder_found, escapeBackticks_eq_self ht, if_pos hl, hv]
        rfl

/-! ## Parameters that a value depends on -/

theorem documentedValue_congr {env env' : Units → Units}
    (h : ∀ name, .found name ∈ qs → env (units name) = env' (units name)) :
    documentedValue env qs = documentedValue env' qs := by
  apply List.flatMap_congr
  intro p hp
  cases p with
  | plain c => rfl
  | found name => exact h name hp

theorem length_le_documentedValue {env : Units → Units} (h : .found name ∈ qs) :
    (env (units name)).length ≤ (documentedValue env qs).length := by
  obtain ⟨us, vs, rfl⟩ := List.append_of_mem h
  rw [documentedValue_append, documentedValue_found, List.length_append, List.length_append]
  omega

/-- A parameter whose value is long enough is seen in any value that it is put into. -/
theorem uses_iff_of_value {template : List Char}
    (h : ∀ env, templateValue? env template = some (documentedValue env qs)) :
    Uses template n ↔ ∃ name, .found name ∈ qs ∧ units name = n := by
  constructor
  · rintro ⟨env, v, hne⟩
    by_contra! hn
    apply hne
    rw [h, h, documentedValue_congr]
    intro name hm
    exact Function.update_of_ne (hn name hm) v env
  · rintro ⟨name, hm, rfl⟩
    let bare : Units := documentedValue (fun _ => []) qs
    let v : Units := List.replicate (bare.length + 1) 0
    let env : Units → Units := Function.update (fun _ => []) (units name) v
    refine ⟨fun _ => [], v, fun he => ?_⟩
    have hb : documentedValue env qs = bare := by
      rwa [h, h, Option.some.injEq] at he
    have hl : (env (units name)).length ≤ (documentedValue env qs).length :=
      length_le_documentedValue hm
    have hv : (env (units name)).length = bare.length + 1 := by
      simp only [env, Function.update_self, v, List.length_replicate]
    rw [hb, hv] at hl
    omega

theorem uses_urlTemplate_iff {path : String} (hd : Divides path.toList ps) (hl : Legible ps) :
    Uses ('\x60' :: ((urlTemplate path).toList ++ ['\x60'])) n ↔
      ∃ name, .found name ∈ ps ∧ units name = n := by
  obtain ⟨qs, hq, hv⟩ := exists_pieces_of_legible hl
  have ht : ∀ env, templateValue? env ('\x60' :: ((urlTemplate path).toList ++ ['\x60'])) =
      some (documentedValue env qs) := by
    intro env
    rw [toList_urlTemplate, ← divides_iff.mp hd, templateValue?_eq_some_iff]
    exact hv env
  simp only [uses_iff_of_value ht, hq]

end ApiTypings.TypeScript
