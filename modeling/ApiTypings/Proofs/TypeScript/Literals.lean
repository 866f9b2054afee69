import Mathlib
import ApiTypings.Proofs.TypeScript.Reading
import ApiTypings.Template.Documents

/-! # Values of written literals

A written literal is read back as the text it was written for, whatever follows it, if that text
has no line breaks. These are written as they are, and then there is no literal at all.
-/

namespace ApiTypings

namespace TypeScript

/-- The text has none of the characters that end a line of a program within a literal. -/
def OnOneLine (s : List Char) : Prop := ∀ c ∈ s, c ≠ '\n' ∧ c ≠ '\r'

instance (s : List Char) : Decidable (OnOneLine s) :=
  inferInstanceAs (Decidable (∀ c ∈ s, c ≠ '\n' ∧ c ≠ '\r'))

theorem onOneLine_cons_iff {c : Char} {s : List Char} :
    OnOneLine (c :: s) ↔ (c ≠ '\n' ∧ c ≠ '\r') ∧ OnOneLine s :=
  List.forall_mem_cons

/-! ## One literal -/

theorem readTo_lineBreak {c : Char} (hc : c = '\n' ∨ c = '\r') (t : List Char) :
    readTo '"' stringElement 0 (escapeChar c ++ t) = none := by
  rcases hc with rfl | rfl <;> exact readTo_none (by decide) rfl

/-- Behind a backslash a quote and a backslash stand for themselves. -/
theorem readTo_escapeChar {c : Char} (hc : c ≠ '\n' ∧ c ≠ '\r') (t : List Char) :
    readTo '"' stringElement 0 (escapeChar c ++ t) =
      readAfter (charUnits c) (readTo '"' stringElement 0 t) := by
  unfold escapeChar
  split_ifs with hb
  · refine readTo_element (w := [c]) (by decide) ?_
    rcases hb with rfl | rfl <;> rfl
  · push Not at hb
    refine readTo_element (w := []) hb.2 ?_
    simp [stringElement, hc, hb]

theorem readTo_escapeChars (s t : List Char) :
    readTo '"' stringElement 0 (escapeChars s ++ '"' :: t) =
      if OnOneLine s then some (units s, t) else none := by
  induction s with
  | nil => simp [escapeChars, OnOneLine, readTo_closing]
  | cons c s ih =>
    have hs : escapeChars (c :: s) ++ '"' :: t = escapeChar c ++ (escapeChars s ++ '"' :: t) := by
      simp [escapeChars]
    by_cases hc : c ≠ '\n' ∧ c ≠ '\r'
    · rw [hs, readTo_escapeChar hc, ih]
      by_cases h : OnOneLine s <;> simp [onOneLine_cons_iff, hc, h, readAfter]
    · rw [hs, readTo_lineBreak (by tauto), if_neg]
      exact fun h => hc (onOneLine_cons_iff.mp h).1

theorem readLiteral_literal (s : String) (t : List Char) :
    readLiteral ((literal s).toList ++ t) =
      if OnOneLine s.toList then some (units s.toList, t) else none := by
  rw [← readTo_escapeChars]
  simp [literal, escaped, readLiteral]

/-- A text starts with a literal exactly if what it is to stand for is on one line. It then stands
for that and `t` follows it. -/
def ReadsAs (text t : List Char) (s : String) : Prop :=
  ∀ v rest, readLiteral text = some (v, rest) ↔
    OnOneLine s.toList ∧ v = units s.toList ∧ rest = t

theorem readsAs_literal (s : String) (t : List Char) :
    ReadsAs ((literal s).toList ++ t) t s := by
  intro v rest
  rw [readLiteral_literal]
  split_ifs with h
  · simp [h, eq_comm]
  · simp [h]

/-! ## Unions -/

/-- A text of literals, with a bar between each two of them, and the values of the literals. -/
inductive ReadsAsUnion : List Char → List Units → Prop
  | empty : ReadsAsUnion [] []
  | last {t : List Char} {v : Units} : readLiteral t = some (v, []) → ReadsAsUnion t [v]
  | more {t rest : List Char} {v w : Units} {vs : List Units} :
      readLiteral t = some (v, " | ".toList ++ rest) → ReadsAsUnion rest (w :: vs) →
        ReadsAsUnion t (v :: w :: vs)

section

variable {t rest : List Char} {s : String} {vs : List Units}

theorem readsAsUnion_last_iff (hr : ReadsAs t [] s) (ht : t ≠ []) :
    ReadsAsUnion t vs ↔ OnOneLine s.toList ∧ vs = [units s.toList] := by
  constructor
  · rintro (- | h | ⟨h, -⟩)
    · exact absurd rfl ht
    · obtain ⟨hs, rfl, -⟩ := (hr _ _).mp h
      exact ⟨hs, rfl⟩
    · have he := ((hr _ _).mp h).2.2
      simp at he
  · rintro ⟨hs, rfl⟩
    exact .last ((hr _ _).mpr ⟨hs, rfl, rfl⟩)

theorem readsAsUnion_more_iff (hr : ReadsAs t (" | ".toList ++ rest) s) (ht : t ≠ []) :
    ReadsAsUnion t vs ↔
      OnOneLine s.toList ∧
        ∃ w ws, vs = units s.toList :: w :: ws ∧ ReadsAsUnion rest (w :: ws) := by
  constructor
  · rintro (- | h | ⟨h, hrest⟩)
    · exact absurd rfl ht
    · have he := ((hr _ _).mp h).2.2
      simp at he
    · obtain ⟨hs, rfl, he⟩ := (hr _ _).mp h
      rw [List.append_cancel_left he] at hrest
      exact ⟨hs, _, _, rfl, hrest⟩
  · rintro ⟨hs, w, ws, rfl, h⟩
    exact .more ((hr _ _).mpr ⟨hs, rfl, rfl⟩) h

end

theorem literal_ne_nil (s : String) (t : List Char) : (literal s).toList ++ t ≠ [] := by
  simp [literal]

theorem toList_literalUnion_cons_cons (s s' : String) (values : List String) :
    (literalUnion (s :: s' :: values)).toList =
      (literal s).toList ++ (" | ".toList ++ (literalUnion (s' :: values)).toList) := by
  simp [literalUnion, String.intercalate_cons_cons]

theorem readsAsUnion_literalUnion_iff (values : List String) (vs : List Units) :
    ReadsAsUnion (literalUnion values).toList vs ↔
      (∀ s ∈ values, OnOneLine s.toList) ∧ vs = values.map fun s => units s.toList := by
  cases values with
  | nil =>
    constructor
    · rintro (- | h | ⟨h, -⟩)
      · simp
      all_goals simp [literalUnion, readLiteral] at h
    · rintro ⟨-, rfl⟩
      exact .empty
  | cons s values =>
    induction values generalizing s vs with
    | nil =>
      have ht : (literalUnion [s]).toList = (literal s).toList ++ [] := by simp [literalUnion]
      rw [ht, readsAsUnion_last_iff (readsAs_literal s []) (literal_ne_nil s [])]
      simp
    | cons s' values ih =>
      rw [toList_literalUnion_cons_cons, readsAsUnion_more_iff (readsAs_literal s _)
        (literal_ne_nil s _), List.forall_mem_cons]
      simp only [ih]
      constructor
      · rintro ⟨hs, w, ws, rfl, hall, he⟩
        exact ⟨⟨hs, hall⟩, by rw [he]; rfl⟩
      · rintro ⟨⟨hs, hall⟩, rfl⟩
        exact ⟨hs, _, _, rfl, hall, rfl⟩

end TypeScript

/-! ## Members and imports -/

open TypeScript

def importStart : String :=
  "/** Tip: \x60request\x60 is not generated, the consuming project must provide it */\n" ++
    "import request from "

theorem renderServices_builtIn (functions requestImport : String) :
    Templates.builtIn.renderServices functions requestImport =
      .ok (importStart ++ literal requestImport ++ ";\n\n" ++ functions) := by
  have hq : importStart ++ "\"" = ("/** Tip: \x60request\x60 is not generated, " ++
      "the consuming project must provide it */\nimport request from \"") := by decide +kernel
  have he : "\"" ++ ";\n\n" = "\";\n\n" := by decide +kernel
  have hr : Templates.builtIn.renderServices functions requestImport =
      .ok ((importStart ++ "\"") ++ (escaped requestImport ++
        (("\"" ++ ";\n\n") ++ (functions ++ "")))) := by
    rw [hq, he]
    rfl
  rw [hr, literal]
  simp only [String.append_assoc, String.append_empty]

/-- The text of a union is a sequence of literals for its values, the name of a member that is no
identifier is a literal for it, and so is the module that the functions import, each exactly if
what is written is on one line. -/
theorem literals_read_back (values : List String) (key functions requestImport : String) :
    (∀ vs, ReadsAsUnion (literalUnion values).toList vs ↔
      (∀ s ∈ values, OnOneLine s.toList) ∧ vs = values.map fun s => units s.toList) ∧
    (isIdentifier key = false → ∀ t, ReadsAs ((memberName key).toList ++ t) t key) ∧
    ∃ document t, Templates.builtIn.renderServices functions requestImport = .ok document ∧
      document.toList = importStart.toList ++ t ∧
      ReadsAs t (";\n\n" ++ functions).toList requestImport := by
  refine ⟨readsAsUnion_literalUnion_iff values, ?_, ?_⟩
  · intro hk t
    rw [memberName, if_neg (by simp [hk])]
    exact readsAs_literal key t
  · refine ⟨_, (literal requestImport).toList ++ (";\n\n" ++ functions).toList,
      renderServices_builtIn functions requestImport, ?_, readsAs_literal _ _⟩
    simp [String.append_assoc]

/-- Quotes and backslashes in values, and a member whose name needs quotes. -/
theorem quoted_read_back :
    ReadsAsUnion (literalUnion ["say \"hi\"", "C:\\"]).toList
      [units "say \"hi\"".toList, units "C:\\".toList] ∧
    isIdentifier "content-\\" = false ∧
    ReadsAs ((memberName "content-\\").toList ++ ": string".toList) ": string".toList
      "content-\\" := by
  have hk : isIdentifier "content-\\" = false := by decide +kernel
  obtain ⟨hu, hm, -⟩ :=
    literals_read_back ["say \"hi\"", "C:\\"] "content-\\" "" "@/utils/request"
  exact ⟨(hu _).mpr ⟨by simp [OnOneLine], rfl⟩, hk, hm hk _⟩

/-- A value of two lines makes a text that is no union of literals. -/
theorem exists_value_without_literal :
    ¬ ∃ vs, ReadsAsUnion (literalUnion ["first\nsecond"]).toList vs := by
  rintro ⟨vs, h⟩
  have hs := ((readsAsUnion_literalUnion_iff _ vs).mp h).1 _ (List.mem_singleton_self _)
  simp [OnOneLine] at hs

end ApiTypings
