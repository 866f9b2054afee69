import ApiTypings.Proofs.Generation.Sources

/-! # Strict runs

A strict run makes the same steps as one that is not, up to the first endpoint without the expected
response. So the two agree where nothing is skipped, and where something is the strict run fails
for the first endpoint that the other one skips.
-/

namespace ApiTypings

open Naming

section Sequence

variable {expected : String} {r : Registry} {source : Source} {ids : List String} {n n' : Names}
  {cs : List Conversion}

theorem converts_strict_iff :
    Converts ⟨expected, true⟩ r source ids n cs n' ↔
      Converts ⟨expected, false⟩ r source ids n cs n' ∧ cs.filterMap Conversion.skipped? = [] := by
  constructor
  · intro h
    induction h with
    | nil n => exact ⟨.nil n, rfl⟩
    | convert he hs _ ih => exact ⟨.convert he hs ih.1, ih.2⟩
    | skip _ _ ht _ _ => cases ht
  · rintro ⟨h, hn⟩
    induction h with
    | nil n => exact .nil n
    | convert he hs _ ih => exact .convert he hs (ih hn)
    | skip _ _ _ _ _ => cases hn

theorem Converts.strict_eq_error (h : Converts ⟨expected, false⟩ r source ids n cs n')
    {s : SkippedEndpoint} {rest : List SkippedEndpoint}
    (hs : cs.filterMap Conversion.skipped? = s :: rest) :
    (convertEndpoints ⟨expected, true⟩ r source ids n).result =
      .error (.missingResponse s.reason) := by
  induction h with
  | nil => cases hs
  | @convert id ids e success n n' cs he hr _ ih =>
    have hc : (convertEndpoint ⟨expected, true⟩ r id e n).result = .ok (_, n.claim e) :=
      (convertEndpoint_eq_ok_iff r id n).mpr (.inl ⟨success, hr, rfl, rfl⟩)
    refine Run.result_bind_eq_error_iff.mpr (.inr ⟨e, he, ?_⟩)
    refine Run.result_bind_eq_error_iff.mpr (.inr ⟨_, hc, ?_⟩)
    exact Run.result_bind_eq_error_iff.mpr (.inl (ih hs))
  | @skip id ids e n n' cs he hr _ _ _ =>
    obtain ⟨rfl, -⟩ := List.cons_eq_cons.mp hs
    have hm : e.success? (ConversionRules.mk expected true).successResponse = none := hr
    have hc := congrArg Run.result (convertEndpoint_of_missing r id n hm)
    refine Run.result_bind_eq_error_iff.mpr (.inr ⟨e, he, ?_⟩)
    exact Run.result_bind_eq_error_iff.mpr (.inl hc)

end Sequence

section Generation

variable {expected : String} {source : Source} {d : Declarations}

theorem convert_strict_iff :
    (convert ⟨expected, true⟩ source).result = .ok d ↔
      (convert ⟨expected, false⟩ source).result = .ok d ∧ d.skipped = [] := by
  simp only [convert_eq_ok_iff, converts_strict_iff, Declarations.skipped]
  tauto

theorem convert_strict_eq_error (h : (convert ⟨expected, false⟩ source).result = .ok d)
    {s : SkippedEndpoint} {rest : List SkippedEndpoint} (hs : d.skipped = s :: rest) :
    (convert ⟨expected, true⟩ source).result = .error (.missingResponse s.reason) := by
  obtain ⟨schemas, modules, hl, hm, -, -, hc⟩ := convert_eq_ok_iff.mp h
  refine Run.result_bind_eq_error_iff.mpr (.inr ⟨schemas, hl, ?_⟩)
  refine Run.result_bind_eq_error_iff.mpr (.inr ⟨_, rfl, ?_⟩)
  refine Run.result_bind_eq_error_iff.mpr (.inr ⟨modules, hm, ?_⟩)
  refine Run.result_bind_eq_error_iff.mpr (.inr ⟨_, rfl, ?_⟩)
  exact Run.result_bind_eq_error_iff.mpr (.inl (hc.strict_eq_error hs))

end Generation

/-- A strict run succeeds exactly if the other one succeeds and skips nothing, with the same
documents and report. If the other one skips something, the strict run fails with the reason for
which the first endpoint was skipped. -/
theorem generate_strict_iff (c : Config) (t : Renderer) (source : Source) :
    (∀ documents report,
      (generate { c with strict := true } t source).result = .ok (documents, report) ↔
        (generate { c with strict := false } t source).result = .ok (documents, report) ∧
          report.skipped = []) ∧
    ∀ documents report s rest,
      (generate { c with strict := false } t source).result = .ok (documents, report) →
      report.skipped = s :: rest →
        ∃ f, (generate { c with strict := true } t source).result = .error f ∧
          f = .missingResponse s.reason ∧ f.message = s.reason.message := by
  constructor
  · intro documents report
    constructor
    · intro h
      obtain ⟨d, hd, hr, rfl⟩ := generate_eq_ok_iff.mp h
      obtain ⟨hd, hs⟩ := convert_strict_iff.mp hd
      exact ⟨generate_eq_ok_iff.mpr ⟨d, hd, hr, rfl⟩, hs⟩
    · rintro ⟨h, hs⟩
      obtain ⟨d, hd, hr, rfl⟩ := generate_eq_ok_iff.mp h
      exact generate_eq_ok_iff.mpr ⟨d, convert_strict_iff.mpr ⟨hd, hs⟩, hr, rfl⟩
  · intro documents report s rest h hs
    obtain ⟨d, hd, -, rfl⟩ := generate_eq_ok_iff.mp h
    have he := convert_strict_eq_error hd hs
    exact ⟨_, Run.result_bind_eq_error_iff.mpr (.inl he), rfl, rfl⟩

/-- One endpoint of the sample is skipped, so the strict run fails. -/
theorem sample_strict :
    ∃ documents report s rest,
      (generate .default .builtIn sampleSource).result = .ok (documents, report) ∧
      report.skipped = s :: rest ∧
      ∃ f, (generate { Config.default with strict := true } .builtIn sampleSource).result =
        .error f ∧ f = .missingResponse s.reason ∧ f.message = s.reason.message := by
  obtain ⟨documents, report, h⟩ := generate_sampleSource
  have hn : ¬ (generate { Config.default with strict := true } .builtIn sampleSource).result.isOk =
      true := by
    decide +kernel
  cases hs : report.skipped with
  | nil =>
    have ho := ((generate_strict_iff .default .builtIn sampleSource).1 documents report).mpr ⟨h, hs⟩
    exact absurd (by rw [ho]; rfl) hn
  | cons s rest =>
    exact ⟨documents, report, s, rest, h, hs,
      (generate_strict_iff .default .builtIn sampleSource).2 documents report s rest h hs⟩

end ApiTypings
