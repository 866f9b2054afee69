import ApiTypings.Proofs.Generation.Conversion
import ApiTypings.Proofs.Typing.Tree

/-! # Skipped endpoints

A skipped endpoint claims no name and adds no declaration. Without the skipped endpoints in the
tree a run therefore makes the same documents, and skips nothing.
-/

namespace ApiTypings

open TypeScript Naming

def Source.Misses (source : Source) (expected id : String) : Prop :=
  ∃ e, (source.endpoint id).result = .ok e ∧ e.success? expected = none

theorem Source.not_misses {source : Source} {expected id : String} {e : Endpoint}
    {success : Response} (he : (source.endpoint id).result = .ok e)
    (hs : e.success? expected = some success) : ¬ source.Misses expected id := by
  rintro ⟨e', he', hn⟩
  obtain rfl := Except.ok.inj (he.symm.trans he')
  simp [hs] at hn

/-- A source that differs from another one in that its tree lacks the endpoints with some ids. -/
structure Source.Lacks (source' source : Source) (ids : List String) : Prop where
  schemas : source'.schemas.result = source.schemas.result
  tree : ∀ modules, source.tree.result = .ok modules → ∃ modules',
    source'.tree.result = .ok modules' ∧ (endpointIds modules').value =
      (endpointIds modules).value.filter (· ∉ ids)
  endpoint : ∀ id ∉ ids, (source'.endpoint id).result = (source.endpoint id).result

/-- The source with the endpoints taken out of its tree. -/
def Source.without (source : Source) (ids : List String) : Source :=
  { source with tree := do return (← source.tree).map (Node.without ids) }

theorem Source.lacks_without (source : Source) (ids : List String) :
    (source.without ids).Lacks source ids where
  schemas := rfl
  tree modules hm := by
    refine ⟨modules.map (Node.without ids), ?_, value_endpointIds_without ids modules⟩
    exact Run.result_bind_eq_ok_iff.mpr ⟨modules, hm, rfl⟩
  endpoint _ _ := rfl

namespace Conversion

theorem skipped?_ofSuccess (r : Registry) (n : Names) (e : Endpoint) (success : Response) :
    (ofSuccess r n e success).skipped? = none := rfl

theorem skipped?_ofMissing (expected id : String) (e : Endpoint) :
    (ofMissing expected id e).skipped? = some ⟨id, e.label, ⟨e.label, expected⟩⟩ := rfl

end Conversion

section Sequence

variable {rules : ConversionRules} {r : Registry} {source source' : Source} {ids : List String}
  {n n' : Names} {cs : List Conversion}

theorem Converts.mem_skipped_iff (h : Converts rules r source ids n cs n') (id : String) :
    id ∈ (cs.filterMap Conversion.skipped?).map SkippedEndpoint.id ↔
      id ∈ ids ∧ source.Misses rules.successResponse id := by
  induction h with
  | nil => simp
  | @convert id₁ ids e _ _ _ cs he hs _ ih =>
    have hm := Source.not_misses he hs
    rw [List.filterMap_cons, Conversion.skipped?_ofSuccess, ih, List.mem_cons, or_and_right]
    exact (or_iff_right fun ⟨hi, h⟩ => hm (hi ▸ h)).symm
  | @skip id₁ ids e _ _ cs he hn _ _ ih =>
    have hm : source.Misses rules.successResponse id₁ := ⟨e, he, hn⟩
    rw [List.filterMap_cons, Conversion.skipped?_ofMissing, List.map_cons, List.mem_cons, ih,
      List.mem_cons, or_and_right]
    exact or_congr_left (iff_self_and.mpr fun hi => hi ▸ hm)

theorem Converts.filter {skipped : List String} (h : Converts rules r source ids n cs n')
    (hs : ∀ id ∈ ids, id ∈ skipped ↔ source.Misses rules.successResponse id) :
    Converts rules r source (ids.filter (· ∉ skipped)) n
      (cs.filter fun c => c.skipped?.isNone) n' := by
  induction h with
  | nil n => exact .nil n
  | @convert id ids e _ _ _ cs he hr _ ih =>
    have hm : id ∉ skipped := fun hi =>
      Source.not_misses he hr ((hs id List.mem_cons_self).mp hi)
    rw [List.filter_cons_of_pos (by simpa using hm), List.filter_cons_of_pos rfl]
    exact .convert he hr (ih fun id hi => hs id (List.mem_cons_of_mem _ hi))
  | @skip id ids e _ _ cs he hn _ _ ih =>
    have hm : id ∈ skipped := (hs id List.mem_cons_self).mpr ⟨e, he, hn⟩
    rw [List.filter_cons_of_neg (by simpa using hm),
      List.filter_cons_of_neg (by simp [Conversion.skipped?_ofMissing])]
    exact ih fun id hi => hs id (List.mem_cons_of_mem _ hi)

theorem Converts.congr (h : Converts rules r source ids n cs n')
    (hs : ∀ id ∈ ids, (source'.endpoint id).result = (source.endpoint id).result) :
    Converts rules r source' ids n cs n' := by
  induction h with
  | nil n => exact .nil n
  | convert he hr _ ih =>
    exact .convert ((hs _ List.mem_cons_self).trans he) hr
      (ih fun id hi => hs id (List.mem_cons_of_mem _ hi))
  | skip he hn ht _ ih =>
    exact .skip ((hs _ List.mem_cons_self).trans he) hn ht
      (ih fun id hi => hs id (List.mem_cons_of_mem _ hi))

end Sequence

def Declarations.converted (d : Declarations) : Declarations :=
  { d with endpoints := d.endpoints.filter fun c => c.skipped?.isNone }

namespace Declarations

variable (d : Declarations)

theorem types_converted : d.converted.types = d.types := by
  rw [types, converted, List.filterMap_filter, types]
  refine List.filterMap_congr fun c _ => ?_
  cases c <;> rfl

theorem functions_converted : d.converted.functions = d.functions := by
  rw [functions, converted, List.filterMap_filter, functions]
  refine List.filterMap_congr fun c _ => ?_
  cases c <;> rfl

theorem skipped_converted : d.converted.skipped = [] := by
  rw [skipped, converted, List.filterMap_filter, List.filterMap_eq_nil_iff]
  intro c _
  cases c <;> rfl

theorem render_converted (t : Renderer) (requestImport : String) :
    d.converted.render t requestImport = d.render t requestImport := by
  unfold render pathsText functionsText
  rw [types_converted, functions_converted]
  rfl

theorem report_converted : d.converted.report = { d.report with skipped := [] } := by
  unfold report
  rw [types_converted, skipped_converted]
  rfl

end Declarations

/-- Whatever the tree of another source looks like, as long as it lists the endpoints that were
not skipped in the same order, the run makes the same declarations. -/
theorem convert_of_lacks {rules : ConversionRules} {source source' : Source} {d : Declarations}
    (hd : (convert rules source).result = .ok d)
    (hl : source'.Lacks source (d.skipped.map SkippedEndpoint.id)) :
    (convert rules source').result = .ok d.converted := by
  obtain ⟨schemas, modules, hs, hm, hn, hi, hc⟩ := convert_eq_ok_iff.mp hd
  obtain ⟨modules', hm', hids⟩ := hl.tree modules hm
  refine convert_eq_ok_iff.mpr ⟨schemas, modules', hl.schemas.trans hs, hm', hn, hi, ?_⟩
  have hf := hc.filter fun id h => (hc.mem_skipped_iff id).trans (and_iff_right h)
  rw [hids]
  exact hf.congr fun id h => hl.endpoint id (of_decide_eq_true (List.mem_filter.mp h).2)

/-- A declaration that fails claims no name and warns of nothing. -/
def Declaring.FailsCleanly {α : Type} (x : Declaring α) : Prop :=
  ∀ names m, (x names).result = .error m → (x names).names = names ∧ (x names).warnings = []

theorem failsCleanly_declareTypes (r : Registry) (expected : String) (e : Endpoint) :
    (declareTypes r expected e).FailsCleanly := by
  intro names m h
  cases he : e.success? expected with
  | some success =>
    rw [Endpoint.result_declareTypes r names he] at h
    cases h
  | none =>
    rw [Endpoint.declareTypes_of_missing r names he]
    exact ⟨rfl, rfl⟩

theorem failsCleanly_declareFunction (expected : String) (e : Endpoint) :
    (declareFunction expected e).FailsCleanly := by
  intro names m h
  cases he : e.success? expected with
  | some success =>
    rw [Endpoint.result_declareFunction names he] at h
    cases h
  | none =>
    rw [Endpoint.declareFunction_of_missing names he]
    exact ⟨rfl, rfl⟩

/-- An endpoint without the response changes no ledger, and nothing is said but that it is
skipped. -/
theorem convertEndpoint_of_error {rules : ConversionRules} (hs : rules.strict = false)
    {r : Registry} {id : String} {e : Endpoint} {n : Names} {m : MissingResponse}
    (h : (declareTypes r rules.successResponse e n.types).result = .error m ∨
      (declareFunction rules.successResponse e n.functions).result = .error m) :
    convertEndpoint rules r id e n =
      ⟨[.warned (.skipped id m.message)], .ok (.skipped ⟨id, e.label, m⟩, n)⟩ := by
  cases he : e.success? rules.successResponse with
  | some success =>
    rw [Endpoint.result_declareTypes r n.types he,
      Endpoint.result_declareFunction n.functions he] at h
    simp at h
  | none =>
    rw [Endpoint.declareTypes_of_missing r n.types he,
      Endpoint.declareFunction_of_missing n.functions he] at h
    obtain rfl : ⟨e.label, rules.successResponse⟩ = m :=
      h.elim Except.error.inj Except.error.inj
    rw [convertEndpoint_of_missing r id n he, hs]
    rfl

/-- A run on a source whose tree lacks the endpoints that were skipped, in particular because they
were taken out of it, makes the same documents and skips nothing. A declaration that fails leaves
its ledger as it is and resolves no reference, and so does the conversion that skips the endpoint. -/
theorem generate_without_skipped {c : Config} {t : Renderer} {source : Source}
    {documents : Documents} {report : Report}
    (h : (generate c t source).result = .ok (documents, report)) :
    (generate c t (source.without (report.skipped.map SkippedEndpoint.id))).result =
        .ok (documents, { report with skipped := [] }) ∧
      (∀ source', Source.Lacks source' source (report.skipped.map SkippedEndpoint.id) →
        (generate c t source').result = .ok (documents, { report with skipped := [] })) ∧
      (∀ r expected e, (declareTypes r expected e).FailsCleanly ∧
        (declareFunction expected e).FailsCleanly) ∧
      (c.strict = false → ∀ r id e n m,
        ((declareTypes r c.successResponse e n.types).result = .error m ∨
          (declareFunction c.successResponse e n.functions).result = .error m) →
        convertEndpoint c.rules r id e n =
          ⟨[.warned (.skipped id m.message)], .ok (.skipped ⟨id, e.label, m⟩, n)⟩) := by
  obtain ⟨d, hd, hr, rfl⟩ := generate_eq_ok_iff.mp h
  have hl : ∀ source', Source.Lacks source' source (d.skipped.map SkippedEndpoint.id) →
      (generate c t source').result = .ok (documents, { d.report with skipped := [] }) := by
    intro source' hl
    refine generate_eq_ok_iff.mpr ⟨d.converted, convert_of_lacks hd hl, ?_, d.report_converted⟩
    exact (d.render_converted t c.requestImport).trans hr
  refine ⟨hl _ (source.lacks_without _), hl, fun r expected e => ?_, fun hs r id e n m he => ?_⟩
  · exact ⟨failsCleanly_declareTypes r expected e, failsCleanly_declareFunction expected e⟩
  · exact convertEndpoint_of_error hs he

theorem sample_without_skipped :
    ∃ documents report,
      (generate .default .builtIn sampleSource).result = .ok (documents, report) ∧
      (generate .default .builtIn
        (sampleSource.without (report.skipped.map SkippedEndpoint.id))).result =
          .ok (documents, { report with skipped := [] }) ∧
      (declareTypes .empty "OK" (sampleEndpoint "2") .empty).names = .empty ∧
      (convertEndpoint Config.default.rules .empty "2" (sampleEndpoint "2") .empty).result =
        .ok (.ofMissing "OK" "2" (sampleEndpoint "2"), .empty) := by
  obtain ⟨documents, report, h⟩ := generate_sampleSource
  obtain ⟨hw, -, hf, hs⟩ := generate_without_skipped h
  have hm : (declareTypes .empty "OK" (sampleEndpoint "2") .empty).result =
      .error ⟨(sampleEndpoint "2").label, "OK"⟩ := rfl
  exact ⟨documents, report, h, hw, ((hf _ _ _).1 _ _ hm).1,
    congrArg Run.result (hs rfl _ "2" _ .empty _ (.inl hm))⟩

end ApiTypings
