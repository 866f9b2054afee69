import Mathlib
import ApiTypings.Generation.Documents

/-! # Conversion step by step

An endpoint with the expected response becomes a namespace and a function, each under the name
that its ledger gives. An endpoint without one is skipped and changes nothing. A conversion that
does not fail is a sequence of such steps.
-/

namespace ApiTypings

open TypeScript Naming

theorem Run.result_bind_eq_ok_iff {α β : Type} {x : Run α} {f : α → Run β} {b : β} :
    (x >>= f).result = .ok b ↔ ∃ a, x.result = .ok a ∧ (f a).result = .ok b := by
  rw [Run.result_bind]
  cases x.result <;> simp [Except.bind]

theorem Run.ofDeclared_bind {α β : Type} (x : Declared α)
    (f : Except MissingResponse α × Naming.Ledger → Run β) :
    ofDeclared x >>= f = ⟨x.warnings.map .warned ++ (f (x.result, x.names)).events,
      (f (x.result, x.names)).result⟩ := rfl

/-! ## Steps -/

namespace Endpoint

def types (r : Registry) (name : String) (e : Endpoint) (success : Response) :
    Warned EndpointTypes := do
  let request ← requestType r e
  let response ← responseType r success.schema
  return ⟨name, e.comment, request, response⟩

def function (name : String) (e : Endpoint) : RequestFunction :=
  let method := Text.uppercase e.method
  ⟨name, e.comment, e.path, method, sendsQuery method⟩

variable {e : Endpoint} {expected : String} {success : Response} (r : Registry) (l : Ledger)

theorem declareTypes_of_success (h : e.success? expected = some success) :
    declareTypes r expected e l =
      let types := e.types r (l.claimEndpoint e.path e.method).1 success
      ⟨.ok types.value, types.warnings, (l.claimEndpoint e.path e.method).2⟩ := by
  simp only [declareTypes, findSuccess, h]
  rfl

theorem declareTypes_of_missing (h : e.success? expected = none) :
    declareTypes r expected e l = ⟨.error ⟨e.label, expected⟩, [], l⟩ := by
  simp only [declareTypes, findSuccess, h]
  rfl

theorem declareFunction_of_success (h : e.success? expected = some success) :
    declareFunction expected e l =
      ⟨.ok (e.function (l.claimEndpoint e.path e.method).1), [],
        (l.claimEndpoint e.path e.method).2⟩ := by
  simp only [declareFunction, findSuccess, h]
  rfl

theorem declareFunction_of_missing (h : e.success? expected = none) :
    declareFunction expected e l = ⟨.error ⟨e.label, expected⟩, [], l⟩ := by
  simp only [declareFunction, findSuccess, h]
  rfl

theorem result_declareTypes (h : e.success? expected = some success) :
    (declareTypes r expected e l).result =
      .ok (e.types r (l.claimEndpoint e.path e.method).1 success).value :=
  congrArg Declared.result (declareTypes_of_success r l h)

theorem result_declareFunction (h : e.success? expected = some success) :
    (declareFunction expected e l).result =
      .ok (e.function (l.claimEndpoint e.path e.method).1) :=
  congrArg Declared.result (declareFunction_of_success l h)

variable {r l}

theorem exists_of_declareTypes {types : EndpointTypes}
    (h : (declareTypes r expected e l).result = .ok types) :
    ∃ success, e.success? expected = some success ∧
      types = (e.types r (l.claimEndpoint e.path e.method).1 success).value := by
  cases hs : e.success? expected with
  | none =>
    rw [declareTypes_of_missing r l hs] at h
    cases h
  | some success =>
    rw [declareTypes_of_success r l hs] at h
    cases h
    exact ⟨success, rfl, rfl⟩

theorem eq_of_declareFunction {f : RequestFunction}
    (h : (declareFunction expected e l).result = .ok f) :
    f = e.function (l.claimEndpoint e.path e.method).1 := by
  cases hs : e.success? expected with
  | none =>
    rw [declareFunction_of_missing l hs] at h
    cases h
  | some success =>
    rw [declareFunction_of_success l hs] at h
    cases h
    rfl

end Endpoint

/-- The names after both ledgers have named an endpoint. -/
def Names.claim (n : Names) (e : Endpoint) : Names :=
  ⟨(n.types.claimEndpoint e.path e.method).2, (n.functions.claimEndpoint e.path e.method).2⟩

namespace Conversion

def ofSuccess (r : Registry) (n : Names) (e : Endpoint) (success : Response) : Conversion :=
  .converted (e.types r (n.types.claimEndpoint e.path e.method).1 success).value
    (e.function (n.functions.claimEndpoint e.path e.method).1)

def ofMissing (expected id : String) (e : Endpoint) : Conversion :=
  .skipped ⟨id, e.label, ⟨e.label, expected⟩⟩

end Conversion

section Step

variable {rules : ConversionRules} {e : Endpoint} {success : Response}
  (r : Registry) (id : String) (n : Names)

theorem convertEndpoint_of_success (h : e.success? rules.successResponse = some success) :
    convertEndpoint rules r id e n =
      ⟨(e.types r (n.types.claimEndpoint e.path e.method).1 success).warnings.map .warned,
        .ok (.ofSuccess r n e success, n.claim e)⟩ := by
  simp only [convertEndpoint, Endpoint.declareTypes_of_success r n.types h,
    Endpoint.declareFunction_of_success n.functions h, Run.ofDeclared_bind]
  simp [Conversion.ofSuccess, Names.claim]

theorem convertEndpoint_of_missing (h : e.success? rules.successResponse = none) :
    convertEndpoint rules r id e n =
      if rules.strict then ⟨[], .error (.missingResponse ⟨e.label, rules.successResponse⟩)⟩
      else ⟨[.warned (.skipped id (MissingResponse.message ⟨e.label, rules.successResponse⟩))],
        .ok (.ofMissing rules.successResponse id e, n)⟩ := by
  simp only [convertEndpoint, Endpoint.declareTypes_of_missing r n.types h]
  rfl

theorem convertEndpoint_eq_ok_iff {conversion : Conversion} {n' : Names} :
    (convertEndpoint rules r id e n).result = .ok (conversion, n') ↔
      (∃ success, e.success? rules.successResponse = some success ∧
        .ofSuccess r n e success = conversion ∧ n.claim e = n') ∨
      (e.success? rules.successResponse = none ∧ rules.strict = false ∧
        .ofMissing rules.successResponse id e = conversion ∧ n = n') := by
  cases hs : e.success? rules.successResponse with
  | some success =>
    rw [convertEndpoint_of_success r id n hs]
    simp
  | none =>
    rw [convertEndpoint_of_missing r id n hs]
    cases rules.strict <;> simp

end Step

/-! ## Sequences of steps -/

section Sequence

variable (rules : ConversionRules) (r : Registry) (source : Source)

/-- The steps for the endpoints with some ids, from the names before to the names after them. -/
inductive Converts : List String → Names → List Conversion → Names → Prop where
  | nil (n : Names) : Converts [] n [] n
  | convert {id : String} {ids : List String} {e : Endpoint} {success : Response}
      {n n' : Names} {cs : List Conversion} :
      (source.endpoint id).result = .ok e → e.success? rules.successResponse = some success →
      Converts ids (n.claim e) cs n' →
      Converts (id :: ids) n (.ofSuccess r n e success :: cs) n'
  | skip {id : String} {ids : List String} {e : Endpoint} {n n' : Names}
      {cs : List Conversion} :
      (source.endpoint id).result = .ok e → e.success? rules.successResponse = none →
      rules.strict = false → Converts ids n cs n' →
      Converts (id :: ids) n (.ofMissing rules.successResponse id e :: cs) n'

variable {rules r source} {ids rest : List String} {n n' : Names} {cs : List Conversion}

theorem convertEndpoints_eq_ok_iff :
    (convertEndpoints rules r source ids n).result = .ok (cs, n') ↔
      Converts rules r source ids n cs n' := by
  constructor
  · intro h
    induction ids generalizing n cs with
    | nil =>
      obtain ⟨rfl, rfl⟩ : [] = cs ∧ n = n' := by simpa [convertEndpoints] using h
      exact .nil n
    | cons id ids ih =>
      obtain ⟨e, he, h⟩ := Run.result_bind_eq_ok_iff.mp h
      obtain ⟨⟨c, n₁⟩, hc, h⟩ := Run.result_bind_eq_ok_iff.mp h
      obtain ⟨⟨cs₁, n₂⟩, hcs, h⟩ := Run.result_bind_eq_ok_iff.mp h
      obtain ⟨rfl, rfl⟩ : c :: cs₁ = cs ∧ n₂ = n' := by simpa using h
      rcases (convertEndpoint_eq_ok_iff r id n).mp hc with
        ⟨success, hs, rfl, rfl⟩ | ⟨hs, ht, rfl, rfl⟩
      · exact .convert he hs (ih hcs)
      · exact .skip he hs ht (ih hcs)
  · intro h
    induction h with
    | nil n => rfl
    | @convert id ids e success n n' cs he hs _ ih =>
      have hc := (convertEndpoint_eq_ok_iff r id n).mpr (.inl ⟨success, hs, rfl, rfl⟩)
      refine Run.result_bind_eq_ok_iff.mpr ⟨e, he, ?_⟩
      refine Run.result_bind_eq_ok_iff.mpr ⟨_, hc, ?_⟩
      exact Run.result_bind_eq_ok_iff.mpr ⟨_, ih, rfl⟩
    | @skip id ids e n n' cs he hs ht _ ih =>
      have hc := (convertEndpoint_eq_ok_iff r id n).mpr (.inr ⟨hs, ht, rfl, rfl⟩)
      refine Run.result_bind_eq_ok_iff.mpr ⟨e, he, ?_⟩
      refine Run.result_bind_eq_ok_iff.mpr ⟨_, hc, ?_⟩
      exact Run.result_bind_eq_ok_iff.mpr ⟨_, ih, rfl⟩

/-- Some of the first steps of a sequence are a sequence by themselves. -/
theorem Converts.take (h : Converts rules r source (ids ++ rest) n cs n') :
    ∃ n₁, Converts rules r source ids n (cs.take ids.length) n₁ := by
  induction ids generalizing n cs with
  | nil => exact ⟨n, .nil n⟩
  | cons id ids ih =>
    cases h with
    | convert he hs h =>
      obtain ⟨n₁, h₁⟩ := ih h
      exact ⟨n₁, .convert he hs h₁⟩
    | skip he hs ht h =>
      obtain ⟨n₁, h₁⟩ := ih h
      exact ⟨n₁, .skip he hs ht h₁⟩

end Sequence

/-! ## Whole runs -/

section Generation

variable {rules : ConversionRules} {source : Source} {d : Declarations}

theorem convert_eq_ok_iff :
    (ApiTypings.convert rules source).result = .ok d ↔
      ∃ schemas modules, source.schemas.result = .ok schemas ∧
        source.tree.result = .ok modules ∧ d.schemaCount = schemas.length ∧
        d.schemas = (declareSchemas (.ofSchemas schemas) schemas).value ∧
        Converts rules (.ofSchemas schemas) source (endpointIds modules).value .empty
          d.endpoints d.names := by
  constructor
  · intro h
    obtain ⟨schemas, hs, h⟩ := Run.result_bind_eq_ok_iff.mp h
    obtain ⟨declared, hd, h⟩ := Run.result_bind_eq_ok_iff.mp h
    obtain ⟨modules, hm, h⟩ := Run.result_bind_eq_ok_iff.mp h
    obtain ⟨ids, hi, h⟩ := Run.result_bind_eq_ok_iff.mp h
    obtain rfl := Except.ok.inj hd
    obtain rfl := Except.ok.inj hi
    obtain ⟨⟨cs, n⟩, hc, h⟩ := Run.result_bind_eq_ok_iff.mp h
    obtain rfl := Except.ok.inj h
    exact ⟨schemas, modules, hs, hm, rfl, rfl, convertEndpoints_eq_ok_iff.mp hc⟩
  · rintro ⟨schemas, modules, hs, hm, hl, hd, hc⟩
    refine Run.result_bind_eq_ok_iff.mpr ⟨schemas, hs, ?_⟩
    refine Run.result_bind_eq_ok_iff.mpr ⟨_, rfl, ?_⟩
    refine Run.result_bind_eq_ok_iff.mpr ⟨modules, hm, ?_⟩
    refine Run.result_bind_eq_ok_iff.mpr ⟨_, rfl, ?_⟩
    refine Run.result_bind_eq_ok_iff.mpr ⟨_, convertEndpoints_eq_ok_iff.mpr hc, ?_⟩
    rw [← hl, ← hd]
    rfl

theorem Declarations.render_eq_ok_iff {t : Renderer} {requestImport : String}
    {documents : Documents} :
    d.render t requestImport = .ok documents ↔
      t.schema d.schemas.text = .ok documents.schema ∧
        t.paths d.pathsText = .ok documents.paths ∧
        t.services d.functionsText requestImport = .ok documents.services := by
  obtain ⟨schema, paths, services⟩ := documents
  unfold Declarations.render
  cases t.schema d.schemas.text <;> cases t.paths d.pathsText <;>
    cases t.services d.functionsText requestImport <;>
    simp [bind, Except.bind, pure, Except.pure]

theorem generate_eq_ok_iff {c : Config} {t : Renderer} {documents : Documents}
    {report : Report} :
    (generate c t source).result = .ok (documents, report) ↔
      ∃ d, (ApiTypings.convert c.rules source).result = .ok d ∧
        d.render t c.requestImport = .ok documents ∧ d.report = report := by
  constructor
  · intro h
    obtain ⟨d, hd, h⟩ := Run.result_bind_eq_ok_iff.mp h
    obtain ⟨documents', hr, h⟩ := Run.result_bind_eq_ok_iff.mp h
    obtain ⟨rfl, rfl⟩ := Prod.mk.inj (Except.ok.inj h)
    refine ⟨d, hd, ?_, rfl⟩
    cases hx : d.render t c.requestImport with
    | ok x => simpa [hx, Except.mapError] using hr
    | error e => simp [hx, Except.mapError] at hr
  · rintro ⟨d, hd, hr, rfl⟩
    refine Run.result_bind_eq_ok_iff.mpr ⟨d, hd, ?_⟩
    refine Run.result_bind_eq_ok_iff.mpr ⟨documents, ?_, rfl⟩
    simp [hr, Except.mapError]

theorem exists_documents_of_isOk (c : Config) (t : Renderer) (source : Source)
    (h : (generate c t source).result.isOk = true) :
    ∃ documents report, (generate c t source).result = .ok (documents, report) := by
  cases hr : (generate c t source).result with
  | ok x => exact ⟨x.1, x.2, rfl⟩
  | error e => rw [hr] at h; cases h

end Generation

/-! ## A sample -/

/-- Endpoints that differ in their response alone; the second has none with the name `OK`. -/
def sampleEndpoint (id : String) : Endpoint :=
  let user : Property := .reference ⟨none, false⟩ "#/definitions/s1"
  let response : Response := match id with
    | "1" => ⟨"OK", user⟩
    | "2" => ⟨"Gone", user⟩
    | "3" => ⟨"OK", some (.array ⟨none, false⟩ user)⟩
    | _ => ⟨"OK", none⟩
  ⟨"/api/users", "get", "List users", "", none, none, [response]⟩

def sampleSource : Source where
  schemas := pure [⟨"s1", "User", "User", none, [], none⟩]
  tree := pure [⟨some "users", none, ["1", "2", "3", "4"].map fun id => ⟨none, some id, []⟩⟩]
  endpoint id := pure (sampleEndpoint id)

theorem generate_sampleSource :
    ∃ documents report,
      (generate .default .builtIn sampleSource).result = .ok (documents, report) :=
  exists_documents_of_isOk .default .builtIn sampleSource (by decide +kernel)

end ApiTypings
