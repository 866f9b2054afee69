import ApiTypings.Proofs.Generation.Conversion

/-! # Outcome of a run

A run passes its stages in a fixed order. It fetches the schemas and the tree, then it fetches every
endpoint and, if it is strict, asks for the expected response, and in the end it renders the three
documents. It fails as the first stage does that fails. If none does, every endpoint is either
skipped or stands in the documents, in the order of the tree.
-/

namespace ApiTypings

open TypeScript Naming

namespace Run

variable {α β : Type}

/-- The failure in which a run ends. -/
def failure? (x : Run α) : Option Failure :=
  match x.result with
  | .ok _ => none
  | .error e => some e

theorem failure?_eq_some_iff {x : Run α} {e : Failure} :
    x.failure? = some e ↔ x.result = .error e := by
  unfold failure?
  cases x.result <;> simp

theorem failure?_eq_none_iff {x : Run α} : x.failure? = none ↔ ∃ a, x.result = .ok a := by
  unfold failure?
  cases x.result <;> simp

theorem failure?_of_ok {x : Run α} {a : α} (h : x.result = .ok a) : x.failure? = none :=
  failure?_eq_none_iff.mpr ⟨a, h⟩

theorem failure?_bind_of_ok {x : Run α} {a : α} (h : x.result = .ok a) (f : α → Run β) :
    (x >>= f).failure? = (f a).failure? := by
  simp only [failure?, result_bind, h, Except.bind]

theorem failure?_bind_of_error {x : Run α} {e : Failure} (h : x.result = .error e)
    (f : α → Run β) : (x >>= f).failure? = some e := by
  simp only [failure?, result_bind, h, Except.bind]

/-- What cannot fail may be left out. -/
theorem failure?_bind_of_total {f : α → Run β} (h : ∀ a, (f a).failure? = none) (x : Run α) :
    (x >>= f).failure? = x.failure? := by
  cases hx : x.result with
  | ok a => rw [failure?_bind_of_ok hx, h, failure?_of_ok hx]
  | error e => rw [failure?_bind_of_error hx, failure?_eq_some_iff.mpr hx]

end Run

/-! ## What a source has -/

namespace Source

variable (source : Source) (expected id : String)

def schemaList : List Schema :=
  match source.schemas.result with
  | .ok schemas => schemas
  | .error _ => []

def registry : Registry := .ofSchemas source.schemaList

/-- The ids in the tree, if it can be had. An id may stand there more than once. -/
def ids : List String :=
  match source.tree.result with
  | .ok modules => (endpointIds modules).value
  | .error _ => []

/-- An endpoint that can be fetched and has the expected response, with that response. -/
def answered? : Option (Endpoint × Response) :=
  match (source.endpoint id).result with
  | .ok e => (e.success? expected).map fun success => (e, success)
  | .error _ => none

def missing? : Option MissingResponse :=
  match (source.endpoint id).result with
  | .ok e => if (e.success? expected).isSome then none else some ⟨e.label, expected⟩
  | .error _ => none

def skipped? : Option SkippedEndpoint :=
  (source.missing? expected id).map fun m => ⟨id, m.endpoint, m⟩

/-- The endpoints with the expected response, in the order of the tree. -/
def answered : List (Endpoint × Response) := source.ids.filterMap (source.answered? expected)

section Fetched

variable {source expected id} {e : Endpoint} {success : Response}
  (he : (source.endpoint id).result = .ok e)

include he

theorem answered?_of_success (hs : e.success? expected = some success) :
    source.answered? expected id = some (e, success) := by
  simp only [answered?, he, hs, Option.map_some]

theorem missing?_of_success (hs : e.success? expected = some success) :
    source.missing? expected id = none := by
  simp only [missing?, he, hs, Option.isSome_some, if_true]

theorem answered?_of_missing (hs : e.success? expected = none) :
    source.answered? expected id = none := by
  simp only [answered?, he, hs, Option.map_none]

theorem missing?_of_missing (hs : e.success? expected = none) :
    source.missing? expected id = some ⟨e.label, expected⟩ := by
  simp only [missing?, he, hs, Option.isSome_none, Bool.false_eq_true, if_false]

theorem missing?_eq_none_iff :
    source.missing? expected id = none ↔ ∃ x, source.answered? expected id = some x := by
  cases hs : e.success? expected with
  | some success => simp [missing?_of_success he hs, answered?_of_success he hs]
  | none => simp [missing?_of_missing he hs, answered?_of_missing he hs]

theorem skipped?_of_success (hs : e.success? expected = some success) :
    source.skipped? expected id = none := by
  rw [skipped?, missing?_of_success he hs, Option.map_none]

theorem skipped?_of_missing (hs : e.success? expected = none) :
    source.skipped? expected id = some ⟨id, e.label, ⟨e.label, expected⟩⟩ := by
  rw [skipped?, missing?_of_missing he hs, Option.map_some]

end Fetched

end Source

/-- The namespaces of some endpoints, under the names that a ledger gives them one by one. -/
def namespaces (r : Registry) : Ledger → List (Endpoint × Response) → List EndpointTypes
  | _, [] => []
  | l, (e, success) :: rest =>
    let (name, l) := l.claimEndpoint e.path e.method
    (e.types r name success).value :: namespaces r l rest

def requestFunctions : Ledger → List (Endpoint × Response) → List RequestFunction
  | _, [] => []
  | l, (e, _) :: rest =>
    let (name, l) := l.claimEndpoint e.path e.method
    e.function name :: requestFunctions l rest

namespace Source

variable (source : Source) (expected : String)

def schemaText : String := (declareSchemas source.registry source.schemaList).value.text

def pathsText : String :=
  String.join ((namespaces source.registry .empty (source.answered expected)).map
    EndpointTypes.text)

def functionsText : String :=
  String.join ((requestFunctions .empty (source.answered expected)).map RequestFunction.text)

end Source

/-! ## Stages -/

inductive Stage where
  | schemas
  | tree
  | endpoint (id : String)
  | response (id : String)
  | schemaText
  | pathsText
  | servicesText
deriving DecidableEq, Repr

def endpointStages (id : String) : List Stage := [.endpoint id, .response id]

def textStages : List Stage := [.schemaText, .pathsText, .servicesText]

def Source.stages (source : Source) : List Stage :=
  [.schemas, .tree] ++ source.ids.flatMap endpointStages ++ textStages

def renderFailure? (x : Except TemplateError String) : Option Failure :=
  match x with
  | .ok _ => none
  | .error e => some (.template e)

def Stage.failure? (c : Config) (t : Renderer) (source : Source) : Stage → Option Failure
  | .schemas => source.schemas.failure?
  | .tree => source.tree.failure?
  | .endpoint id => (source.endpoint id).failure?
  | .response id =>
    if c.strict then (source.missing? c.successResponse id).map .missingResponse else none
  | .schemaText => renderFailure? (t.schema source.schemaText)
  | .pathsText => renderFailure? (t.paths (source.pathsText c.successResponse))
  | .servicesText =>
    renderFailure? (t.services (source.functionsText c.successResponse) c.requestImport)

section Stages

variable {c : Config} {t : Renderer} {source : Source} {r : Registry} {ids : List String}
  {n n' : Names} {cs : List Conversion}

theorem failure?_convertEndpoints (n : Names) :
    (convertEndpoints c.rules r source ids n).failure? =
      (ids.flatMap endpointStages).findSome? (Stage.failure? c t source) := by
  -- The names decide what is written and never whether it can be, so the induction is for all.
  induction ids generalizing n with
  | nil => rfl
  | cons id ids ih =>
    rw [convertEndpoints, List.flatMap_cons, List.findSome?_append]
    cases he : (source.endpoint id).result with
    | error f =>
      rw [Run.failure?_bind_of_error he]
      simp [endpointStages, Stage.failure?, Run.failure?, he]
    | ok e =>
      rw [Run.failure?_bind_of_ok he]
      cases hs : e.success? c.rules.successResponse with
      | some success =>
        have hm : source.missing? c.successResponse id = none := Source.missing?_of_success he hs
        have hc := congrArg Run.result (convertEndpoint_of_success r id n hs)
        rw [Run.failure?_bind_of_ok hc, Run.failure?_bind_of_total fun _ => rfl, ih]
        simp [endpointStages, Stage.failure?, Run.failure?, he, hm]
      | none =>
        have hm : source.missing? c.successResponse id = some ⟨e.label, c.successResponse⟩ :=
          Source.missing?_of_missing he hs
        have hc := congrArg Run.result (convertEndpoint_of_missing r id n hs)
        cases ht : c.strict with
        | true =>
          rw [show c.rules.strict = true from ht, if_pos rfl] at hc
          rw [Run.failure?_bind_of_error hc]
          simp [endpointStages, Stage.failure?, Run.failure?, he, hm, ht, Config.rules]
        | false =>
          rw [show c.rules.strict = false from ht, if_neg Bool.false_ne_true] at hc
          rw [Run.failure?_bind_of_ok hc, Run.failure?_bind_of_total fun _ => rfl, ih]
          simp [endpointStages, Stage.failure?, Run.failure?, he, ht]

theorem failure?_convert :
    (convert c.rules source).failure? =
      ([Stage.schemas, .tree] ++ source.ids.flatMap endpointStages).findSome?
        (Stage.failure? c t source) := by
  have hs : Stage.schemas.failure? c t source = source.schemas.failure? := rfl
  have ht : Stage.tree.failure? c t source = source.tree.failure? := rfl
  rw [List.cons_append, List.cons_append, List.nil_append, List.findSome?_cons,
    List.findSome?_cons, hs, ht]
  cases hl : source.schemas.result with
  | error f => rw [convert, Run.failure?_bind_of_error hl, Run.failure?_eq_some_iff.mpr hl]
  | ok schemas =>
    rw [convert, Run.failure?_bind_of_ok hl, Run.failure?_bind_of_ok (Run.result_ofWarned _),
      Run.failure?_of_ok hl]
    cases hm : source.tree.result with
    | error f => rw [Run.failure?_bind_of_error hm, Run.failure?_eq_some_iff.mpr hm]
    | ok modules =>
      have hi : source.ids = (endpointIds modules).value := by simp only [Source.ids, hm]
      rw [Run.failure?_bind_of_ok hm, Run.failure?_bind_of_ok (Run.result_ofWarned _),
        Run.failure?_bind_of_total fun _ => rfl, Run.failure?_of_ok hm, hi]
      exact failure?_convertEndpoints .empty

end Stages

/-! ## Accounts of endpoints -/

section Accounts

variable {rules : ConversionRules} {source : Source} {r : Registry} {ids : List String}
  {n n' : Names} {cs : List Conversion}

theorem Converts.types_eq (h : Converts rules r source ids n cs n') :
    cs.filterMap Conversion.types? =
      namespaces r n.types (ids.filterMap (source.answered? rules.successResponse)) := by
  induction h with
  | nil => rfl
  | convert he hs _ ih =>
    have ha := Source.answered?_of_success he hs
    rw [List.filterMap_cons_some ha, namespaces]
    exact congrArg _ ih
  | skip he hs _ _ ih =>
    have ha := Source.answered?_of_missing he hs
    rw [List.filterMap_cons_none ha]
    exact ih

theorem Converts.functions_eq (h : Converts rules r source ids n cs n') :
    cs.filterMap Conversion.function? =
      requestFunctions n.functions (ids.filterMap (source.answered? rules.successResponse)) := by
  induction h with
  | nil => rfl
  | convert he hs _ ih =>
    have ha := Source.answered?_of_success he hs
    rw [List.filterMap_cons_some ha, requestFunctions]
    exact congrArg _ ih
  | skip he hs _ _ ih =>
    have ha := Source.answered?_of_missing he hs
    rw [List.filterMap_cons_none ha]
    exact ih

theorem Converts.skipped_eq (h : Converts rules r source ids n cs n') :
    cs.filterMap Conversion.skipped? = ids.filterMap (source.skipped? rules.successResponse) := by
  induction h with
  | nil => rfl
  | convert he hs _ ih =>
    rw [List.filterMap_cons_none (Source.skipped?_of_success he hs)]
    exact ih
  | skip he hs _ _ ih =>
    rw [List.filterMap_cons_some (Source.skipped?_of_missing he hs)]
    exact congrArg _ ih

theorem Converts.length_add (h : Converts rules r source ids n cs n') :
    (cs.filterMap Conversion.types?).length + (cs.filterMap Conversion.skipped?).length =
      ids.length := by
  induction h with
  | nil => rfl
  | @convert _ ids _ _ _ _ cs _ _ _ ih =>
    change (cs.filterMap Conversion.types?).length + 1 + (cs.filterMap Conversion.skipped?).length =
      ids.length + 1
    omega
  | @skip _ ids _ _ _ cs _ _ _ _ ih =>
    change (cs.filterMap Conversion.types?).length +
      ((cs.filterMap Conversion.skipped?).length + 1) = ids.length + 1
    omega

theorem declarations_eq {d : Declarations} (h : (convert rules source).result = .ok d) :
    d.schemaCount = source.schemaList.length ∧ d.schemas.text = source.schemaText ∧
      d.pathsText = source.pathsText rules.successResponse ∧
      d.functionsText = source.functionsText rules.successResponse ∧
      d.types.length + d.skipped.length = source.ids.length ∧
      d.skipped = source.ids.filterMap (source.skipped? rules.successResponse) := by
  obtain ⟨schemas, modules, hs, hm, hn, hd, hc⟩ := convert_eq_ok_iff.mp h
  have hl : source.schemaList = schemas := by simp only [Source.schemaList, hs]
  have hi : source.ids = (endpointIds modules).value := by simp only [Source.ids, hm]
  have hr : source.registry = .ofSchemas schemas := congrArg _ hl
  rw [← hi] at hc
  refine ⟨hl ▸ hn, ?_, ?_, ?_, hc.length_add, hc.skipped_eq⟩
  · rw [hd, Source.schemaText, hr, hl]
  · rw [Declarations.pathsText, Declarations.types, hc.types_eq, Source.pathsText, hr]
    rfl
  · rw [Declarations.functionsText, Declarations.functions, hc.functions_eq]
    rfl

end Accounts

section Generation

variable {c : Config} {t : Renderer} {source : Source}

theorem failure?_render {d : Declarations} (h : (convert c.rules source).result = .ok d) :
    (Run.ofExcept ((d.render t c.requestImport).mapError .template)).failure? =
      textStages.findSome? (Stage.failure? c t source) := by
  obtain ⟨-, hs, hp, hf, -, -⟩ := declarations_eq h
  replace hp : d.pathsText = source.pathsText c.successResponse := hp
  replace hf : d.functionsText = source.functionsText c.successResponse := hf
  rw [Declarations.render, hs, hp, hf]
  simp only [textStages, List.findSome?_cons, List.findSome?_nil, Stage.failure?]
  cases t.schema source.schemaText with
  | error x => rfl
  | ok schema =>
    cases t.paths (source.pathsText c.successResponse) with
    | error x => rfl
    | ok paths =>
      cases t.services (source.functionsText c.successResponse) c.requestImport with
      | error x => rfl
      | ok services => rfl

theorem failure?_generate :
    (generate c t source).failure? = source.stages.findSome? (Stage.failure? c t source) := by
  rw [generate, Source.stages, List.findSome?_append, ← failure?_convert]
  cases hd : (convert c.rules source).result with
  | error f => rw [Run.failure?_bind_of_error hd, Run.failure?_eq_some_iff.mpr hd, Option.some_or]
  | ok d =>
    rw [Run.failure?_bind_of_ok hd, Run.failure?_bind_of_total fun _ => rfl, failure?_render hd,
      Run.failure?_of_ok hd, Option.none_or]

/-- The documents and the report of a run account for every endpoint in its tree. -/
structure Accounts (c : Config) (t : Renderer) (source : Source) (documents : Documents)
    (report : Report) : Prop where
  schemas : report.schemas = source.schemaList.length
  endpoints : report.endpoints + report.skipped.length = source.ids.length
  skipped_ids : report.skipped.map SkippedEndpoint.id =
    source.ids.filter fun id => (source.missing? c.successResponse id).isSome
  skipped : report.skipped = source.ids.filterMap (source.skipped? c.successResponse)
  answered : ∀ id ∈ source.ids, source.missing? c.successResponse id = none ↔
    ∃ x, source.answered? c.successResponse id = some x
  schema_text : t.schema source.schemaText = .ok documents.schema
  paths_text : t.paths (source.pathsText c.successResponse) = .ok documents.paths
  services_text : t.services (source.functionsText c.successResponse) c.requestImport =
    .ok documents.services

theorem map_id_filterMap_skipped? (source : Source) (expected : String) (ids : List String) :
    (ids.filterMap (source.skipped? expected)).map SkippedEndpoint.id =
      ids.filter fun id => (source.missing? expected id).isSome := by
  induction ids with
  | nil => rfl
  | cons id ids ih =>
    cases hm : source.missing? expected id with
    | none =>
      have hs : source.skipped? expected id = none := by rw [Source.skipped?, hm, Option.map_none]
      rw [List.filterMap_cons_none hs, ih, List.filter_cons_of_neg (by simp [hm])]
    | some m =>
      have hs : source.skipped? expected id = some ⟨id, m.endpoint, m⟩ := by
        rw [Source.skipped?, hm, Option.map_some]
      rw [List.filterMap_cons_some hs, List.map_cons, ih, List.filter_cons_of_pos (by simp [hm])]

theorem accounts_of_generate {documents : Documents} {report : Report}
    (h : (generate c t source).result = .ok (documents, report)) :
    Accounts c t source documents report := by
  obtain ⟨d, hd, hr, rfl⟩ := generate_eq_ok_iff.mp h
  obtain ⟨hn, hs, hp, hf, hl, hk⟩ := declarations_eq hd
  obtain ⟨hs', hp', hf'⟩ := Declarations.render_eq_ok_iff.mp hr
  have ha : ∀ id ∈ source.ids, source.missing? c.successResponse id = none ↔
      ∃ x, source.answered? c.successResponse id = some x := by
    intro id hi
    have hm : Stage.endpoint id ∈ source.stages :=
      List.mem_append_left _ (List.mem_append_right _
        (List.mem_flatMap.mpr ⟨id, hi, List.mem_cons_self⟩))
    have hg := (failure?_generate (t := t)).symm.trans (Run.failure?_of_ok h)
    obtain ⟨e, he⟩ := Run.failure?_eq_none_iff.mp (List.findSome?_eq_none_iff.mp hg _ hm)
    exact Source.missing?_eq_none_iff he
  exact ⟨hn, hl, (congrArg _ hk).trans (map_id_filterMap_skipped? _ _ _), hk, ha, hs ▸ hs',
    hp ▸ hp', hf ▸ hf'⟩

/-- A run succeeds exactly if no stage fails, and then it accounts for every endpoint. Else it
fails as the first stage does that fails. -/
theorem generate_outcome (c : Config) (t : Renderer) (source : Source) :
    ((∃ documents report, (generate c t source).result = .ok (documents, report)) ↔
      ∀ stage ∈ source.stages, stage.failure? c t source = none) ∧
    (∀ documents report, (generate c t source).result = .ok (documents, report) →
      Accounts c t source documents report) ∧
    ∀ f, (generate c t source).result = .error f ↔
      ∃ before stage after, source.stages = before ++ stage :: after ∧
        (∀ s ∈ before, s.failure? c t source = none) ∧ stage.failure? c t source = some f := by
  refine ⟨?_, fun _ _ => accounts_of_generate, fun f => ?_⟩
  · rw [← List.findSome?_eq_none_iff, ← failure?_generate, Run.failure?_eq_none_iff, Prod.exists]
  · rw [← Run.failure?_eq_some_iff, failure?_generate, List.findSome?_eq_some_iff]
    constructor
    · rintro ⟨before, stage, after, hs, hf, hn⟩
      exact ⟨before, stage, after, hs, hn, hf⟩
    · rintro ⟨before, stage, after, hs, hn, hf⟩
      exact ⟨before, stage, after, hs, hf, hn⟩

/-- Of the four endpoints of the sample one is skipped; a strict run ends there. -/
theorem sample_outcome :
    ∃ documents report, (generate .default .builtIn sampleSource).result = .ok (documents, report) ∧
      Accounts .default .builtIn sampleSource documents report ∧
      report.skipped.map SkippedEndpoint.id = ["2"] ∧ report.endpoints = 3 ∧
      (generate { Config.default with strict := true } .builtIn sampleSource).result =
        .error (.missingResponse ⟨"GET /api/users", "OK"⟩) := by
  obtain ⟨documents, report, h⟩ := generate_sampleSource
  have ha := (generate_outcome .default .builtIn sampleSource).2.1 documents report h
  have hs : report.skipped.map SkippedEndpoint.id = ["2"] := ha.skipped_ids.trans (by decide)
  have hl : report.skipped.length = 1 := by simpa using congrArg List.length hs
  have hi : sampleSource.ids.length = 4 := by decide
  have he := ha.endpoints
  refine ⟨documents, report, h, ha, hs, by omega, ?_⟩
  exact ((generate_outcome _ .builtIn sampleSource).2.2 _).mpr
    ⟨[.schemas, .tree, .endpoint "1", .response "1", .endpoint "2"], .response "2", _, rfl,
      by decide, by decide⟩

end Generation

end ApiTypings
