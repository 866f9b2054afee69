import ApiTypings.Proofs.Generation.Outcome
import ApiTypings.Proofs.Typing.Layers
import ApiTypings.Proofs.Typing.References

/-! # What the documents depend on

The types of the schemas depend on the schemas alone. The functions and the account of the endpoints
depend on the tree and on the endpoints alone. The types of the endpoints depend on these and on the
names of the schemas by their ids, so neither the order of the schemas nor anything else in them
matters there.
-/

namespace ApiTypings

open TypeScript Naming

/-! ## Names of schemas -/

def lastName? (schemas : List Schema) (id : String) : Option String :=
  (schemas.reverse.find? fun s => s.id == id).map Schema.name

theorem Registry.name?_ofSchemas (schemas : List Schema) (id : String) :
    (ofSchemas schemas).name? id = lastName? schemas id := by
  rw [name?, entries_ofSchemas, ← List.map_reverse, lastName?]
  induction schemas.reverse with
  | nil => rfl
  | cons s rest ih =>
    rw [List.map_cons, List.lookup_cons, List.find?_cons, BEq.comm, ih]
    cases s.id == id <;> rfl

theorem lastName?_eq_some_iff {schemas : List Schema} (hn : (schemas.map Schema.id).Nodup)
    {id name : String} :
    lastName? schemas id = some name ↔ ∃ s ∈ schemas, s.id = id ∧ s.name = name := by
  rw [← Registry.name?_ofSchemas, Registry.name?_ofSchemas_eq_some_iff]
  constructor
  · rintro ⟨before, s, after, rfl, hi, hs, -⟩
    exact ⟨s, List.mem_append_right before List.mem_cons_self, hi, hs⟩
  · rintro ⟨s, hm, rfl, rfl⟩
    obtain ⟨before, after, rfl⟩ := List.append_of_mem hm
    rw [List.map_append, List.nodup_append', List.map_cons, List.nodup_cons] at hn
    exact ⟨before, s, after, rfl, rfl, rfl, fun s' hs' he =>
      hn.2.1.1 (he ▸ List.mem_map_of_mem hs')⟩

theorem lastName?_perm {schemas schemas' : List Schema} (hp : schemas.Perm schemas')
    (hn : (schemas.map Schema.id).Nodup) (id : String) :
    lastName? schemas id = lastName? schemas' id := by
  have hn' : (schemas'.map Schema.id).Nodup := (hp.map Schema.id).nodup_iff.mp hn
  ext name
  simp only [lastName?_eq_some_iff hn, lastName?_eq_some_iff hn', hp.mem_iff]

/-! ## Registries with the same names -/

section Registries

variable {r r' : Registry} (h : ∀ id, r.name? id = r'.name? id)

include h

theorem resolveReference_congr : resolveReference r = resolveReference r' := by
  funext place reference
  simp only [resolveReference, Registry.resolve?, h]

theorem referenceType_congr : referenceType r = referenceType r' := by
  funext place reference
  simp only [referenceType, resolveReference_congr h]

theorem typeOf_congr : typeOf r = typeOf r' := by
  funext key owner p
  rcases typeOf_cases key owner p with ⟨layers, target, hl⟩ | ⟨-, t, -, ht⟩
  · rw [typeOf_of_leads key r hl, typeOf_of_leads key r' hl, referenceType_congr h]
  · rw [ht, ht]

theorem memberOf_congr (owner : Option String) (required : Option (List String)) :
    memberOf r owner required = memberOf r' owner required := by
  funext x
  simp only [memberOf, typeOf_congr h]

theorem inlineMembers_congr (p : Property) : inlineMembers r p = inlineMembers r' p := by
  unfold inlineMembers
  rw [funext₂ (memberOf_congr h)]

theorem parameterMember_congr : parameterMember r = parameterMember r' := by
  funext p
  simp only [parameterMember, typeOf_congr h]

theorem parameterMembers_congr : parameterMembers r = parameterMembers r' := by
  funext ps
  simp only [parameterMembers, parameterMember_congr h]

theorem extensionOf_congr (place : String) (p : Property) :
    extensionOf r place p = extensionOf r' place p := by
  simp only [extensionOf, extendedSchema, resolveReference_congr h, inlineMembers_congr h]

theorem bodyExtension_congr (b : Body) : bodyExtension r b = bodyExtension r' b := by
  simp only [bodyExtension, extensionOf_congr h, parameterMembers_congr h]

theorem requestType_congr (e : Endpoint) : requestType r e = requestType r' e := by
  simp only [requestType, bodyExtension_congr h, parameterMembers_congr h]

theorem responseType_congr (schema : Option Property) :
    responseType r schema = responseType r' schema := by
  simp only [responseType, extensionOf_congr h, typeOf_congr h]

theorem types_congr (name : String) (e : Endpoint) (success : Response) :
    e.types r name success = e.types r' name success := by
  simp only [Endpoint.types, requestType_congr h, responseType_congr h]

/-- A namespace depends on the names of schemas by their ids and on nothing else in a registry. -/
theorem namespaces_congr (l : Ledger) (xs : List (Endpoint × Response)) :
    namespaces r l xs = namespaces r' l xs := by
  induction xs generalizing l with
  | nil => rfl
  | cons x xs ih => simp only [namespaces, types_congr h, ih]

end Registries

/-! ## Runs on two sources -/

namespace Source

variable {source source' : Source} (expected : String)

theorem schemaList_of_ok {schemas : List Schema} (h : source.schemas.result = .ok schemas) :
    source.schemaList = schemas := by
  simp only [schemaList, h]

theorem schemaList_congr (h : source.schemas.result = source'.schemas.result) :
    source.schemaList = source'.schemaList := by
  simp only [schemaList, h]

theorem schemaText_congr (h : source.schemaList = source'.schemaList) :
    source.schemaText = source'.schemaText := by
  simp only [schemaText, registry, h]

/-- Sources that differ in their schemas only. -/
structure SharesEndpoints (source source' : Source) : Prop where
  tree : source.tree.result = source'.tree.result
  endpoint : ∀ id, (source.endpoint id).result = (source'.endpoint id).result

namespace SharesEndpoints

variable (h : source.SharesEndpoints source')

include h

theorem ids_eq : source.ids = source'.ids := by
  simp only [ids, h.tree]

theorem answered_eq : source.answered expected = source'.answered expected := by
  have ha : source.answered? expected = source'.answered? expected := by
    funext id
    simp only [answered?, h.endpoint]
  rw [answered, answered, ha, h.ids_eq]

theorem skipped?_eq : source.skipped? expected = source'.skipped? expected := by
  funext id
  simp only [skipped?, missing?, h.endpoint]

theorem functionsText_eq : source.functionsText expected = source'.functionsText expected := by
  simp only [functionsText, h.answered_eq]

theorem pathsText_eq
    (hn : ∀ id, lastName? source.schemaList id = lastName? source'.schemaList id) :
    source.pathsText expected = source'.pathsText expected := by
  have hr : ∀ id, source.registry.name? id = source'.registry.name? id := fun id => by
    simp only [registry, Registry.name?_ofSchemas, hn]
  rw [pathsText, pathsText, h.answered_eq, namespaces_congr hr]

end SharesEndpoints

end Source

/-- Two runs that succeed under one configuration. Equal schemas give equal types of schemas. Equal
trees and endpoints give equal functions and an equal account of the endpoints, and equal types of
endpoints if every id has the same name in both lists of schemas, as it has in two orders of schemas
with distinct ids. -/
theorem generate_independent {c : Config} {t : Renderer} {source source' : Source}
    {documents documents' : Documents} {report report' : Report}
    (h : (generate c t source).result = .ok (documents, report))
    (h' : (generate c t source').result = .ok (documents', report')) :
    (source.schemas.result = source'.schemas.result → documents.schema = documents'.schema) ∧
      (source.SharesEndpoints source' →
        documents.services = documents'.services ∧ report.endpoints = report'.endpoints ∧
        report.skipped = report'.skipped ∧
        ∀ schemas schemas', source.schemas.result = .ok schemas →
          source'.schemas.result = .ok schemas' →
          ((∀ id, lastName? schemas id = lastName? schemas' id) →
            documents.paths = documents'.paths) ∧
          (schemas.Perm schemas' → (schemas.map Schema.id).Nodup →
            documents.paths = documents'.paths)) := by
  have ha := accounts_of_generate h
  have ha' := accounts_of_generate h'
  refine ⟨fun hs => ?_, fun he => ?_⟩
  · have ht := Source.schemaText_congr (Source.schemaList_congr hs)
    exact Except.ok.inj (ha.schema_text.symm.trans (ht ▸ ha'.schema_text))
  · have hk : report.skipped = report'.skipped := by
      rw [ha.skipped, ha'.skipped, he.ids_eq, he.skipped?_eq]
    have hn : report.endpoints = report'.endpoints := by
      have hl := ha.endpoints
      have hl' := ha'.endpoints
      rw [he.ids_eq, hk] at hl
      omega
    have hf := he.functionsText_eq c.successResponse
    have hp : (∀ id, lastName? source.schemaList id = lastName? source'.schemaList id) →
        documents.paths = documents'.paths := fun hn =>
      Except.ok.inj (ha.paths_text.symm.trans (he.pathsText_eq _ hn ▸ ha'.paths_text))
    refine ⟨Except.ok.inj (ha.services_text.symm.trans (hf ▸ ha'.services_text)), hn, hk, ?_⟩
    intro schemas schemas' hs hs'
    rw [Source.schemaList_of_ok hs, Source.schemaList_of_ok hs'] at hp
    exact ⟨hp, fun hq hd => hp (lastName?_perm hq hd)⟩

def sampleSchemas : List Schema :=
  ["User", "Order"].map fun name => ⟨"id" ++ name, name, name, none, [], none⟩

def sampleDetail (name : String) : Endpoint :=
  ⟨"/api", "get", name, "", none, none, [⟨"OK", some (.reference ⟨none, false⟩ ("id" ++ name))⟩]⟩

/-- Endpoints that refer to the schemas in some order. -/
def twoSchemaSource (schemas : List Schema) (names : List String) : Source where
  schemas := pure schemas
  tree := pure [⟨some "all", none, names.map fun name => ⟨none, some name, []⟩⟩]
  endpoint name := pure (sampleDetail name)

/-- The same schemas with other endpoints, and the same endpoints with the schemas in reverse. -/
theorem twoSchemaSource_independent :
    ∃ d d₁ d₂ report report₁ report₂,
      (generate .default .builtIn (twoSchemaSource sampleSchemas ["Order", "User"])).result =
        .ok (d, report) ∧
      (generate .default .builtIn (twoSchemaSource sampleSchemas ["User"])).result =
        .ok (d₁, report₁) ∧
      (generate .default .builtIn
        (twoSchemaSource sampleSchemas.reverse ["Order", "User"])).result = .ok (d₂, report₂) ∧
      d.schema = d₁.schema ∧ d.paths = d₂.paths ∧ d.services = d₂.services ∧
      report.skipped = report₂.skipped := by
  obtain ⟨d, report, h⟩ := exists_documents_of_isOk .default .builtIn
    (twoSchemaSource sampleSchemas ["Order", "User"]) (by decide +kernel)
  obtain ⟨d₁, report₁, h₁⟩ := exists_documents_of_isOk .default .builtIn
    (twoSchemaSource sampleSchemas ["User"]) (by decide +kernel)
  obtain ⟨d₂, report₂, h₂⟩ := exists_documents_of_isOk .default .builtIn
    (twoSchemaSource sampleSchemas.reverse ["Order", "User"]) (by decide +kernel)
  obtain ⟨hv, -, hk, hp⟩ := (generate_independent h h₂).2 ⟨rfl, fun _ => rfl⟩
  exact ⟨d, d₁, d₂, report, report₁, report₂, h, h₁, h₂, (generate_independent h h₁).1 rfl,
    (hp _ _ rfl rfl).2 (List.reverse_perm _).symm (by decide), hv, hk⟩

end ApiTypings
