import ApiTypings.Decode.Endpoint
import ApiTypings.Proofs.Decode.Objects

/-! # Where the definitions of a document are written

The definitions in a list of schemas and in an endpoint are read from values at known places. So
every map of definitions in the result, at any depth, stands for the object at the same place of the
document.
-/

namespace ApiTypings

open Record

/-! ## Schemas -/

theorem definitionPart : schemaRecord.Part "jsonSchema"
    (fun j => j.orDefault .blank (definitionRecord.read .blank))
    (fun a d => { d with definition := a }) SchemaDraft.definition :=
  part_of_component rfl (fun _ _ => rfl) (by simp [schemaRecord]) fun _ _ _ => ⟨rfl, rfl, rfl⟩

theorem schemaPropertiesPart : definitionRecord.Part "properties"
    (fun j => j.orDefault [] Properties.decode)
    (fun a d => { d with properties := a }) DefinitionDraft.properties :=
  part_of_component rfl (fun _ _ => rfl) (by simp [definitionRecord]) fun _ _ _ => ⟨rfl, rfl, rfl⟩

def Json.schemaEntries (j : Json) : List (String × Json) :=
  entries ((schemaRecord.member? "jsonSchema" j).bind (definitionRecord.member? "properties"))

theorem reflects_schema {j : Json} {s : Schema} (h : Schema.decode j = .ok s) :
    Reflects j.schemaEntries s.properties := by
  obtain ⟨d, hd, h⟩ := Decoded.bind_eq_ok_iff.mp h
  obtain ⟨id, -, h⟩ := Decoded.bind_eq_ok_iff.mp h
  obtain rfl := Except.ok.inj h
  have hd := definitionPart.read (by decide) hd
  unfold Json.schemaEntries
  cases hv : schemaRecord.member? "jsonSchema" j with
  | none =>
    rw [hv] at hd
    rw [show d.definition = .blank from hd]
    exact reflects_nil
  | some v =>
    rw [hv] at hd
    rcases Json.orDefault_cases hd with ⟨rfl, hb⟩ | hread
    · rw [hb]
      exact reflects_nil
    · exact reflects_of_holds (schemaPropertiesPart.read (by decide) hread)

/-! ## Endpoints -/

theorem bodySchemaPart : bodyRecord.Part "jsonSchema" (fun j => j.orNull Property.decode)
    (fun a b => { b with schema := a }) Body.schema :=
  part_of_component rfl (fun _ _ => rfl) (by simp [bodyRecord]) fun _ _ _ => ⟨rfl, rfl, rfl⟩

theorem fieldsPart : bodyRecord.Part "parameters" decodeParameters
    (fun a b => { b with parameters := a }) Body.parameters :=
  part_of_component rfl (fun _ _ => rfl) (by simp [bodyRecord]) fun _ _ _ => ⟨rfl, rfl, rfl⟩

theorem responseSchemaPart : responseRecord.Part "jsonSchema" (fun j => j.orNull Property.decode)
    (fun a b => { b with schema := a }) Response.schema :=
  part_of_component rfl (fun _ _ => rfl) (by simp [responseRecord]) fun _ _ _ => ⟨rfl, rfl, rfl⟩

theorem parametersPart : endpointRecord.Part "parameters"
    (fun j => j.orNull (parametersRecord.read ⟨[], [], [], []⟩))
    (fun a d => { d with parameters := a }) EndpointDraft.parameters :=
  part_of_component rfl (fun _ _ => rfl) (by simp [endpointRecord]) fun _ _ _ => ⟨rfl, rfl, rfl⟩

theorem bodyPart : endpointRecord.Part "requestBody"
    (fun j => j.orNull (bodyRecord.read ⟨"", none, []⟩))
    (fun a d => { d with body := a }) EndpointDraft.body :=
  part_of_component rfl (fun _ _ => rfl) (by simp [endpointRecord]) fun _ _ _ => ⟨rfl, rfl, rfl⟩

theorem responsesPart : endpointRecord.Part "responses"
    (fun j => j.orDefault [] (Json.asList (responseRecord.read ⟨"", none⟩)))
    (fun a d => { d with responses := a }) EndpointDraft.responses :=
  part_of_component rfl (fun _ _ => rfl) (by simp [endpointRecord]) fun _ _ _ => ⟨rfl, rfl, rfl⟩

inductive Parameters.Place where
  | path
  | query
  | header
  | cookie
deriving DecidableEq

namespace Parameters

def Place.key : Place → String
  | .path => "path"
  | .query => "query"
  | .header => "header"
  | .cookie => "cookie"

def list (ps : Parameters) : Place → List Parameter
  | .path => ps.path
  | .query => ps.query
  | .header => ps.header
  | .cookie => ps.cookie

def put (ps : Parameters) (xs : List Parameter) : Place → Parameters
  | .path => { ps with path := xs }
  | .query => { ps with query := xs }
  | .header => { ps with header := xs }
  | .cookie => { ps with cookie := xs }

end Parameters

theorem placePart (place : Parameters.Place) : parametersRecord.Part place.key decodeParameters
    (fun a ps => ps.put a place) (·.list place) := by
  cases place <;> exact part_of_component rfl (fun _ _ => rfl)
    (by simp [parametersRecord, Parameters.Place.key, Parameters.put]) fun _ _ _ => ⟨rfl, rfl, rfl⟩

/-- The definition in a parameter: the members that are not those of the parameter. -/
def Parameter.definition : Json → Json
  | .object members => .object (members.filter fun m => (parameterRecord.field? m.1).isNone)
  | j => j

theorem Parameter.decode_definition {j : Json} {x : Parameter} (h : Parameter.decode j = .ok x) :
    Property.decode (Parameter.definition j) = .ok x.schema := by
  cases j with
  | object members =>
    unfold Parameter.decode at h
    dsimp only at h
    split_ifs at h
    · cases h
    · obtain ⟨d, -, h⟩ := Decoded.bind_eq_ok_iff.mp h
      obtain ⟨name, -, h⟩ := Decoded.bind_eq_ok_iff.mp h
      obtain ⟨p, hp, h⟩ := Decoded.bind_eq_ok_iff.mp h
      obtain rfl := Except.ok.inj h
      exact hp
  | _ => cases h

inductive Endpoint.Place where
  | body
  | field (i : ℕ)
  | parameter (place : Parameters.Place) (i : ℕ)
  | response (i : ℕ)

def Endpoint.definition? (e : Endpoint) : Endpoint.Place → Option Property
  | .body => e.body.bind Body.schema
  | .field i => e.body.bind fun b => b.parameters[i]?.map Parameter.schema
  | .parameter place i => e.parameters.bind fun ps => (ps.list place)[i]?.map Parameter.schema
  | .response i => e.responses[i]?.bind Response.schema

def Json.definition? (j : Json) : Endpoint.Place → Option Json
  | .body => (endpointRecord.member? "requestBody" j).bind (bodyRecord.member? "jsonSchema")
  | .field i =>
    ((endpointRecord.member? "requestBody" j).bind fun b =>
      (bodyRecord.member? "parameters" b).bind (item? i)).map Parameter.definition
  | .parameter place i =>
    ((endpointRecord.member? "parameters" j).bind fun ps =>
      (parametersRecord.member? place.key ps).bind (item? i)).map Parameter.definition
  | .response i =>
    ((endpointRecord.member? "responses" j).bind (item? i)).bind
      (responseRecord.member? "jsonSchema")

theorem decode_definition {j : Json} {e : Endpoint} {place : Endpoint.Place} {p : Property}
    (h : Endpoint.decode j = .ok e) (hp : e.definition? place = some p) :
    ∃ i, j.definition? place = some i ∧ Property.decode i = .ok p := by
  obtain ⟨d, hd, h⟩ := Decoded.bind_eq_ok_iff.mp h
  obtain ⟨path, -, h⟩ := Decoded.bind_eq_ok_iff.mp h
  obtain ⟨method, -, h⟩ := Decoded.bind_eq_ok_iff.mp h
  obtain rfl := Except.ok.inj h
  cases place with
  | body =>
    obtain ⟨b, hb, hp⟩ := Option.bind_eq_some_iff.mp hp
    obtain ⟨v, hv, hread⟩ := bodyPart.exists_of_some (by decide) hd rfl hb
    obtain ⟨w, hw, hdec⟩ := bodySchemaPart.exists_of_some (by decide) hread rfl hp
    exact ⟨w, by rw [Json.definition?, hv, Option.bind_some, hw], hdec⟩
  | field i =>
    obtain ⟨b, hb, hp⟩ := Option.bind_eq_some_iff.mp hp
    obtain ⟨x, hx, rfl⟩ := Option.map_eq_some_iff.mp hp
    obtain ⟨v, hv, hread⟩ := bodyPart.exists_of_some (by decide) hd rfl hb
    obtain ⟨w, hw, hdec⟩ := fieldsPart.exists_item (by decide) hread rfl hx
    exact ⟨_, by rw [Json.definition?, hv, Option.bind_some, hw, Option.map_some],
      Parameter.decode_definition hdec⟩
  | parameter place i =>
    obtain ⟨ps, hps, hp⟩ := Option.bind_eq_some_iff.mp hp
    obtain ⟨x, hx, rfl⟩ := Option.map_eq_some_iff.mp hp
    obtain ⟨v, hv, hread⟩ := parametersPart.exists_of_some (by decide) hd rfl hps
    obtain ⟨w, hw, hdec⟩ := (placePart place).exists_item (by decide) hread
      (by cases place <;> rfl) hx
    exact ⟨_, by rw [Json.definition?, hv, Option.bind_some, hw, Option.map_some],
      Parameter.decode_definition hdec⟩
  | response i =>
    obtain ⟨x, hx, hp⟩ := Option.bind_eq_some_iff.mp hp
    obtain ⟨v, hv, hread⟩ := responsesPart.exists_item (by decide) hd rfl hx
    obtain ⟨w, hw, hdec⟩ := responseSchemaPart.exists_of_some (by decide) hread rfl hp
    exact ⟨w, by rw [Json.definition?, hv, Option.bind_some, hw], hdec⟩

/-- Every map of definitions in a list of schemas or in an endpoint, at any depth, stands for the
object at the same place of the document: every key once, in the order in which the keys first
occur, with the definition read from the last value. -/
theorem properties_reflect :
    (∀ j schemas, decodeSchemas j = .ok schemas → ∀ (i : ℕ) s, schemas[i]? = some s →
      ∃ v, j.item? i = some v ∧ Reflects v.schemaEntries s.properties ∧
        ∀ key steps notes additional ps required,
          (s.properties.lookup key).bind (·.descendant? steps) =
            some (.object notes additional ps required) →
          ∃ w, (v.schemaEntries.reverse.lookup key).bind (·.descendant? steps) = some w ∧
            Reflects w.propertyEntries ps) ∧
    ∀ j e, Endpoint.decode j = .ok e → ∀ place steps notes additional ps required,
      (e.definition? place).bind (·.descendant? steps) =
        some (.object notes additional ps required) →
      ∃ w, (j.definition? place).bind (·.descendant? steps) = some w ∧
        Reflects w.propertyEntries ps := by
  constructor
  · intro j schemas h i s hs
    obtain ⟨v, hv, hread⟩ := Json.exists_item_of_asList h hs
    have hr := reflects_schema hread
    refine ⟨v, hv, hr, fun key steps notes additional ps required hp => ?_⟩
    obtain ⟨p, hk, hp⟩ := Option.bind_eq_some_iff.mp hp
    obtain ⟨before, after, hm, -⟩ := List.lookup_eq_some_iff.mp hk
    obtain ⟨earlier, u, later, hu, hl, hdec⟩ := hr.last key p (by simp [hm])
    obtain ⟨w, hw, hdec⟩ := decode_descendant hdec hp
    refine ⟨w, ?_, reflects_properties hdec⟩
    rw [hu, lookup_reverse_last hl, Option.bind_some, hw]
  · intro j e h place steps notes additional ps required hp
    obtain ⟨p, hd, hp⟩ := Option.bind_eq_some_iff.mp hp
    obtain ⟨u, hu, hdec⟩ := decode_definition h hd
    obtain ⟨w, hw, hdec⟩ := decode_descendant hdec hp
    exact ⟨w, by rw [hu, Option.bind_some, hw], reflects_properties hdec⟩

def repeatedJson : Json :=
  .object [("type", .string "array"), ("items", .object [("type", .string "object"),
    ("properties", .object [("x", .object [("type", .string "string")]),
      ("y", .object [("type", .string "number")]), ("x", .object [("type", .string "boolean")])])])]

def repeatedProperties : Properties := [("x", .boolean ⟨none, false⟩), ("y", .number ⟨none, false⟩)]

def repeatedProperty : Property :=
  .array ⟨none, false⟩ (some (.object ⟨none, false⟩ none repeatedProperties none))

theorem repeated_properties_reflect :
    let schemas := Json.array [.object [("id", .string "1"), ("jsonSchema", .object [("properties",
      .object [("b", .object []), ("a", repeatedJson), ("b", repeatedJson), ("a", repeatedJson)])])]]
    let endpoint := Json.object [("path", .string "/a"), ("method", .string "get"),
      ("responses", .array [.object [("name", .string "OK"), ("jsonSchema", repeatedJson)]])]
    decodeSchemas schemas = .ok [⟨"1", "", "", none,
      [("b", repeatedProperty), ("a", repeatedProperty)], none⟩] ∧
    Endpoint.decode endpoint = .ok ⟨"/a", "get", "", "", none, none,
      [⟨"OK", some repeatedProperty⟩]⟩ ∧
    (∃ v, schemas.item? 0 = some v ∧
      ∃ w, (v.schemaEntries.reverse.lookup "b").bind (·.descendant? [.items]) = some w ∧
        Reflects w.propertyEntries repeatedProperties) ∧
    ∃ w, (endpoint.definition? (.response 0)).bind (·.descendant? [.items]) = some w ∧
      Reflects w.propertyEntries repeatedProperties := by
  intro schemas endpoint
  have hs : decodeSchemas schemas = .ok [⟨"1", "", "", none,
    [("b", repeatedProperty), ("a", repeatedProperty)], none⟩] := rfl
  have he : Endpoint.decode endpoint = .ok ⟨"/a", "get", "", "", none, none,
    [⟨"OK", some repeatedProperty⟩]⟩ := rfl
  obtain ⟨hschemas, hendpoint⟩ := properties_reflect
  obtain ⟨v, hv, -, hinner⟩ := hschemas _ _ hs 0 _ rfl
  exact ⟨hs, he, ⟨v, hv, hinner "b" [.items] _ _ _ _ rfl⟩,
    hendpoint _ _ he (.response 0) [.items] _ _ _ _ rfl⟩

end ApiTypings
