import ApiTypings.Decode.Property
import ApiTypings.Model.Document

/-! # Reading schemas

The definition of a schema stands in a record of its own. Its title is used if there is one
that is not empty, else the name of the schema.
-/

namespace ApiTypings

structure DefinitionDraft where
  title : Option String
  description : Option String
  properties : Properties
  required : Option (List String)

def DefinitionDraft.blank : DefinitionDraft := ⟨none, none, [], none⟩

def definitionRecord : Record Json DefinitionDraft where
  name := "RawJsonSchema"
  fields := [
    ⟨"title", false, fun j d => do return { d with title := ← j.orNull Json.asText }⟩,
    ⟨"description", false, fun j d => do return { d with description := ← j.orNull Json.asText }⟩,
    ⟨"properties", true, fun j d => do
      return { d with properties := ← j.orDefault [] Properties.decode }⟩,
    ⟨"required", true, fun j d => do
      return { d with required := ← j.orNull (Json.asList Json.asText) }⟩]

structure SchemaDraft where
  id : Option String
  name : String
  definition : DefinitionDraft

def schemaRecord : Record Json SchemaDraft where
  name := "RawSchema"
  fields := [
    ⟨"id", false, fun j d => do return { d with id := some (← j.asIdentifier) }⟩,
    ⟨"name", true, fun j d => do return { d with name := ← j.asText }⟩,
    ⟨"jsonSchema", true, fun j d => do
      return { d with definition := ← j.orDefault .blank (definitionRecord.read .blank) }⟩]

def SchemaDraft.schema (d : SchemaDraft) : Decoded Schema := do
  let id ← demand "id" d.id
  return {
    id
    name := d.name
    title := (d.definition.title.filter fun t => !t.isEmpty).getD d.name
    description := d.definition.description
    properties := d.definition.properties
    required := d.definition.required }

def Schema.decode (j : Json) : Decoded Schema := do
  (← schemaRecord.read ⟨none, "", .blank⟩ j).schema

def decodeSchemas : Json → Decoded (List Schema) := Json.asList Schema.decode

end ApiTypings
