import ApiTypings.Decode.Property
import ApiTypings.Model.Document

/-! # Reading endpoint details

A parameter is a property definition with a few members of its own beside it. Unlike the other
records it has to be an object.
-/

namespace ApiTypings

structure ParameterDraft where
  name : Option String
  required : Bool
  enabled : Option Bool

def parameterRecord : Record Json ParameterDraft where
  name := "ParamDef"
  fields := [
    ⟨"name", false, fun j d => do return { d with name := some (← j.asText) }⟩,
    ⟨"required", true, fun j d => do return { d with required := ← j.orDefault false Json.asFlag }⟩,
    ⟨"enable", true, fun j d => do return { d with enabled := ← j.orNull Json.asFlag }⟩]

/-- Read a parameter. The members that are not its own form the definition. -/
def Parameter.decode : Json → Decoded Parameter
  | .object members => do
    let others := members.filter fun (key, _) => (parameterRecord.field? key).isNone
    if !Json.readableMembers others then throw .malformed
    let draft ← parameterRecord.readMembers [] ⟨none, false, none⟩ members
    let name ← demand "name" draft.name
    let schema ← Property.decode (.object others)
    return ⟨name, draft.required, draft.enabled.getD true, schema⟩
  | j => .error (j.mismatch (.record "ParamDef"))

def decodeParameters (j : Json) : Decoded (List Parameter) :=
  j.orDefault [] (Json.asList Parameter.decode)

def parametersRecord : Record Json Parameters where
  name := "Parameters"
  fields := [
    ⟨"path", true, fun j d => do return { d with path := ← decodeParameters j }⟩,
    ⟨"query", true, fun j d => do return { d with query := ← decodeParameters j }⟩,
    ⟨"header", true, fun j d => do return { d with header := ← decodeParameters j }⟩,
    ⟨"cookie", true, fun j d => do return { d with cookie := ← decodeParameters j }⟩]

def bodyRecord : Record Json Body where
  name := "RequestBody"
  fields := [
    ⟨"type", true, fun j d => do return { d with contentType := ← j.orDefault "" Json.asText }⟩,
    ⟨"jsonSchema", true, fun j d => do return { d with schema := ← j.orNull Property.decode }⟩,
    ⟨"parameters", true, fun j d => do return { d with parameters := ← decodeParameters j }⟩]

def responseRecord : Record Json Response where
  name := "ResponseDef"
  fields := [
    ⟨"name", true, fun j d => do return { d with name := ← j.orDefault "" Json.asText }⟩,
    ⟨"jsonSchema", true, fun j d => do return { d with schema := ← j.orNull Property.decode }⟩]

structure EndpointDraft where
  path : Option String
  method : Option String
  name : String
  description : String
  parameters : Option Parameters
  body : Option Body
  responses : List Response

def endpointRecord : Record Json EndpointDraft where
  name := "EndpointDetail"
  fields := [
    ⟨"path", false, fun j d => do return { d with path := some (← j.asText) }⟩,
    ⟨"method", false, fun j d => do return { d with method := some (← j.asText) }⟩,
    ⟨"name", true, fun j d => do return { d with name := ← j.orDefault "" Json.asText }⟩,
    ⟨"description", true, fun j d => do
      return { d with description := ← j.orDefault "" Json.asText }⟩,
    ⟨"parameters", true, fun j d => do
      return { d with parameters := ← j.orNull (parametersRecord.read ⟨[], [], [], []⟩) }⟩,
    ⟨"requestBody", true, fun j d => do
      return { d with body := ← j.orNull (bodyRecord.read ⟨"", none, []⟩) }⟩,
    ⟨"responses", true, fun j d => do
      return { d with
        responses := ← j.orDefault [] (Json.asList (responseRecord.read ⟨"", none⟩)) }⟩]

def Endpoint.decode (j : Json) : Decoded Endpoint := do
  let d ← endpointRecord.read ⟨none, none, "", "", none, none, []⟩ j
  let path ← demand "path" d.path
  let method ← demand "method" d.method
  return ⟨path, method, d.name, d.description, d.parameters, d.body, d.responses⟩

end ApiTypings
