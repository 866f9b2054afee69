import ApiTypings.Decode.Record
import ApiTypings.Model.Document

/-! # Reading the endpoint tree -/

namespace ApiTypings

def endpointIdRecord : Record Json (Option String) where
  name := "ApiRef"
  fields := [⟨"id", false, fun j _ => some <$> j.asIdentifier⟩]

def decodeEndpointId (j : Json) : Decoded String := do
  demand "id" (← endpointIdRecord.read none j)

/-- A member of a node, with its reading as a list of nodes. -/
structure NodeView where
  json : Json
  asNodes : Unit → Decoded (List Node)

def nodeRecord : Record NodeView Node where
  name := "EndpointNode"
  fields := [
    ⟨"name", true, fun v n => do return { n with name := ← v.json.orNull Json.asText }⟩,
    ⟨"api", true, fun v n => do return { n with endpoint := ← v.json.orNull decodeEndpointId }⟩,
    ⟨"children", true, fun v n => do
      return { n with children := ← if v.json.isNull then pure [] else v.asNodes () }⟩]

mutual

def Node.decode : Json → Decoded Node
  | .object members => nodeRecord.readMembers [] ⟨none, none, []⟩ (nodeMemberViews members)
  | .array items => nodeRecord.readItems 0 nodeRecord.fields ⟨none, none, []⟩ (nodeItemViews items)
  | j => .error (j.mismatch (.record "EndpointNode"))

def nodeMemberViews : List (String × Json) → List (String × NodeView)
  | [] => []
  | (key, j) :: rest => (key, ⟨j, fun _ => decodeNodes j⟩) :: nodeMemberViews rest

def nodeItemViews : List Json → List NodeView
  | [] => []
  | j :: rest => ⟨j, fun _ => decodeNodes j⟩ :: nodeItemViews rest

def decodeNodes : Json → Decoded (List Node)
  | .array items => decodeNodeItems items
  | j => .error (j.mismatch .sequence)

def decodeNodeItems : List Json → Decoded (List Node)
  | [] => .ok []
  | j :: rest => do
    let n ← Node.decode j
    let ns ← decodeNodeItems rest
    return n :: ns

end

end ApiTypings
