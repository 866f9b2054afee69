import ApiTypings.Decode.Record
import ApiTypings.Json.Writer
import ApiTypings.Model.Property

/-! # Reading property definitions

A definition is read member by member into a draft, and the draft is folded into a shape. A
definition may hold others as its items, as its additional values and as its properties.
-/

namespace ApiTypings

/-- The members of a definition as they are written. -/
structure PropertyDraft where
  types : List String
  description : Option String
  nullable : Option Bool
  values : Option (List Json)
  items : Option Property
  additional : Option Property
  properties : Properties
  required : Option (List String)
  target : Option String

namespace PropertyDraft

def blank : PropertyDraft := ⟨[], none, none, none, none, none, [], none, none⟩

/-- A literal of an enumeration: a text as it is, any other value as compact JSON. -/
def literalText : Json → String
  | .string s => s
  | j => j.write

def notes (d : PropertyDraft) : Notes where
  description := d.description
  nullable := d.nullable.getD false || d.types.contains "null"

/-- The shape is that of the first type other than `null`. -/
def property (d : PropertyDraft) : Property :=
  match d.types.find? fun t => t != "null" with
  | some "string" => .text d.notes ((d.values.getD []).map literalText)
  | some "number" => .number d.notes
  | some "integer" => .integer d.notes
  | some "boolean" => .boolean d.notes
  | some "array" => .array d.notes d.items
  | some "object" => .object d.notes d.additional d.properties d.required
  | _ => match d.target with
    | some t => .reference d.notes t
    | none => .unknown d.notes

end PropertyDraft

/-- A member of a definition, with its readings as a definition and as a map of definitions. -/
structure PropertyView where
  json : Json
  asProperty : Unit → Decoded Property
  asProperties : Unit → Decoded Properties

namespace PropertyView

variable {α : Type}

/-- `null` stands for no value. -/
def orNull (v : PropertyView) (read : Unit → Decoded α) : Decoded (Option α) :=
  if v.json.isNull then .ok none else some <$> read ()

/-- A definition, or a flag that stands for none. -/
def asAdditional (v : PropertyView) : Decoded (Option Property) :=
  if v.json.isNull then .ok none
  else if !v.json.readable then .error .malformed
  else match v.asProperty (), v.json with
    | .ok p, _ => .ok (some p)
    | .error _, .bool _ => .ok none
    | .error _, _ => .error .noAdditional

end PropertyView

def propertyRecord : Record PropertyView PropertyDraft where
  name := "RawProperty"
  fields := [
    ⟨"type", true, fun v d => do return { d with types := ← v.json.asTypeNames }⟩,
    ⟨"description", false, fun v d => do
      return { d with description := ← v.json.orNull Json.asText }⟩,
    ⟨"nullable", false, fun v d => do return { d with nullable := ← v.json.orNull Json.asFlag }⟩,
    ⟨"enum", false, fun v d => do
      return { d with values := ← v.json.orNull (Json.asList Json.asValue) }⟩,
    ⟨"items", false, fun v d => do return { d with items := ← v.orNull v.asProperty }⟩,
    ⟨"additionalProperties", false, fun v d => do return { d with additional := ← v.asAdditional }⟩,
    ⟨"properties", true, fun v d => do
      return { d with properties := (← v.orNull v.asProperties).getD [] }⟩,
    ⟨"required", true, fun v d => do
      return { d with required := ← v.json.orNull (Json.asList Json.asText) }⟩,
    ⟨"$ref", false, fun v d => do return { d with target := ← v.json.orNull Json.asText }⟩]

mutual

def Property.decode : Json → Decoded Property
  | .object members =>
    PropertyDraft.property <$> propertyRecord.readMembers [] .blank (memberViews members)
  | .array items =>
    PropertyDraft.property <$>
      propertyRecord.readItems 0 propertyRecord.fields .blank (itemViews items)
  | j => .error (j.mismatch (.record "RawProperty"))

def memberViews : List (String × Json) → List (String × PropertyView)
  | [] => []
  | (key, j) :: rest =>
    (key, ⟨j, fun _ => Property.decode j, fun _ => Properties.decode j⟩) :: memberViews rest

def itemViews : List Json → List PropertyView
  | [] => []
  | j :: rest => ⟨j, fun _ => Property.decode j, fun _ => Properties.decode j⟩ :: itemViews rest

/-- A map of definitions. Of a repeated name the last definition counts. -/
def Properties.decode : Json → Decoded Properties
  | .object members => mergeEntries <$> decodeEntries members
  | j => .error (j.mismatch .properties)

def decodeEntries : List (String × Json) → Decoded Properties
  | [] => .ok []
  | (key, j) :: rest => do
    let p ← Property.decode j
    let ps ← decodeEntries rest
    return (key, p) :: ps

end

end ApiTypings
