import ApiTypings.Decode.Tree
import ApiTypings.Proofs.Decode.Members
import ApiTypings.Proofs.Decode.Sources

/-! # `null` in a record

Every field that may be left out takes `null` for nothing, but for one: the name of a schema has to
be a text if it is written. Without a field that has to be there, a record is incomplete.
-/

namespace ApiTypings

variable {α : Type}

/-! ## Readings of `null` -/

@[simp] theorem Json.isNull_null : Json.null.isNull = true := rfl

@[simp] theorem Json.orNull_null {read : Json → Decoded α} :
    Json.null.orNull read = pure none := rfl

@[simp] theorem Json.orDefault_null {default : α} {read : Json → Decoded α} :
    Json.null.orDefault default read = pure default := rfl

@[simp] theorem Json.asTypeNames_null : Json.null.asTypeNames = pure [] := rfl

@[simp] theorem decodeParameters_null : decodeParameters .null = pure [] := rfl

@[simp] theorem PropertyView.json_ofJson (j : Json) : (PropertyView.ofJson j).json = j := rfl

@[simp] theorem PropertyView.orNull_null {read : Unit → Decoded α} :
    (PropertyView.ofJson .null).orNull read = pure none := rfl

@[simp] theorem PropertyView.asAdditional_null :
    (PropertyView.ofJson .null).asAdditional = pure none := rfl

def NodeView.ofJson (j : Json) : NodeView := ⟨j, fun _ => decodeNodes j⟩

@[simp] theorem NodeView.json_ofJson (j : Json) : (NodeView.ofJson j).json = j := rfl

/-! ## Fields that may be left out -/

open Record

theorem schemaRecord_lenient : schemaRecord.Lenient .null ⟨none, "", .blank⟩ ["id", "name"] := by
  simp [Lenient, silent_iff, schemaRecord]

theorem definitionRecord_lenient : definitionRecord.Lenient .null .blank [] := by
  simp [Lenient, silent_iff, definitionRecord, DefinitionDraft.blank]

theorem propertyRecord_lenient : propertyRecord.Lenient (.ofJson .null) .blank [] := by
  simp [Lenient, silent_iff, propertyRecord, PropertyDraft.blank]

theorem nodeRecord_lenient : nodeRecord.Lenient (.ofJson .null) ⟨none, none, []⟩ [] := by
  simp [Lenient, silent_iff, nodeRecord]
  -- The other two fields beside the children, which are read only if they are not `null`.
  constructor <;> intro w y <;> split_ifs <;> simp

theorem endpointRecord_lenient :
    endpointRecord.Lenient .null ⟨none, none, "", "", none, none, []⟩ ["path", "method"] := by
  simp [Lenient, silent_iff, endpointRecord]

theorem parametersRecord_lenient : parametersRecord.Lenient .null ⟨[], [], [], []⟩ [] := by
  simp [Lenient, silent_iff, parametersRecord]

theorem parameterRecord_lenient : parameterRecord.Lenient .null ⟨none, false, none⟩ ["name"] := by
  simp [Lenient, silent_iff, parameterRecord]

theorem bodyRecord_lenient : bodyRecord.Lenient .null ⟨"", none, []⟩ [] := by
  simp [Lenient, silent_iff, bodyRecord]

theorem responseRecord_lenient : responseRecord.Lenient .null ⟨"", none⟩ [] := by
  simp [Lenient, silent_iff, responseRecord]

/-! ## Fields that have to be there -/

theorem schemaIdPart : schemaRecord.Part "id" (fun j => some <$> j.asIdentifier)
    (fun a d => { d with id := a }) SchemaDraft.id :=
  part_of_demanded rfl (fun _ _ => rfl) (by simp [schemaRecord]) fun _ _ _ => ⟨rfl, rfl, rfl⟩

theorem endpointIdPart :
    endpointIdRecord.Part "id" (fun j => some <$> j.asIdentifier) (fun a _ => a) id :=
  part_of_component rfl (fun _ _ => (bind_pure _).symm) (by simp [endpointIdRecord])
    fun _ _ _ => ⟨rfl, rfl, rfl⟩

theorem pathPart : endpointRecord.Part "path" (fun j => some <$> j.asText)
    (fun a d => { d with path := a }) EndpointDraft.path :=
  part_of_demanded rfl (fun _ _ => rfl) (by simp [endpointRecord]) fun _ _ _ => ⟨rfl, rfl, rfl⟩

theorem methodPart : endpointRecord.Part "method" (fun j => some <$> j.asText)
    (fun a d => { d with method := a }) EndpointDraft.method :=
  part_of_demanded rfl (fun _ _ => rfl) (by simp [endpointRecord]) fun _ _ _ => ⟨rfl, rfl, rfl⟩

theorem parameterNamePart : parameterRecord.Part "name" (fun j => some <$> j.asText)
    (fun a d => { d with name := a }) ParameterDraft.name :=
  part_of_demanded rfl (fun _ _ => rfl) (by simp [parameterRecord]) fun _ _ _ => ⟨rfl, rfl, rfl⟩

theorem demand_eq_ok_iff {field : String} {o : Option α} {a : α} :
    demand field o = .ok a ↔ o = some a := by
  cases o <;> simp [demand]

end ApiTypings
