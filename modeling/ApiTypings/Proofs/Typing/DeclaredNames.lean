import Mathlib
import ApiTypings.Decode.Schema
import ApiTypings.Typing.Schemas

/-! # Names declared for schemas

An alias is named by the interface of its schema and the key of its property, written together. So
two names can be the same although the interfaces differ: keys of one schema that differ in what a
name leaves out, an interface that is named like an alias, and two ways to divide one name.
-/

namespace ApiTypings

open TypeScript

/-! ## Alias names -/

theorem append_left_cancel {t a b : String} (h : t ++ a = t ++ b) : a = b :=
  String.ext (by simpa using congrArg String.toList h)

theorem append_eq_append_iff {a b c d : String} :
    a ++ b = c ++ d ↔ (∃ w, c = a ++ w ∧ b = w ++ d) ∨ ∃ w, a = c ++ w ∧ d = w ++ b := by
  constructor
  · intro h
    have h : a.toList ++ b.toList = c.toList ++ d.toList := by
      simpa using congrArg String.toList h
    refine (List.append_eq_append_iff.mp h).imp ?_ ?_
    · rintro ⟨w, hc, hb⟩
      exact ⟨String.ofList w, String.ext (by simpa using hc), String.ext (by simpa using hb)⟩
    · rintro ⟨w, hc, hb⟩
      exact ⟨String.ofList w, String.ext (by simpa using hc), String.ext (by simpa using hb)⟩
  · rintro (⟨w, rfl, rfl⟩ | ⟨w, rfl, rfl⟩) <;> rw [String.append_assoc]

theorem typeName_append (s t : String) : typeName (s ++ t) = typeName s ++ typeName t := by
  simp [typeName]

theorem typeName_typeName (s : String) : typeName (typeName s) = typeName s := by
  simp [typeName]

namespace Schema

variable (s : Schema)

/-- What the names of the aliases add to the name of the interface. -/
def aliasEnds : List String :=
  s.properties.filterMap fun (key, p) =>
    match p with
    | .text _ (_ :: _) => some (typeName (Text.capitalize key))
    | _ => none

theorem names_aliases :
    s.aliases.map LiteralAlias.name = s.aliasEnds.map (s.interfaceName ++ ·) := by
  rw [aliases, aliasEnds, List.map_filterMap, List.map_filterMap]
  refine List.filterMap_congr fun x _ => ?_
  obtain ⟨key, p⟩ := x
  rcases p with ⟨_, _ | _⟩ | _ | _ | _ | _ | _ | _ | _ <;>
    simp [aliasName, interfaceName, typeName_append, typeName_typeName]

end Schema

def TypeScript.SchemaDeclarations.names (d : SchemaDeclarations) : List String :=
  d.aliases.map LiteralAlias.name ++ d.interfaces.map Interface.name

theorem names_declareSchemas (r : Registry) (schemas : List Schema) :
    (declareSchemas r schemas).value.names =
      (schemas.flatMap fun s => s.aliasEnds.map (s.interfaceName ++ ·)) ++
        schemas.map Schema.interfaceName := by
  simp [declareSchemas, SchemaDeclarations.names, List.map_flatMap, Schema.names_aliases,
    Schema.interface, Function.comp_def]

/-! ## Clashes -/

/-- Schemas whose names do not clash with names that are put together. -/
structure NamesApart (schemas : List Schema) : Prop where
  /-- No schema has two properties with literals whose keys look alike in a name. -/
  keys : ∀ s ∈ schemas, s.aliasEnds.Nodup
  /-- No interface is named like an alias. -/
  interfaces : ∀ s ∈ schemas, ∀ s' ∈ schemas, ∀ w, s'.interfaceName = s.interfaceName ++ w →
    w ∉ s.aliasEnds
  /-- No name of an alias can be divided in two ways. -/
  aliases : ∀ s ∈ schemas, ∀ s' ∈ schemas, ∀ w, w ≠ "" →
    s'.interfaceName = s.interfaceName ++ w → ∀ k ∈ s'.aliasEnds, w ++ k ∉ s.aliasEnds

theorem disjoint_aliases_iff {s s' : Schema} (hn : s.interfaceName ≠ s'.interfaceName) :
    (s.aliasEnds.map (s.interfaceName ++ ·)).Disjoint
        (s'.aliasEnds.map (s'.interfaceName ++ ·)) ↔
      (∀ w, w ≠ "" → s'.interfaceName = s.interfaceName ++ w →
        ∀ k ∈ s'.aliasEnds, w ++ k ∉ s.aliasEnds) ∧
      ∀ w, w ≠ "" → s.interfaceName = s'.interfaceName ++ w →
        ∀ k ∈ s.aliasEnds, w ++ k ∉ s'.aliasEnds := by
  constructor
  · intro hd
    refine ⟨fun w _ h k hk hw => ?_, fun w _ h k hk hw => ?_⟩
    · refine hd (List.mem_map_of_mem hw) (List.mem_map.mpr ⟨k, hk, ?_⟩)
      rw [h, String.append_assoc]
    · refine hd (List.mem_map.mpr ⟨k, hk, ?_⟩) (List.mem_map_of_mem hw)
      rw [h, String.append_assoc]
  · rintro ⟨h, h'⟩ x hx hx'
    obtain ⟨k, hk, rfl⟩ := List.mem_map.mp hx
    obtain ⟨k', hk', he⟩ := List.mem_map.mp hx'
    rcases append_eq_append_iff.mp he with ⟨w, hw, rfl⟩ | ⟨w, hw, rfl⟩
    · refine h' w ?_ hw k hk hk'
      rintro rfl
      exact hn (by simpa using hw)
    · refine h w ?_ hw k' hk' hk
      rintro rfl
      exact hn (by simpa using hw.symm)

theorem disjoint_interfaces_iff {schemas : List Schema} :
    (schemas.flatMap fun s => s.aliasEnds.map (s.interfaceName ++ ·)).Disjoint
        (schemas.map Schema.interfaceName) ↔
      ∀ s ∈ schemas, ∀ s' ∈ schemas, ∀ w, s'.interfaceName = s.interfaceName ++ w →
        w ∉ s.aliasEnds := by
  constructor
  · intro hd s hs s' hs' w h hw
    refine hd (List.mem_flatMap.mpr ⟨s, hs, List.mem_map_of_mem hw⟩) ?_
    exact h ▸ List.mem_map_of_mem hs'
  · intro h x hx hx'
    obtain ⟨s, hs, hx⟩ := List.mem_flatMap.mp hx
    obtain ⟨w, hw, rfl⟩ := List.mem_map.mp hx
    obtain ⟨s', hs', he⟩ := List.mem_map.mp hx'
    exact h s hs s' hs' w he hw

/-- Among schemas with different interfaces, all declared names are distinct exactly if the schemas
keep them apart. -/
theorem nodup_names_declareSchemas_iff {schemas : List Schema}
    (h : (schemas.map Schema.interfaceName).Nodup) (r : Registry) :
    (declareSchemas r schemas).value.names.Nodup ↔ NamesApart schemas := by
  have hp : schemas.Pairwise fun s s' => s.interfaceName ≠ s'.interfaceName := by
    simpa [List.Nodup, List.pairwise_map] using h
  have hk : ∀ s : Schema,
      (s.aliasEnds.map (s.interfaceName ++ ·)).Nodup ↔ s.aliasEnds.Nodup := fun s =>
    List.nodup_map_iff fun _ _ => append_left_cancel
  rw [names_declareSchemas, List.nodup_append', List.nodup_flatMap, disjoint_interfaces_iff]
  simp only [hk, h, true_and]
  constructor
  · rintro ⟨⟨hn, hd⟩, hi⟩
    refine ⟨hn, hi, fun s hs s' hs' w hw he => ?_⟩
    have hne : s.interfaceName ≠ s'.interfaceName := by
      intro hne
      rw [← hne] at he
      exact hw (append_left_cancel (he.symm.trans String.append_empty.symm))
    have : Std.Symm (Function.onFun List.Disjoint fun s : Schema =>
      s.aliasEnds.map (s.interfaceName ++ ·)) := ⟨fun _ _ h => h.symm⟩
    have hd := hd.forall hs hs' fun h => hne (by rw [h])
    exact ((disjoint_aliases_iff hne).mp hd).1 w hw he
  · rintro ⟨hn, hi, ha⟩
    refine ⟨⟨hn, hp.imp_of_mem fun {s s'} hs hs' hne => ?_⟩, hi⟩
    exact (disjoint_aliases_iff hne).mpr
      ⟨fun w hw he => ha s hs s' hs' w hw he, fun w hw he => ha s' hs' s hs w hw he⟩

/-- A schema whose properties all have literals. -/
def literalSchema (name : String) (keys : List String) : Schema where
  id := name
  name := name
  title := name
  description := none
  properties := keys.map fun key => (key, .text ⟨none, false⟩ ["a"])
  required := none

def literalSchemaJson (name : String) (keys : List String) : Json :=
  .object [("id", .string name), ("name", .string name), ("jsonSchema", .object [("properties",
    .object (keys.map fun key =>
      (key, .object [("type", .string "string"), ("enum", .array [.string "a"])])))])]

theorem namesApart_user_order :
    ((["User", "Order"].map fun name => literalSchema name ["status", "kind"]).map
      Schema.interfaceName).Nodup ∧
      NamesApart (["User", "Order"].map fun name => literalSchema name ["status", "kind"]) :=
  ⟨by decide, (nodup_names_declareSchemas_iff (by decide) .empty).mp (by decide +kernel)⟩

/-- Two keys of one schema that differ in the case of their first letter. -/
theorem exists_schemas_not_nodup :
    ¬ ∀ j schemas r, decodeSchemas j = .ok schemas →
      (schemas.map Schema.interfaceName).Nodup →
      (declareSchemas r schemas).value.names.Nodup := by
  intro h
  have hd : decodeSchemas (.array [literalSchemaJson "User" ["status", "Status"]]) =
      .ok [literalSchema "User" ["status", "Status"]] := rfl
  have h := h _ _ .empty hd (by decide)
  revert h
  decide +kernel

/-- An interface that is named like an alias. -/
example : ¬ (declareSchemas .empty
    [literalSchema "User" ["status"], literalSchema "UserStatus" []]).value.names.Nodup := by
  decide +kernel

/-- An alias with two ways to divide its name. -/
example : ¬ (declareSchemas .empty
    [literalSchema "User" ["roleKind"], literalSchema "UserRole" ["kind"]]).value.names.Nodup := by
  decide +kernel

end ApiTypings
