import ApiTypings.Proofs.Decode.Sources
import ApiTypings.Typing.Endpoints

/-! # Members of a request

The members of a request are named by the body, by the path and by the query, one after the other.
No two keys are written alike, and the properties of a body have distinct keys. So a name appears
twice only if two parameters share it or a parameter has the name of a property.
-/

namespace ApiTypings

namespace TypeScript

/-! ## Written names -/

/-- A backslash stands before a quote and before a backslash only, so it can be read back. -/
theorem escapeChar_append_inj {c d : Char} {s t : List Char}
    (h : escapeChar c ++ s = escapeChar d ++ t) : c = d ∧ s = t := by
  unfold escapeChar at h
  split_ifs at h with hc hd hd
  · simpa using h
  · obtain ⟨rfl, -⟩ := List.cons_eq_cons.mp h
    simp at hd
  · obtain ⟨rfl, -⟩ := List.cons_eq_cons.mp h
    simp at hc
  · simpa using h

theorem escapeChar_ne_nil (c : Char) : escapeChar c ≠ [] := by
  unfold escapeChar
  split_ifs <;> simp

theorem escapeChars_injective : Function.Injective escapeChars := by
  intro s t h
  induction s generalizing t with
  | nil =>
    cases t with
    | nil => rfl
    | cons d t => simp [escapeChars, escapeChar_ne_nil] at h
  | cons c s ih =>
    cases t with
    | nil => simp [escapeChars, escapeChar_ne_nil] at h
    | cons d t =>
      obtain ⟨hc, hs⟩ := escapeChar_append_inj h
      rw [hc, ih hs]

theorem literal_injective : Function.Injective literal := by
  intro s t h
  have h : escaped s = escaped t := by simpa [literal, String.ext_iff] using h
  exact String.ext (escapeChars_injective (String.ofList_injective h))

/-- An identifier stands bare, any other name between quotes. -/
theorem memberName_injective : Function.Injective memberName := by
  intro s t h
  have hq : ∀ {s t : String}, isIdentifier s = true → s ≠ literal t := by
    rintro s t hs rfl
    simp [isIdentifier, literal, isNameStart] at hs
  unfold memberName at h
  split_ifs at h with hs ht ht
  · exact h
  · exact absurd h (hq hs)
  · exact absurd h.symm (hq ht)
  · exact literal_injective h

end TypeScript

/-! ## Keys of a request -/

def enabledNames (ps : List Parameter) : List String :=
  (ps.filter Parameter.enabled).map Parameter.name

def Body.keys (b : Body) : List String :=
  if b.isJson then (b.schema.map Property.keys).getD []
  else if b.isForm then enabledNames b.parameters
  else []

namespace Endpoint

def bodyKeys (e : Endpoint) : List String := (e.body.map Body.keys).getD []

def pathNames (e : Endpoint) : List String :=
  enabledNames ((e.parameters.map Parameters.path).getD [])

def queryNames (e : Endpoint) : List String :=
  enabledNames ((e.parameters.map Parameters.query).getD [])

end Endpoint

open TypeScript

variable {r : Registry} {e : Endpoint}

theorem key_memberOf (owner : Option String) (required : Option (List String))
    (x : String × Property) : (memberOf r owner required x).value.key = x.1 := rfl

theorem keys_inlineMembers (p : Property) :
    (inlineMembers r p).value.map Member.key = p.keys := by
  cases p with
  | object _ _ properties required =>
    simp [inlineMembers, Property.keys, key_memberOf, Function.comp_def]
  | _ => rfl

theorem keys_parameterMembers (ps : List Parameter) :
    (parameterMembers r ps).value.map Member.key = enabledNames ps := by
  simp [parameterMembers, parameterMember, enabledNames, Function.comp_def]

theorem keys_bodyExtension (b : Body) :
    (bodyExtension r b).value.members.map Member.key = b.keys := by
  unfold bodyExtension Body.keys
  split_ifs
  · cases b.schema with
    | none => rfl
    | some p => simp [extensionOf, keys_inlineMembers]
  · simp [keys_parameterMembers]
  · rfl

theorem keys_requestType (r : Registry) (e : Endpoint) :
    (requestType r e).value.members.map Member.key =
      e.bodyKeys ++ e.pathNames ++ e.queryNames := by
  unfold requestType Endpoint.bodyKeys Endpoint.pathNames Endpoint.queryNames
  rcases e.body with _ | b <;> rcases e.parameters with _ | ps <;>
    simp [keys_bodyExtension, keys_parameterMembers]

/-- The fields of a form are parameters, and nothing keeps them apart. -/
def Endpoint.HasDistinctFields (e : Endpoint) : Prop :=
  ∀ b, e.body = some b → b.isForm = true → (enabledNames b.parameters).Nodup

theorem nodup_bodyKeys_iff (h : ∀ p, e.definition? .body = some p → p.keys.Nodup) :
    e.bodyKeys.Nodup ↔ e.HasDistinctFields := by
  unfold Endpoint.bodyKeys Endpoint.HasDistinctFields
  rcases hb : e.body with _ | b
  · simp
  · simp only [Option.map_some, Option.getD_some, Option.some.injEq, forall_eq']
    unfold Body.keys
    split_ifs with hj hf
    · have hc : b.contentType = "application/json" := by simpa [Body.isJson] using hj
      have hn : ((b.schema.map Property.keys).getD []).Nodup := by
        cases hs : b.schema with
        | none => exact List.nodup_nil
        | some p => exact h p (by rw [Endpoint.definition?, hb, Option.bind_some, hs])
      simp [hn, Body.isForm, hc]
    · simp [hf]
    · simp [hf]

/-- The names written into the request of an endpoint that was read are distinct exactly if no two
fields of a form, no two parameters of the path and no two of the query share a name, and these and
the properties of the body are apart. -/
theorem nodup_requestType_iff {j : Json} (h : Endpoint.decode j = .ok e) (r : Registry) :
    ((requestType r e).value.members.map fun m => memberName m.key).Nodup ↔
      e.HasDistinctFields ∧ e.pathNames.Nodup ∧ e.queryNames.Nodup ∧
        e.bodyKeys.Disjoint e.pathNames ∧ e.bodyKeys.Disjoint e.queryNames ∧
        e.pathNames.Disjoint e.queryNames := by
  have hk : ((requestType r e).value.members.map fun m => memberName m.key) =
      (e.bodyKeys ++ e.pathNames ++ e.queryNames).map memberName := by
    rw [← keys_requestType r e, List.map_map]
    rfl
  have hb : ∀ p, e.definition? .body = some p → p.keys.Nodup := fun p hp =>
    nodup_keys_of_decode (decode_definition h hp).choose_spec.2
  rw [hk, List.nodup_map_iff memberName_injective, List.nodup_append', List.nodup_append',
    List.disjoint_append_left, nodup_bodyKeys_iff hb]
  tauto

/-- A request to `/users/{id}` whose body has one property. -/
def updateJson (property : String) : Json :=
  .object [("path", .string "/users/\x7bid\x7d"), ("method", .string "put"),
    ("parameters", .object [("path", .array [.object [("name", .string "id"),
      ("required", .bool true), ("type", .string "string")]])]),
    ("requestBody", .object [("type", .string "application/json"),
      ("jsonSchema", .object [("type", .string "object"),
        ("properties", .object [(property, .object [("type", .string "string")])])])])]

def updateEndpoint (property : String) : Endpoint where
  path := "/users/\x7bid\x7d"
  method := "put"
  name := ""
  description := ""
  parameters := some ⟨[⟨"id", true, true, .text ⟨none, false⟩ []⟩], [], [], []⟩
  body := some ⟨"application/json",
    some (.object ⟨none, false⟩ none [(property, .text ⟨none, false⟩ [])] none), []⟩
  responses := []

theorem decode_updateJson (property : String) :
    Endpoint.decode (updateJson property) = .ok (updateEndpoint property) := by
  rfl

theorem nodup_requestType_update :
    Endpoint.decode (updateJson "name") = .ok (updateEndpoint "name") ∧
      ((requestType .empty (updateEndpoint "name")).value.members.map
        fun m => memberName m.key).Nodup := by
  have h := decode_updateJson "name"
  refine ⟨h, (nodup_requestType_iff h .empty).mpr ⟨?_, ?_, ?_, ?_, ?_, ?_⟩⟩
  · rintro b ⟨⟩ hf
    exact absurd hf (by decide)
  all_goals simp [updateEndpoint, Endpoint.pathNames, Endpoint.queryNames, Endpoint.bodyKeys,
    enabledNames, Body.keys, Body.isJson, Property.keys]

/-- A parameter of the path and a property of the body with one name. -/
theorem exists_request_not_nodup :
    ¬ ∀ j e r, Endpoint.decode j = .ok e →
      ((requestType r e).value.members.map fun m => memberName m.key).Nodup := by
  intro h
  have h := h _ _ .empty (decode_updateJson "id")
  revert h
  decide

end ApiTypings
