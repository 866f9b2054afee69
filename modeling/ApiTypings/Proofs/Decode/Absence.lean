import ApiTypings.Decode.Envelope
import ApiTypings.Proofs.Decode.Nulls

/-! # `null` and absence

A member that may be left out can be written as `null` instead, at any depth of a document, and the
document is read alike. The name of a schema is the exception: with `null` in its place nothing of
the document is read.
-/

namespace ApiTypings

/-! ## Shapes -/

inductive Shape where
  | schemas
  | schema
  | definition
  | properties
  | property
  | nodes
  | node
  | endpointId
  | endpoint
  | parameters
  | parameterList
  | parameter
  | body
  | responses
  | response
deriving DecidableEq

namespace Shape

def Value : Shape → Type
  | schemas => List Schema
  | schema => Schema
  | definition => DefinitionDraft
  | properties => Properties
  | property => Property
  | nodes => List Node
  | node => Node
  | endpointId => String
  | endpoint => Endpoint
  | parameters => Parameters
  | parameterList => List Parameter
  | parameter => Parameter
  | body => Body
  | responses => List Response
  | response => Response

def decode : (s : Shape) → Json → Decoded s.Value
  | schemas => decodeSchemas
  | schema => Schema.decode
  | definition => definitionRecord.read .blank
  | properties => Properties.decode
  | property => Property.decode
  | nodes => decodeNodes
  | node => Node.decode
  | endpointId => decodeEndpointId
  | endpoint => Endpoint.decode
  | parameters => parametersRecord.read ⟨[], [], [], []⟩
  | parameterList => Json.asList Parameter.decode
  | parameter => Parameter.decode
  | body => bodyRecord.read ⟨"", none, []⟩
  | responses => Json.asList (responseRecord.read ⟨"", none⟩)
  | response => responseRecord.read ⟨"", none⟩

/-- The members that an object of a shape has a meaning for. In a parameter these are its own and
those of its definition. -/
def fields : Shape → List String
  | schema => schemaRecord.fields.map Field.name
  | definition => definitionRecord.fields.map Field.name
  | property => propertyRecord.fields.map Field.name
  | node => nodeRecord.fields.map Field.name
  | endpointId => endpointIdRecord.fields.map Field.name
  | endpoint => endpointRecord.fields.map Field.name
  | parameters => parametersRecord.fields.map Field.name
  | parameter => parameterRecord.fields.map Field.name ++ propertyRecord.fields.map Field.name
  | body => bodyRecord.fields.map Field.name
  | response => responseRecord.fields.map Field.name
  | schemas | properties | nodes | parameterList | responses => []

inductive Member : Shape → String → Shape → Prop where
  | definition : Member schema "jsonSchema" definition
  | properties : Member definition "properties" properties
  | property (key : String) : Member properties key property
  | items : Member property "items" property
  | additional : Member property "additionalProperties" property
  | ownProperties : Member property "properties" properties
  | endpointId : Member node "api" endpointId
  | children : Member node "children" nodes
  | parameters : Member endpoint "parameters" parameters
  | body : Member endpoint "requestBody" body
  | responses : Member endpoint "responses" responses
  | place (place : Parameters.Place) : Member parameters place.key parameterList
  | parameter {key : String} {s : Shape} (h : Member property key s) : Member parameter key s
  | bodyDefinition : Member body "jsonSchema" property
  | form : Member body "parameters" parameterList
  | responseDefinition : Member response "jsonSchema" property

inductive Item : Shape → Shape → Prop where
  | schema : Item schemas schema
  | node : Item nodes node
  | parameter : Item parameterList parameter
  | response : Item responses response

/-- A member with a meaning that some object of the shape is read without. -/
def CanLack (p : Shape) (key : String) : Prop :=
  key ∈ p.fields ∧ ∃ members x, key ∉ members.map Prod.fst ∧ p.decode (.object members) = .ok x

/-- A value of shape `s` in which an object of shape `p`, at some depth, lacks a member, and the
same value with `null` for this member. -/
inductive NullAdded (p : Shape) (key : String) : Shape → Json → Json → Prop where
  | here (before after : List (String × Json)) (h : key ∉ (before ++ after).map Prod.fst) :
    NullAdded p key p (.object (before ++ after)) (.object (before ++ (key, .null) :: after))
  | member {s t : Shape} {k : String} {j j' : Json} (before after : List (String × Json))
    (hm : Member s k t) (h : NullAdded p key t j j') :
    NullAdded p key s (.object (before ++ (k, j) :: after)) (.object (before ++ (k, j') :: after))
  | item {s t : Shape} {j j' : Json} (before after : List Json) (hi : Item s t)
    (h : NullAdded p key t j j') :
    NullAdded p key s (.array (before ++ j :: after)) (.array (before ++ j' :: after))

end Shape

open Shape

variable {α : Type} {s t p : Shape} {key : String} {j j' : Json}
  {before after members : List (String × Json)}

/-! ## Members that are needed -/

namespace Shape

/-- The members that an object of a shape is never read without. -/
def needed : Shape → List String
  | schema => ["id"]
  | endpointId => ["id"]
  | endpoint => ["path", "method"]
  | parameter => ["name"]
  | _ => []

theorem CanLack.not_mem_needed (h : p.CanLack key) : key ∉ p.needed := by
  obtain ⟨-, members, x, hk, hx⟩ := h
  intro hn
  cases p with
  | schema =>
    obtain rfl := List.mem_singleton.mp hn
    obtain ⟨d, hd, hx⟩ := Decoded.bind_eq_ok_iff.mp hx
    obtain ⟨id, hid, -⟩ := Decoded.bind_eq_ok_iff.mp hx
    cases (schemaIdPart.eq_of_not_mem hk hd).symm.trans (demand_eq_ok_iff.mp hid)
  | endpointId =>
    obtain rfl := List.mem_singleton.mp hn
    obtain ⟨d, hd, hx⟩ := Decoded.bind_eq_ok_iff.mp hx
    cases (endpointIdPart.eq_of_not_mem hk hd).symm.trans (demand_eq_ok_iff.mp hx)
  | endpoint =>
    obtain ⟨d, hd, hx⟩ := Decoded.bind_eq_ok_iff.mp hx
    obtain ⟨path, hpath, hx⟩ := Decoded.bind_eq_ok_iff.mp hx
    obtain ⟨method, hmethod, -⟩ := Decoded.bind_eq_ok_iff.mp hx
    simp only [needed, List.mem_cons, List.not_mem_nil, or_false] at hn
    rcases hn with rfl | rfl
    · cases (pathPart.eq_of_not_mem hk hd).symm.trans (demand_eq_ok_iff.mp hpath)
    · cases (methodPart.eq_of_not_mem hk hd).symm.trans (demand_eq_ok_iff.mp hmethod)
  | parameter =>
    obtain rfl := List.mem_singleton.mp hn
    change Parameter.decode (.object members) = .ok x at hx
    unfold Parameter.decode at hx
    dsimp only at hx
    split_ifs at hx
    · cases hx
    · obtain ⟨d, hd, hx⟩ := Decoded.bind_eq_ok_iff.mp hx
      obtain ⟨name, hname, -⟩ := Decoded.bind_eq_ok_iff.mp hx
      cases (parameterNamePart.eq_of_not_mem hk hd).symm.trans (demand_eq_ok_iff.mp hname)
  | _ => cases hn

end Shape

/-! ## The member itself -/

theorem Property.decode_object (members : List (String × Json)) :
    Property.decode (.object members) = PropertyDraft.property <$>
      propertyRecord.readMembers [] .blank (members.map fun m => (m.1, .ofJson m.2)) := by
  have hviews : memberViews members = members.map fun m => (m.1, .ofJson m.2) := by
    induction members with
    | nil => rfl
    | cons m members ih => exact congrArg (List.cons _) ih
  rw [Property.decode, hviews]

theorem Node.decode_object (members : List (String × Json)) :
    Node.decode (.object members) =
      nodeRecord.readMembers [] ⟨none, none, []⟩ (members.map fun m => (m.1, .ofJson m.2)) := by
  have hviews : nodeMemberViews members = members.map fun m => (m.1, .ofJson m.2) := by
    induction members with
    | nil => rfl
    | cons m members ih => exact congrArg (List.cons _) ih
  rw [Node.decode, hviews]

theorem Property.decode_insert_null (hp : key ∈ propertyRecord.fields.map Field.name)
    (hk : key ∉ (before ++ after).map Prod.fst) :
    Property.decode (.object (before ++ (key, .null) :: after)) =
      Property.decode (.object (before ++ after)) := by
  simp only [decode_object, List.map_append, List.map_cons]
  refine congrArg _ (propertyRecord_lenient.readMembers_insert List.not_mem_nil hp
    List.not_mem_nil ?_)
  simpa using hk

theorem Parameter.decode_insert_null (hp : key ∈ parameter.fields) (hn : key ≠ "name")
    (hk : key ∉ (before ++ after).map Prod.fst) :
    Parameter.decode (.object (before ++ (key, .null) :: after)) =
      Parameter.decode (.object (before ++ after)) := by
  -- The member is one of the parameter itself or one of its definition, never both.
  cases hf : parameterRecord.field? key with
  | some f =>
    have hown : key ∈ parameterRecord.fields.map Field.name := by
      obtain ⟨hm, rfl⟩ := Record.field?_eq_some hf
      exact List.mem_map_of_mem hm
    have hr := parameterRecord_lenient.readMembers_insert (by simpa using hn) hown
      List.not_mem_nil hk
    simp only [Parameter.decode, List.filter_append, List.filter_cons, hf, Option.isNone_some,
      Bool.false_eq_true, if_false, hr]
  | none =>
    have hdefinition : key ∈ propertyRecord.fields.map Field.name := by
      refine (List.mem_append.mp hp).resolve_left fun hown => ?_
      obtain ⟨f, hm, rfl⟩ := List.mem_map.mp hown
      simpa using List.find?_eq_none.mp hf f hm
    have hothers : key ∉ ((before ++ after).filter fun m =>
        (parameterRecord.field? m.1).isNone).map Prod.fst :=
      fun hm => hk ((List.filter_sublist.map Prod.fst).subset hm)
    rw [List.filter_append] at hothers
    have hd := Property.decode_insert_null hdefinition hothers
    simp only [Parameter.decode, List.filter_append, List.filter_cons, hf, Option.isNone_none,
      if_true, Json.readableMembers_append, Json.readableMembers, Json.readable, Bool.true_and,
      Record.readMembers_skip hf, hd]

/-- A member that is not needed can be written as `null`, except for the name of a schema. -/
theorem Shape.decode_insert_null (hp : key ∈ p.fields) (hn : key ∉ p.needed)
    (he : (p, key) ≠ (schema, "name")) (hk : key ∉ (before ++ after).map Prod.fst) :
    p.decode (.object (before ++ (key, .null) :: after)) =
      p.decode (.object (before ++ after)) := by
  cases p with
  | schema =>
    have hn : key ∉ ["id", "name"] := by simp_all [needed]
    exact congrArg (· >>= SchemaDraft.schema)
      (schemaRecord_lenient.readMembers_insert hn hp List.not_mem_nil hk)
  | definition => exact definitionRecord_lenient.readMembers_insert hn hp List.not_mem_nil hk
  | property => exact Property.decode_insert_null hp hk
  | node =>
    change Node.decode _ = Node.decode _
    simp only [Node.decode_object, List.map_append, List.map_cons]
    refine nodeRecord_lenient.readMembers_insert hn hp List.not_mem_nil ?_
    simpa using hk
  | endpointId => exact absurd hp hn
  | endpoint =>
    exact congrArg (· >>= _) (endpointRecord_lenient.readMembers_insert hn hp List.not_mem_nil hk)
  | parameters => exact parametersRecord_lenient.readMembers_insert hn hp List.not_mem_nil hk
  | parameter => exact Parameter.decode_insert_null hp (by simpa [needed] using hn) hk
  | body => exact bodyRecord_lenient.readMembers_insert hn hp List.not_mem_nil hk
  | response => exact responseRecord_lenient.readMembers_insert hn hp List.not_mem_nil hk
  | schemas | properties | nodes | parameterList | responses => cases hp

/-! ## Values inside others -/

theorem Json.orNull_of_isContainer (hj : j.IsContainer) (read : Json → Decoded α) :
    j.orNull read = some <$> read j := by
  cases j with
  | object ms => rfl
  | array js => rfl
  | _ => cases hj

theorem Json.isNull_of_isContainer (hj : j.IsContainer) : j.isNull = false := by
  cases j <;> first | rfl | cases hj

theorem PropertyView.asAdditional_of_isContainer (hj : j.IsContainer) :
    (ofJson j).asAdditional =
      if !j.readable then .error .malformed
      else match Property.decode j with
        | .ok p => .ok (some p)
        | .error _ => .error .noAdditional := by
  simp only [asAdditional, ofJson, Json.isNull_of_isContainer hj, Bool.false_eq_true, if_false]
  cases Property.decode j with
  | ok p => rfl
  | error e =>
    cases j with
    | bool b => cases hj
    | _ => rfl

structure Shape.Alike (s : Shape) (j j' : Json) : Prop where
  isContainer : j.IsContainer
  isContainer' : j'.IsContainer
  readable : j'.readable = j.readable
  decode : s.decode j' = s.decode j

namespace Shape.Alike

theorem orNull (h : s.Alike j j') : j'.orNull s.decode = j.orNull s.decode := by
  rw [Json.orNull_of_isContainer h.isContainer, Json.orNull_of_isContainer h.isContainer',
    h.decode]

theorem orNull_view (h : s.Alike j j') :
    (PropertyView.ofJson j').orNull (fun _ => s.decode j') =
      (PropertyView.ofJson j).orNull (fun _ => s.decode j) := by
  rw [PropertyView.orNull_ofJson, PropertyView.orNull_ofJson, h.orNull]

theorem orDefault (h : s.Alike j j') (default : s.Value) :
    j'.orDefault default s.decode = j.orDefault default s.decode := by
  rw [Json.orDefault, Json.orDefault, h.orNull]

theorem asAdditional (h : property.Alike j j') :
    (PropertyView.ofJson j').asAdditional = (PropertyView.ofJson j).asAdditional := by
  have hdecode : Property.decode j' = Property.decode j := h.decode
  rw [PropertyView.asAdditional_of_isContainer h.isContainer,
    PropertyView.asAdditional_of_isContainer h.isContainer', h.readable, hdecode]

theorem children (h : nodes.Alike j j') (n : Node) :
    (do return { n with children := ← if j'.isNull then pure [] else decodeNodes j' } :
      Decoded Node) =
    do return { n with children := ← if j.isNull then pure [] else decodeNodes j } := by
  have hdecode : decodeNodes j' = decodeNodes j := h.decode
  rw [Json.isNull_of_isContainer h.isContainer, Json.isNull_of_isContainer h.isContainer',
    hdecode]

end Shape.Alike

theorem decodeEntries_congr (h : Property.decode j' = Property.decode j) :
    decodeEntries (before ++ (key, j') :: after) = decodeEntries (before ++ (key, j) :: after) := by
  induction before with
  | nil => simp only [List.nil_append, decodeEntries, h]
  | cons m before ih =>
    obtain ⟨k, v⟩ := m
    simp only [List.cons_append, decodeEntries, ih]

theorem Property.decode_member (hm : Member property key t) (h : t.Alike j j') :
    Property.decode (.object (before ++ (key, j') :: after)) =
      Property.decode (.object (before ++ (key, j) :: after)) := by
  simp only [decode_object, List.map_append, List.map_cons]
  refine congrArg _ ?_
  cases hm with
  | items => exact Record.readMembers_congr rfl fun x => congrArg (· >>= _) h.orNull_view
  | additional => exact Record.readMembers_congr rfl fun x => congrArg (· >>= _) h.asAdditional
  | ownProperties => exact Record.readMembers_congr rfl fun x => congrArg (· >>= _) h.orNull_view

theorem Parameter.decode_member (hm : Member property key t) (h : t.Alike j j') :
    Parameter.decode (.object (before ++ (key, j') :: after)) =
      Parameter.decode (.object (before ++ (key, j) :: after)) := by
  have hf : parameterRecord.field? key = none := by cases hm <;> rfl
  simp only [Parameter.decode, List.filter_append, List.filter_cons, hf, Option.isNone_none,
    if_true, Json.readableMembers_append, Json.readableMembers, h.readable,
    Record.readMembers_skip hf, Property.decode_member hm h]

theorem Shape.decode_member (hm : Member s key t) (h : t.Alike j j') :
    s.decode (.object (before ++ (key, j') :: after)) =
      s.decode (.object (before ++ (key, j) :: after)) := by
  cases hm with
  | definition =>
    exact congrArg (· >>= SchemaDraft.schema) (Record.readMembers_congr rfl fun x =>
      congrArg (· >>= _) (h.orDefault DefinitionDraft.blank))
  | property => exact congrArg (mergeEntries <$> ·) (decodeEntries_congr h.decode)
  | items => exact Property.decode_member .items h
  | additional => exact Property.decode_member .additional h
  | ownProperties => exact Property.decode_member .ownProperties h
  | parameter hm => exact Parameter.decode_member hm h
  | endpointId =>
    change Node.decode _ = Node.decode _
    simp only [Node.decode_object, List.map_append, List.map_cons]
    exact Record.readMembers_congr rfl fun x => congrArg (· >>= _) h.orNull
  | children =>
    change Node.decode _ = Node.decode _
    simp only [Node.decode_object, List.map_append, List.map_cons]
    exact Record.readMembers_congr rfl fun x => h.children x
  -- An endpoint is read as a draft before it is checked, the other records as they are.
  | parameters | body =>
    exact congrArg (· >>= _) (Record.readMembers_congr rfl fun x => congrArg (· >>= _) h.orNull)
  | responses =>
    exact congrArg (· >>= _) (Record.readMembers_congr rfl fun x =>
      congrArg (· >>= _) (h.orDefault []))
  | bodyDefinition | responseDefinition =>
    exact Record.readMembers_congr rfl fun x => congrArg (· >>= _) h.orNull
  | properties | form =>
    exact Record.readMembers_congr rfl fun x => congrArg (· >>= _) (h.orDefault [])
  | place place =>
    cases place <;>
      exact Record.readMembers_congr rfl fun x => congrArg (· >>= _) (h.orDefault [])

theorem decodeNodeItems_eq_mapM (items : List Json) :
    decodeNodeItems items = items.mapM Node.decode := by
  induction items with
  | nil => rfl
  | cons j items ih => rw [decodeNodeItems, List.mapM_cons, ih]

theorem Shape.exists_decode_array (hi : Item s t) :
    ∃ build : List t.Value → s.Value, ∀ items : List Json,
      s.decode (.array items) = build <$> items.mapM t.decode := by
  have hid : ∀ {β : Type} (x : Decoded β), x = (fun b => b) <$> x := fun x => (id_map x).symm
  cases hi with
  | schema => exact ⟨fun xs => xs, fun items => hid _⟩
  | node => exact ⟨fun xs => xs, fun items => (decodeNodeItems_eq_mapM items).trans (hid _)⟩
  | parameter => exact ⟨fun xs => xs, fun items => hid _⟩
  | response => exact ⟨fun xs => xs, fun items => hid _⟩

theorem Shape.decode_item {before after : List Json} (hi : Item s t)
    (h : t.decode j' = t.decode j) :
    s.decode (.array (before ++ j' :: after)) = s.decode (.array (before ++ j :: after)) := by
  obtain ⟨build, hb⟩ := exists_decode_array hi
  simp only [hb, List.mapM_append, List.mapM_cons, h]

/-! ## Any depth -/

theorem Shape.Member.ne_schema (h : Member s key t) : t ≠ schema ∧ t ≠ schemas := by
  induction h with
  | parameter _ ih => exact ih
  | _ => decide

namespace Shape.NullAdded

theorem alike (hp : key ∈ p.fields) (hn : key ∉ p.needed) (he : (p, key) ≠ (schema, "name"))
    (h : NullAdded p key s j j') : s.Alike j j' := by
  induction h with
  | here _ _ hk =>
    refine ⟨trivial, trivial, ?_, decode_insert_null hp hn he hk⟩
    simp [Json.readable, Json.readableMembers_append, Json.readableMembers]
  | member _ _ hm _ ih =>
    refine ⟨trivial, trivial, ?_, decode_member hm ih⟩
    simp only [Json.readable, Json.readableMembers_append, Json.readableMembers, ih.readable]
  | item _ _ hi _ ih =>
    refine ⟨trivial, trivial, ?_, decode_item hi ih.decode⟩
    simp only [Json.readable, Json.readableItems_append, Json.readableItems, ih.readable]

theorem schema_or (h : NullAdded schema key s j j') : s = schema ∨ s = schemas := by
  induction h with
  | here => exact .inl rfl
  | member _ _ hm _ ih => exact absurd ih (not_or.mpr hm.ne_schema)
  | item _ _ hi _ ih =>
    rcases ih with rfl | rfl
    · cases hi
      exact .inr rfl
    · cases hi

end Shape.NullAdded

/-! ## The name of a schema -/

theorem Schema.decode_null_name {x : Schema}
    (hx : Schema.decode (.object (before ++ after)) = .ok x)
    (hk : "name" ∉ (before ++ after).map Prod.fst) :
    Schema.decode (.object (before ++ ("name", .null) :: after)) =
      .error (.wrongType "null" .text) := by
  obtain ⟨d, hd, -⟩ := Decoded.bind_eq_ok_iff.mp hx
  have hd : schemaRecord.readMembers [] ⟨none, "", .blank⟩ (before ++ after) = .ok d := hd
  rw [Record.readMembers_append] at hd
  obtain ⟨d', hd', -⟩ := Decoded.bind_eq_ok_iff.mp hd
  rw [List.map_append, List.mem_append, not_or] at hk
  exact congrArg (· >>= SchemaDraft.schema)
    (Record.readMembers_error rfl (fun _ => rfl) List.not_mem_nil hk.1 hd')

theorem Shape.NullAdded.decode_null_name (h : NullAdded schema "name" s j j') {x : s.Value}
    (hx : s.decode j = .ok x) : s.decode j' = .error (.wrongType "null" .text) := by
  induction h with
  | here _ _ hk => exact Schema.decode_null_name hx hk
  | member _ _ hm h => exact absurd h.schema_or (not_or.mpr hm.ne_schema)
  | item _ _ hi _ ih =>
    obtain ⟨build, hb⟩ := exists_decode_array hi
    rw [hb, List.mapM_append, List.mapM_cons] at hx
    obtain ⟨xs, hx, -⟩ := Decoded.map_eq_ok_iff.mp hx
    obtain ⟨bs, hbs, hx⟩ := Decoded.bind_eq_ok_iff.mp hx
    obtain ⟨as, has, -⟩ := Decoded.bind_eq_ok_iff.mp hx
    obtain ⟨a, ha, -⟩ := Decoded.bind_eq_ok_iff.mp has
    rw [hb, List.mapM_append, List.mapM_cons, hbs, ih ha]
    rfl

/-- A member that may be left out can be written as `null`, wherever it stands in a document, and
the document is read alike, errors included. The one exception is the name of a schema: a document
that can be read without it cannot be read with `null` in its place. -/
theorem decode_null_as_absent {p : Shape} {key : String} (hk : p.CanLack key) {s : Shape}
    {text text' : String} {j j' : Json} (hj : Json.parse text = some j)
    (hj' : Json.parse text' = some j') (h : NullAdded p key s j j') :
    ((p, key) ≠ (schema, "name") → decodeText s.decode text' = decodeText s.decode text) ∧
    ((p, key) = (schema, "name") → ∀ x, decodeText s.decode text = .ok x →
      decodeText s.decode text' = .error (.wrongType "null" .text)) := by
  have ht : decodeText s.decode text = s.decode j := by rw [decodeText, hj]
  have ht' : decodeText s.decode text' = s.decode j' := by rw [decodeText, hj']
  rw [ht, ht']
  refine ⟨fun he => (h.alike hk.1 hk.not_mem_needed he).decode, fun he x hx => ?_⟩
  obtain ⟨rfl, rfl⟩ := Prod.mk.inj he
  exact h.decode_null_name hx

/-- An endpoint with a list of items without a type, and the same endpoint with `null` for it. -/
def untypedText : String :=
  "\x7b\"path\": \"/a\", \"method\": \"get\", \"responses\": [\x7b\"jsonSchema\": " ++
    "\x7b\"type\": \"array\", \"items\": \x7b\x7d\x7d\x7d]\x7d"

def untypedText' : String :=
  "\x7b\"path\": \"/a\", \"method\": \"get\", \"responses\": [\x7b\"jsonSchema\": " ++
    "\x7b\"type\": \"array\", \"items\": \x7b\"type\": null\x7d\x7d\x7d]\x7d"

def untypedJson (items : List (String × Json)) : Json :=
  .object [("path", .string "/a"), ("method", .string "get"), ("responses",
    .array [.object [("jsonSchema", .object [("type", .string "array"),
      ("items", .object items)])]])]

def unnamedText : String := "[\x7b\"id\": \"1\"\x7d]"

def unnamedText' : String := "[\x7b\"id\": \"1\", \"name\": null\x7d]"

theorem parse_untypedText : Json.parse untypedText = some (untypedJson []) := by
  cbv

theorem parse_untypedText' :
    Json.parse untypedText' = some (untypedJson [("type", .null)]) := by
  cbv

theorem parse_unnamedText :
    Json.parse unnamedText = some (.array [.object [("id", .string "1")]]) := by
  cbv

theorem parse_unnamedText' :
    Json.parse unnamedText' = some (.array [.object [("id", .string "1"), ("name", .null)]]) := by
  cbv

theorem canLack_type : property.CanLack "type" :=
  ⟨by decide, [], .unknown ⟨none, false⟩, by simp, rfl⟩

theorem canLack_name : schema.CanLack "name" :=
  ⟨by decide, [("id", .string "1")], ⟨"1", "", "", none, [], none⟩, by simp, rfl⟩

theorem nullAdded_type :
    NullAdded property "type" endpoint (untypedJson []) (untypedJson [("type", .null)]) :=
  .member [_, _] [] .responses <| .item [] [] .response <| .member [] [] .responseDefinition <|
    .member [_] [] .items <| .here [] [] (by simp)

theorem nullAdded_name : NullAdded schema "name" schemas
    (.array [.object [("id", .string "1")]])
    (.array [.object [("id", .string "1"), ("name", .null)]]) :=
  .item [] [] .schema (.here [_] [] (by simp))

theorem decode_null_sample :
    decodeText Endpoint.decode untypedText' = decodeText Endpoint.decode untypedText ∧
    decodeText decodeSchemas unnamedText = .ok [⟨"1", "", "", none, [], none⟩] ∧
    decodeText decodeSchemas unnamedText' = .error (.wrongType "null" .text) := by
  have hs : decodeText decodeSchemas unnamedText = .ok [⟨"1", "", "", none, [], none⟩] := by
    rw [decodeText, parse_unnamedText]
    rfl
  obtain ⟨htype, -⟩ := decode_null_as_absent canLack_type parse_untypedText parse_untypedText'
    nullAdded_type
  obtain ⟨-, hname⟩ := decode_null_as_absent canLack_name parse_unnamedText parse_unnamedText'
    nullAdded_name
  exact ⟨htype (by decide), hs, hname rfl _ hs⟩

/-- With `null` for the name of a schema nothing is read that can be read without the name. -/
theorem exists_null_not_as_absent :
    ¬ ∀ p key s text text' j j', p.CanLack key → Json.parse text = some j →
      Json.parse text' = some j' → NullAdded p key s j j' →
        decodeText s.decode text' = decodeText s.decode text := by
  intro h
  have hd : decodeText decodeSchemas unnamedText' = decodeText decodeSchemas unnamedText :=
    h schema "name" schemas _ _ _ _ canLack_name parse_unnamedText parse_unnamedText'
      nullAdded_name
  rw [decodeText, decodeText, parse_unnamedText, parse_unnamedText'] at hd
  cases hd

end ApiTypings
