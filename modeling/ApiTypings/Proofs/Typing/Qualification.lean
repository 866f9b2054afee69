import Mathlib
import ApiTypings.Proofs.Generation.Conversion

/-! # Names of schemas in the types of endpoints

The types of endpoints stand outside the namespace of the schemas. An `extends` clause names a
schema together with that namespace, a type expression by its bare name. So all schemas are named
with their namespace exactly if no parameter, inline property or aliased response leads to one.
-/

namespace ApiTypings

namespace TypeScript

/-! ## Ways to write a schema -/

/-- The name of a schema as it is reached from everywhere. -/
def qualifiedSchema (name : String) : String := "Api.Schema." ++ name

theorem length_qualifiedSchema (name : String) :
    (qualifiedSchema name).length = name.length + 11 := by
  rw [qualifiedSchema, String.length_append, Nat.add_comm]
  rfl

namespace TypeExpr

def rename (f : String → String) : TypeExpr → TypeExpr
  | .schema name => .schema (f name)
  | .array element => .array (element.rename f)
  | .map values => .map (values.rename f)
  | t => t

def schemas : TypeExpr → List String
  | .schema name => [name]
  | .array element => element.schemas
  | .map values => values.schemas
  | _ => []

theorem rename_id (t : TypeExpr) : t.rename id = t := by
  induction t with
  | array t ih => exact congrArg TypeExpr.array ih
  | map t ih => exact congrArg TypeExpr.map ih
  | _ => rfl

theorem rename_congr {f g : String → String} {t : TypeExpr} (h : ∀ s ∈ t.schemas, f s = g s) :
    t.rename f = t.rename g := by
  induction t with
  | schema name => exact congrArg TypeExpr.schema (h name List.mem_cons_self)
  | array t ih => exact congrArg TypeExpr.array (ih h)
  | map t ih => exact congrArg TypeExpr.map (ih h)
  | _ => rfl

theorem length_text_rename (t : TypeExpr) :
    (t.rename qualifiedSchema).text.length = t.text.length + 11 * t.schemas.length := by
  induction t with
  | schema name => exact length_qualifiedSchema name
  | array t ih =>
    simp only [rename, text_array, schemas, String.length_append, ih]
    omega
  | map t ih =>
    simp only [rename, text_map, schemas, String.length_append, ih]
    omega
  | _ => rfl

end TypeExpr

def Member.rename (f : String → String) (m : Member) : Member := { m with type := m.type.rename f }

theorem Member.length_text_rename (indent : Nat) (m : Member) :
    ((m.rename qualifiedSchema).text indent).length =
      (m.text indent).length + 11 * m.type.schemas.length := by
  obtain ⟨key, optional, type, comment⟩ := m
  have ht := type.length_text_rename
  cases optional <;>
    simp only [Member.text, rename, String.length_append, ht, ↓reduceIte, Bool.false_eq_true] <;>
    omega

def memberSchemas (ms : List Member) : List String := ms.flatMap fun m => m.type.schemas

theorem map_rename_id (ms : List Member) : ms.map (Member.rename id) = ms := by
  refine List.map_id'' (fun m => ?_) ms
  rw [Member.rename, TypeExpr.rename_id]

theorem map_rename_congr {f g : String → String} {ms : List Member}
    (h : ∀ s ∈ memberSchemas ms, f s = g s) : ms.map (Member.rename f) = ms.map (Member.rename g) := by
  refine List.map_congr_left fun m hm => ?_
  have ht : m.type.rename f = m.type.rename g :=
    TypeExpr.rename_congr fun s hs => h s (List.mem_flatMap.mpr ⟨m, hm, hs⟩)
  rw [Member.rename, Member.rename, ht]

theorem length_membersText_rename (indent : Nat) (ms : List Member) :
    (membersText indent (ms.map (Member.rename qualifiedSchema))).length =
      (membersText indent ms).length + 11 * (memberSchemas ms).length := by
  induction ms with
  | nil => rfl
  | cons m ms ih =>
    have hm := m.length_text_rename indent
    simp only [membersText, memberSchemas, List.map_cons, List.flatMap_cons, String.join_cons,
      String.length_append, List.length_append] at ih ⊢
    omega

/-! ## Fragments -/

variable (base type : String → String)

def interfaceText (name clause : String) (members : List Member) : String :=
  "      /** " ++ name ++ " */\n      interface " ++ name ++ clause ++ " \x7b\n" ++
    membersText 8 members ++ "      \x7d\n"

def extendsClause : Option String → String
  | some schema => " extends " ++ base schema
  | none => ""

/-- The text with the extended schema named in one way and those in types in another. -/
def Extension.textBy (name : String) (e : Extension) : String :=
  interfaceText name (extendsClause base e.base) (e.members.map (Member.rename type))

def ResponseType.textBy : ResponseType → String
  | .object e => e.textBy base type "Response"
  | .value t => (ResponseType.value (t.rename type)).text

def EndpointTypes.textBy (t : EndpointTypes) : String :=
  t.comment.text 4 ++ "    namespace " ++ t.name ++ " \x7b\n" ++
    t.request.textBy base type "Request" ++ "\n" ++ t.response.textBy base type ++ "    \x7d\n\n"

def ResponseType.schemas : ResponseType → List String
  | .object e => memberSchemas e.members
  | .value t => t.schemas

def EndpointTypes.schemas (t : EndpointTypes) : List String :=
  memberSchemas t.request.members ++ t.response.schemas

theorem exists_interfaceText_eq (name clause : String) :
    ∃ before after, ∀ ms, interfaceText name clause ms = before ++ membersText 8 ms ++ after :=
  ⟨_, _, fun _ => rfl⟩

theorem Extension.text_eq (name : String) (e : Extension) :
    e.text name = e.textBy qualifiedSchema id name := by
  obtain ⟨base, members⟩ := e
  rw [textBy, map_rename_id]
  cases base with
  | none => rfl
  | some schema =>
    have hs : extendsClause qualifiedSchema (some schema) = " extends Api.Schema." ++ schema := by
      rw [extendsClause, qualifiedSchema, ← String.append_assoc]
      rfl
    rw [hs]
    rfl

theorem ResponseType.text_eq (t : ResponseType) : t.text = t.textBy qualifiedSchema id := by
  cases t with
  | object e => exact e.text_eq "Response"
  | value t => rw [textBy, TypeExpr.rename_id]

theorem EndpointTypes.text_eq (t : EndpointTypes) : t.text = t.textBy qualifiedSchema id := by
  simp only [text, textBy, Extension.text_eq, ResponseType.text_eq]

theorem Extension.length_textBy (name : String) (e : Extension) :
    (e.textBy base qualifiedSchema name).length =
      (e.textBy base id name).length + 11 * (memberSchemas e.members).length := by
  obtain ⟨before, after, ht⟩ := exists_interfaceText_eq name (extendsClause base e.base)
  rw [textBy, textBy, ht, ht, map_rename_id]
  simp only [String.length_append, length_membersText_rename]
  omega

theorem ResponseType.length_textBy (t : ResponseType) :
    (t.textBy base qualifiedSchema).length =
      (t.textBy base id).length + 11 * t.schemas.length := by
  cases t with
  | object e => exact e.length_textBy base "Response"
  | value t =>
    simp only [textBy, schemas, text_value, TypeExpr.rename_id, String.length_append,
      TypeExpr.length_text_rename]
    omega

/-- Every bare name makes the text shorter than it were with the namespace. -/
theorem EndpointTypes.length_textBy (t : EndpointTypes) :
    (t.textBy base qualifiedSchema).length =
      (t.textBy base id).length + 11 * t.schemas.length := by
  simp only [textBy, schemas, String.length_append, Extension.length_textBy,
    ResponseType.length_textBy, List.length_append]
  omega

theorem EndpointTypes.textBy_congr {f g : String → String} {t : EndpointTypes}
    (h : ∀ s ∈ t.schemas, f s = g s) : t.textBy base f = t.textBy base g := by
  obtain ⟨name, comment, request, response⟩ := t
  have hq : request.members.map (Member.rename f) = request.members.map (Member.rename g) :=
    map_rename_congr fun s hs => h s (List.mem_append_left _ hs)
  have hp : response.textBy base f = response.textBy base g := by
    replace h : ∀ s ∈ response.schemas, f s = g s := fun s hs => h s (List.mem_append_right _ hs)
    cases response with
    | object e => simp only [ResponseType.textBy, Extension.textBy, map_rename_congr h]
    | value t => simp only [ResponseType.textBy, TypeExpr.rename_congr h]
  simp only [textBy, Extension.textBy, hq, hp]

theorem EndpointTypes.text_eq_qualified_iff (t : EndpointTypes) :
    t.text = t.textBy qualifiedSchema qualifiedSchema ↔ t.schemas = [] := by
  rw [t.text_eq]
  constructor
  · intro h
    have hl := t.length_textBy qualifiedSchema
    rw [← h] at hl
    exact List.length_eq_zero_iff.mp (by omega)
  · intro h
    exact textBy_congr _ fun s hs => absurd hs (h ▸ List.not_mem_nil)

end TypeScript

open TypeScript Naming

/-! ## Definitions that lead to a schema -/

def Registry.schemaName? (r : Registry) (reference : String) : Option String :=
  ((r.resolve? reference).filter fun name => !name.isEmpty).map typeName

theorem value_resolveReference (r : Registry) (place reference : String) :
    (resolveReference r place reference).value = r.schemaName? reference := by
  unfold resolveReference Registry.schemaName?
  cases (r.resolve? reference).filter fun name => !name.isEmpty <;> rfl

mutual

/-- The reference at the end of a definition, from arrays to their items and from maps to their
values. -/
def Property.lastReference? : Property → Option String
  | .array _ items => itemsReference? items
  | .object _ (some values) _ _ => if values.hasType then values.lastReference? else none
  | .reference _ target => some target
  | _ => none

/-- The reference at the end of the items of an array. Maps among them are not spelled out. -/
def itemsReference? : Option Property → Option String
  | some (.array _ items) => itemsReference? items
  | some (.reference _ target) => some target
  | _ => none

end

def Registry.schemaOf? (r : Registry) (p : Property) : Option String :=
  p.lastReference?.bind r.schemaName?

section Types

variable (r : Registry) (key : String)

theorem schemas_referenceType (place target : String) :
    (referenceType r place target).value.schemas = (r.schemaName? target).toList := by
  unfold referenceType
  rw [Warned.value_bind, value_resolveReference]
  cases r.schemaName? target <;> rfl

theorem schemas_textType (owner : Option String) (values : List String) :
    (textType key owner values).schemas = [] := by
  unfold textType
  split_ifs
  · rfl
  · cases owner <;> rfl

mutual

theorem schemas_typeOf (owner : Option String) :
    ∀ p, (typeOf r key owner p).value.schemas = (r.schemaOf? p).toList
  | .text _ values => schemas_textType key owner values
  | .array _ items => schemas_elementType items
  | .object _ (some values) _ _ => by
    unfold typeOf Registry.schemaOf? Property.lastReference?
    split_ifs
    · exact schemas_typeOf none values
    · rfl
  | .reference _ target => schemas_referenceType r key target
  | .number _ => rfl
  | .integer _ => rfl
  | .boolean _ => rfl
  | .object _ none _ _ => rfl
  | .unknown _ => rfl

theorem schemas_elementType (items : Option Property) :
    (elementType r key items).value.schemas =
      ((itemsReference? items).bind r.schemaName?).toList := by
  unfold elementType itemsReference?
  match items with
  | some (.array _ items) => exact schemas_elementType items
  | some (.reference _ target) => exact schemas_referenceType r key target
  | none | some (.text ..) | some (.number _) | some (.integer _) | some (.boolean _)
  | some (.object ..) | some (.unknown _) => rfl

end

/-! ## Fragments of endpoints -/

def Property.inlined : Property → List Property
  | .object _ _ properties _ => properties.map Prod.snd
  | _ => []

def enabledSchemas (ps : List Parameter) : List Property :=
  (ps.filter Parameter.enabled).map Parameter.schema

def Body.typed (b : Body) : List Property :=
  if b.isJson then (b.schema.map Property.inlined).getD []
  else if b.isForm then enabledSchemas b.parameters
  else []

/-- The definitions in a response that get a type expression: the response itself, or if it is an
object its properties. -/
def Response.typed (s : Response) : List Property :=
  match s.schema with
  | none => []
  | some p =>
    match p with
    | .object .. | .reference .. | .unknown _ => p.inlined
    | _ => [p]

/-- All definitions of an endpoint that get a type expression. -/
def Endpoint.typed (e : Endpoint) (success : Response) : List Property :=
  (e.body.map Body.typed).getD [] ++
    enabledSchemas ((e.parameters.map Parameters.path).getD []) ++
    enabledSchemas ((e.parameters.map Parameters.query).getD []) ++ success.typed

theorem memberSchemas_inlineMembers (p : Property) :
    memberSchemas (inlineMembers r p).value = p.inlined.filterMap r.schemaOf? := by
  cases p with
  | object _ _ properties required =>
    simp [inlineMembers, memberSchemas, Property.inlined, memberOf, List.flatMap_map,
      List.filterMap_eq_flatMap_toList, schemas_typeOf]
  | _ => rfl

theorem memberSchemas_parameterMembers (ps : List Parameter) :
    memberSchemas (parameterMembers r ps).value = (enabledSchemas ps).filterMap r.schemaOf? := by
  simp [parameterMembers, parameterMember, memberSchemas, enabledSchemas, List.flatMap_map,
    List.filterMap_eq_flatMap_toList, schemas_typeOf]

theorem memberSchemas_bodyExtension (b : Body) :
    memberSchemas (bodyExtension r b).value.members = b.typed.filterMap r.schemaOf? := by
  unfold bodyExtension Body.typed
  split_ifs
  · cases b.schema with
    | none => rfl
    | some p => exact memberSchemas_inlineMembers r p
  · exact memberSchemas_parameterMembers r b.parameters
  · rfl

theorem memberSchemas_append (ms ms' : List Member) :
    memberSchemas (ms ++ ms') = memberSchemas ms ++ memberSchemas ms' :=
  List.flatMap_append

theorem memberSchemas_requestType (e : Endpoint) :
    memberSchemas (requestType r e).value.members =
      ((e.body.map Body.typed).getD [] ++
        enabledSchemas ((e.parameters.map Parameters.path).getD []) ++
        enabledSchemas ((e.parameters.map Parameters.query).getD [])).filterMap r.schemaOf? := by
  unfold requestType
  rcases e.body with _ | b <;> rcases e.parameters with _ | ps <;>
    simp [memberSchemas_append, memberSchemas_bodyExtension, memberSchemas_parameterMembers]

theorem schemas_responseType (s : Response) :
    (responseType r s.schema).value.schemas = s.typed.filterMap r.schemaOf? := by
  have hv : ∀ p, (typeOf r "response" none p).value.schemas = [p].filterMap r.schemaOf? := by
    intro p
    rw [schemas_typeOf, List.filterMap_eq_flatMap_toList, List.flatMap_singleton]
  unfold Response.typed
  cases s.schema with
  | none => rfl
  | some p =>
    cases p with
    | object _ _ _ _ => exact memberSchemas_inlineMembers r _
    | reference _ _ => exact memberSchemas_inlineMembers r _
    | unknown _ => exact memberSchemas_inlineMembers r _
    | _ => exact hv _

theorem schemas_types (name : String) (e : Endpoint) (success : Response) :
    (e.types r name success).value.schemas = (e.typed success).filterMap r.schemaOf? := by
  rw [Endpoint.typed, List.filterMap_append, ← memberSchemas_requestType, ← schemas_responseType]
  rfl

end Types

/-- Schemas are named with their namespace where they are extended and without it in all types, so
a fragment names all of them with it exactly if no definition with a type expression leads to a
schema. -/
theorem declareTypes_qualified_iff {r : Registry} {expected : String} {e : Endpoint}
    {l : Ledger} {types : EndpointTypes} (h : (declareTypes r expected e l).result = .ok types) :
    ∃ success, e.success? expected = some success ∧
      types.text = types.textBy qualifiedSchema id ∧
      types.schemas = (e.typed success).filterMap r.schemaOf? ∧
      (types.text = types.textBy qualifiedSchema qualifiedSchema ↔
        ∀ p ∈ e.typed success, r.schemaOf? p = none) := by
  obtain ⟨success, hs, rfl⟩ := Endpoint.exists_of_declareTypes h
  refine ⟨success, hs, EndpointTypes.text_eq _, schemas_types r _ e success, ?_⟩
  rw [EndpointTypes.text_eq_qualified_iff, schemas_types, List.filterMap_eq_nil_iff]

/-- A schema that is extended is named with its namespace. -/
theorem qualified_sample_reference :
    let r : Registry := ⟨[("s1", "User")]⟩
    ∃ types, (declareTypes r "OK" (sampleEndpoint "1") .empty).result = .ok types ∧
      types.text = types.textBy qualifiedSchema qualifiedSchema := by
  intro r
  refine ⟨_, rfl, ?_⟩
  have hd : (declareTypes r "OK" (sampleEndpoint "1") .empty).result = .ok _ := rfl
  obtain ⟨success, hs, -, -, hq⟩ := declareTypes_qualified_iff hd
  refine hq.mpr fun p hp => ?_
  obtain rfl := Option.some.inj hs
  cases hp

def sampleArrayJson : Json :=
  .object [("path", .string "/api/users"), ("method", .string "get"),
    ("name", .string "List users"), ("responses", .array [.object [("name", .string "OK"),
      ("jsonSchema", .object [("type", .string "array"),
        ("items", .object [("$ref", .string "#/definitions/s1")])])]])]

def sampleUsers : Property :=
  .array ⟨none, false⟩ (some (.reference ⟨none, false⟩ "#/definitions/s1"))

/-- The elements of an array stand there under the bare name of their schema. -/
theorem exists_schema_not_qualified :
    ¬ ∀ j e r expected l types, Endpoint.decode j = .ok e →
      (declareTypes r expected e l).result = .ok types →
      types.text = types.textBy qualifiedSchema qualifiedSchema := by
  intro h
  have hd : Endpoint.decode sampleArrayJson = .ok (sampleEndpoint "3") := rfl
  have hs : (sampleEndpoint "3").success? "OK" = some ⟨"OK", sampleUsers⟩ := rfl
  have h := h _ _ ⟨[("s1", "User")]⟩ "OK" .empty _ hd (Endpoint.result_declareTypes _ _ hs)
  rw [EndpointTypes.text_eq_qualified_iff, schemas_types, List.filterMap_eq_nil_iff] at h
  have hu : sampleUsers.lastReference? = some "#/definitions/s1" := by
    simp [sampleUsers, Property.lastReference?, itemsReference?]
  have hr := h sampleUsers List.mem_cons_self
  rw [Registry.schemaOf?, hu] at hr
  revert hr
  decide +kernel

end ApiTypings
