import Mathlib
import ApiTypings.Proofs.TypeScript.UsedParameters
import ApiTypings.Proofs.Typing.Members
import ApiTypings.Proofs.Typing.Qualification

/-! # Declared parameters

The function of an endpoint uses the parameters that the tokens of the path name. The request has
the members that the body and the parameters of the endpoint name. Nothing but the endpoint itself
makes these the same names, unless the request extends a schema, which may have members of any name.
-/

namespace ApiTypings

namespace TypeScript

def RequestFunction.address (f : RequestFunction) : String :=
  "\x60" ++ urlTemplate f.path ++ "\x60"

theorem RequestFunction.toList_address (f : RequestFunction) :
    f.address.toList = '\x60' :: ((urlTemplate f.path).toList ++ ['\x60']) := by
  simp [address]

theorem exists_append_eq {s t x : String} (h : ∃ before after, s = before ++ x ++ after) :
    ∃ before after, s ++ t = before ++ x ++ after := by
  obtain ⟨before, after, rfl⟩ := h
  exact ⟨before, after ++ t, String.append_assoc⟩

theorem RequestFunction.exists_text_eq (f : RequestFunction) :
    ∃ before after, f.text = before ++ ("    url: " ++ f.address ++ ",\n") ++ after := by
  have hstart : "    url: \x60" = "    url: " ++ "\x60" := by decide +kernel
  have hend : "\x60,\n" = "\x60" ++ ",\n" := by decide +kernel
  have hline : ∀ before : String, ∃ before' after,
      before ++ "    url: \x60" ++ urlTemplate f.path ++ "\x60,\n" =
        before' ++ ("    url: " ++ f.address ++ ",\n") ++ after := by
    intro before
    refine ⟨before, "", ?_⟩
    rw [hstart, hend, address, String.append_empty]
    simp only [String.append_assoc]
  unfold text
  iterate 8 apply exists_append_eq
  exact hline _

/-- A request has a member of a name or extends a schema. -/
def Extension.Provides (x : Extension) (n : Units) : Prop :=
  (∃ key ∈ x.members.map Member.key, units key.toList = n) ∨ x.base ≠ none

end TypeScript

open TypeScript Naming

/-! ## Names that a request provides -/

def Body.extended? (r : Registry) (b : Body) : Option String :=
  if b.isJson then b.schema.bind fun p => p.target?.bind r.schemaName? else none

/-- The schema that the request of an endpoint extends. -/
def Endpoint.extended? (r : Registry) (e : Endpoint) : Option String :=
  e.body.bind (Body.extended? r)

section Request

variable (r : Registry)

theorem value_extendedSchema (place : String) (p : Property) :
    (extendedSchema r place p).value = p.target?.bind r.schemaName? := by
  unfold extendedSchema
  cases p.target? with
  | none => rfl
  | some target => exact value_resolveReference r place target

theorem base_bodyExtension (b : Body) : (bodyExtension r b).value.base = b.extended? r := by
  unfold bodyExtension Body.extended?
  split_ifs
  · cases b.schema with
    | none => rfl
    | some p => exact value_extendedSchema r "request body" p
  · rfl
  · rfl

theorem base_requestType (e : Endpoint) : (requestType r e).value.base = e.extended? r := by
  unfold requestType Endpoint.extended?
  rcases e.body with _ | b
  · rfl
  · exact base_bodyExtension r b

theorem provides_requestType_iff (e : Endpoint) (name : String) :
    (requestType r e).value.Provides (units name.toList) ↔
      name ∈ e.bodyKeys ++ e.pathNames ++ e.queryNames ∨ e.extended? r ≠ none := by
  unfold Extension.Provides
  rw [keys_requestType, base_requestType]
  apply or_congr_left
  constructor
  · rintro ⟨key, hk, hn⟩
    rwa [← String.toList_injective (units_injective hn)]
  · intro hk
    exact ⟨name, hk, rfl⟩

end Request

/-! ## Names that a function uses -/

theorem uses_address_iff {f : RequestFunction}
    (h : Legible (Text.pieces pathParameter f.path.toList)) (n : Units) :
    Uses f.address.toList n ↔ ∃ name : String,
      .found name.toList ∈ Text.pieces pathParameter f.path.toList ∧ units name.toList = n := by
  rw [RequestFunction.toList_address, uses_urlTemplate_iff (divides_pieces _) h]
  constructor
  · rintro ⟨name, hm, hn⟩
    refine ⟨String.ofList name, ?_, ?_⟩
    · rwa [String.toList_ofList]
    · rwa [String.toList_ofList]
  · rintro ⟨name, hm, hn⟩
    exact ⟨name.toList, hm, hn⟩

variable {r : Registry} {e : Endpoint} {expected : String} {l l' : Ledger}
  {types : EndpointTypes} {f : RequestFunction}

/-- The function of an endpoint uses the parameters that the tokens of the path name, if nothing in
the path spoils them. The request extends the schema that a body in JSON refers to, and has the
members that the endpoint names. So all that is used is provided for exactly if the endpoint
declares each token, or the request extends a schema. -/
theorem used_parameters_declared_iff
    (ht : (declareTypes r expected e l).result = .ok types)
    (hf : (declareFunction expected e l').result = .ok f) :
    ∃ ps, (∀ qs, Divides e.path.toList qs ↔ qs = ps) ∧
      (∃ before after, f.text = before ++ ("    url: " ++ f.address ++ ",\n") ++ after) ∧
      types.request.base = e.extended? r ∧
      types.request.members.map Member.key =
        e.bodyKeys ++ e.pathNames ++ e.queryNames ∧
      (Legible ps →
        (∀ n, Uses f.address.toList n ↔
          ∃ name : String, .found name.toList ∈ ps ∧ units name.toList = n) ∧
        ((∀ n, Uses f.address.toList n → types.request.Provides n) ↔
          ∀ name : String, .found name.toList ∈ ps →
            name ∈ e.bodyKeys ++ e.pathNames ++ e.queryNames ∨ e.extended? r ≠ none)) := by
  obtain ⟨success, -, rfl⟩ := Endpoint.exists_of_declareTypes ht
  obtain rfl := Endpoint.eq_of_declareFunction hf
  refine ⟨Text.pieces pathParameter e.path.toList, fun qs => divides_iff,
    RequestFunction.exists_text_eq _, base_requestType r e, keys_requestType r e, fun hl => ?_⟩
  have hu := uses_address_iff (f := e.function (l'.claimEndpoint e.path e.method).1) hl
  refine ⟨hu, ?_⟩
  constructor
  · intro h name hm
    exact (provides_requestType_iff r e name).mp (h _ ((hu _).mpr ⟨name, hm, rfl⟩))
  · intro h n hn
    obtain ⟨name, hm, rfl⟩ := (hu n).mp hn
    exact (provides_requestType_iff r e name).mpr (h name hm)

/-! ## A user and the name of a user -/

def userPieces : List (Text.Piece (List Char)) :=
  "/users/".toList.map .plain ++ [.found "id".toList]

theorem divides_userPieces : Divides "/users/\x7bid\x7d".toList userPieces :=
  divides_iff.mpr (by decide +kernel)

theorem found_mem_userPieces {name : List Char} :
    .found name ∈ userPieces ↔ name = "id".toList := by
  have hn : Text.Piece.found name ∉ "/users/".toList.map .plain := by
    intro hm
    obtain ⟨c, -, hc⟩ := List.mem_map.mp hm
    cases hc
  have hm : .found name ∈ userPieces ↔ _ := List.mem_append
  rw [hm, or_iff_right hn, List.mem_singleton]
  constructor
  · rintro ⟨⟩
    rfl
  · rintro rfl
    rfl

theorem legible_userPieces : Legible userPieces where
  inert := by
    constructor
    · decide +kernel
    · decide +kernel
  names name hm := by
    rw [found_mem_userPieces.mp hm]
    constructor
    · simp
    · simp [OnOneLine]

/-- The path names the parameter that its token needs. -/
theorem declared_update :
    let e : Endpoint := { updateEndpoint "name" with responses := [⟨"OK", none⟩] }
    ∃ types f, (declareTypes .empty "OK" e .empty).result = .ok types ∧
      (declareFunction "OK" e .empty).result = .ok f ∧
      (∀ n, Uses f.address.toList n ↔ n = units "id".toList) ∧
      ∀ n, Uses f.address.toList n → types.request.Provides n := by
  intro e
  have hs : e.success? "OK" = some ⟨"OK", none⟩ := rfl
  have ht := Endpoint.result_declareTypes .empty .empty hs
  have hf := Endpoint.result_declareFunction .empty hs
  obtain ⟨ps, hps, -, -, -, hl⟩ := used_parameters_declared_iff ht hf
  obtain rfl := (hps _).mp divides_userPieces
  obtain ⟨hu, hd⟩ := hl legible_userPieces
  refine ⟨_, _, ht, hf, fun n => ?_, hd.mpr fun name hm => .inl ?_⟩
  · rw [hu]
    constructor
    · rintro ⟨name, hm, rfl⟩
      rw [found_mem_userPieces.mp hm]
    · rintro rfl
      exact ⟨"id", found_mem_userPieces.mpr rfl, rfl⟩
  · rw [String.toList_injective (found_mem_userPieces.mp hm)]
    decide

def userJson : Json :=
  .object [("path", .string "/users/\x7bid\x7d"), ("method", .string "get"),
    ("responses", .array [.object [("name", .string "OK")]])]

def userEndpoint : Endpoint := ⟨"/users/\x7bid\x7d", "get", "", "", none, none, [⟨"OK", none⟩]⟩

/-- The token of a path is used whether the endpoint declares it or not. -/
theorem exists_used_not_declared :
    ¬ ∀ j e r expected l types l' f, Endpoint.decode j = .ok e →
      (declareTypes r expected e l).result = .ok types →
      (declareFunction expected e l').result = .ok f →
      ∀ n, Uses f.address.toList n → types.request.Provides n := by
  intro h
  have hd : Endpoint.decode userJson = .ok userEndpoint := rfl
  have hs : userEndpoint.success? "OK" = some ⟨"OK", none⟩ := rfl
  have ht := Endpoint.result_declareTypes .empty .empty hs
  have hf := Endpoint.result_declareFunction .empty hs
  have hp : Text.pieces pathParameter userEndpoint.path.toList = userPieces :=
    divides_userPieces.pieces_eq
  have hl : Legible (Text.pieces pathParameter userEndpoint.path.toList) :=
    hp ▸ legible_userPieces
  have hm : .found "id".toList ∈ Text.pieces pathParameter userEndpoint.path.toList :=
    hp ▸ found_mem_userPieces.mpr rfl
  have hk := h _ _ _ _ _ _ _ _ hd ht hf _ ((uses_address_iff hl _).mpr ⟨"id", hm, rfl⟩)
  have hk := (provides_requestType_iff .empty userEndpoint "id").mp hk
  revert hk
  decide

end ApiTypings
