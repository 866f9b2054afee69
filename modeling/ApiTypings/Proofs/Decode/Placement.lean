import ApiTypings.Proofs.Decode.Nesting

/-! # Definitions wherever they stand

A parameter and its definition are written as one object: the members of the parameter stand among
those of the definition, in any order. `required` is one of them, so the definition has no list of
required names there. Any other definition is read in a parameter as it is read alone, and as it is
read in frames.
-/

namespace ApiTypings

variable {members added extended : List (String × Json)}

/-- Members with others added before, between and after them, in any order. -/
structure Extends (members added extended : List (String × Json)) : Prop where
  sublist : members.Sublist extended
  perm : extended.Perm (members ++ added)

namespace Extends

variable {keep : String × Json → Bool}

theorem filter_eq (h : Extends members added extended) (hm : ∀ m ∈ members, keep m = true)
    (ha : ∀ m ∈ added, ¬keep m = true) : extended.filter keep = members := by
  have hp := h.perm.filter keep
  have hs := h.sublist.filter keep
  rw [List.filter_append, List.filter_eq_self.mpr hm,
    (List.filter_eq_nil_iff (l := added)).mpr ha, List.append_nil] at hp
  rw [List.filter_eq_self.mpr hm] at hs
  exact (hs.eq_of_length hp.length_eq.symm).symm

theorem filter_perm (h : Extends members added extended) (hm : ∀ m ∈ members, ¬keep m = true)
    (ha : ∀ m ∈ added, keep m = true) : (extended.filter keep).Perm added := by
  have hp := h.perm.filter keep
  rwa [List.filter_append, (List.filter_eq_nil_iff (l := members)).mpr hm,
    List.filter_eq_self.mpr ha, List.nil_append] at hp

end Extends

namespace Parameter

/-- The members of a parameter that are not those of its definition. -/
def ownMembers (name : String) (required enabled : Bool) : List (String × Json) :=
  [("name", .string name), ("required", .bool required), ("enable", .bool enabled)]

variable {name : String} {required enabled : Bool}

theorem isSome_field?_of_mem_ownMembers {m : String × Json}
    (h : m ∈ ownMembers name required enabled) : (parameterRecord.field? m.1).isSome = true := by
  simp only [ownMembers, List.mem_cons, List.not_mem_nil, or_false] at h
  rcases h with rfl | rfl | rfl <;> rfl

theorem field?_eq_none {key : String} (h : key ∉ ["name", "required", "enable"]) :
    parameterRecord.field? key = none := by
  simp only [List.mem_cons, List.not_mem_nil, or_false, not_or] at h
  simp [Record.field?, parameterRecord, Ne.symm h.1, Ne.symm h.2.1, Ne.symm h.2.2]

theorem readMembers_of_perm (h : added.Perm (ownMembers name required enabled)) :
    parameterRecord.readMembers [] ⟨none, false, none⟩ added =
      .ok ⟨some name, required, some enabled⟩ := by
  have hm := List.mem_permutations'.mpr h
  simp only [ownMembers, List.permutations', List.permutations'Aux, List.flatMap_cons,
    List.flatMap_nil, List.map_cons, List.map_nil, List.append_nil, List.cons_append,
    List.nil_append, List.mem_cons, List.not_mem_nil, or_false] at hm
  rcases hm with rfl | rfl | rfl | rfl | rfl | rfl <;> rfl

/-- A definition extended by the members of a parameter is read exactly if it is read alone. -/
theorem decode_extended_iff (hr : (Json.object members).readable = true)
    (hm : ∀ m ∈ members, m.1 ∉ ["name", "required", "enable"])
    (he : Extends members (ownMembers name required enabled) extended) {parameter : Parameter} :
    Parameter.decode (.object extended) = .ok parameter ↔
      ∃ p, Property.decode (.object members) = .ok p ∧
        parameter = ⟨name, required, enabled, p⟩ := by
  have hothers : extended.filter (fun m => (parameterRecord.field? m.1).isNone) = members := by
    refine he.filter_eq (fun m h => ?_) fun m h => ?_
    · simp [field?_eq_none (hm m h)]
    · simp [Option.isSome_iff_ne_none.mp (isSome_field?_of_mem_ownMembers h)]
  have hown : parameterRecord.readMembers [] ⟨none, false, none⟩ extended =
      .ok ⟨some name, required, some enabled⟩ := by
    rw [Record.readMembers_filter]
    refine readMembers_of_perm (he.filter_perm (fun m h => ?_) fun m h => ?_)
    · simp [field?_eq_none (hm m h)]
    · exact isSome_field?_of_mem_ownMembers h
  rw [Json.readable] at hr
  unfold Parameter.decode
  simp only [hothers, hr, hown]
  change (Property.decode (.object members) >>= fun p => .ok ⟨name, required, enabled, p⟩) =
    .ok parameter ↔ _
  rw [Decoded.bind_eq_ok_iff]
  exact exists_congr fun p => and_congr_right fun _ => by rw [Except.ok.injEq, eq_comm]

end Parameter

/-- A definition is read alike wherever it stands: alone, in frames of any depth, and in a
parameter. -/
theorem decode_everywhere (members : List (String × Json)) :
    (∀ C : List Frame, (Frame.plugAll C.tail (.object members)).readable = true →
      ((∃ q, Property.decode (Frame.plugAll C (.object members)) = .ok q) ↔
        (∀ F ∈ C, ∃ q, Property.decode F.rest = .ok q) ∧
          ∃ p, Property.decode (.object members) = .ok p) ∧
      ∀ p q, (∀ F ∈ C, F.Keeps) → Property.decode (.object members) = .ok p →
        Property.decode (Frame.plugAll C (.object members)) = .ok q →
        q.descendant? (C.map Frame.step) = some p) ∧
    ((Json.object members).readable = true →
      (∀ m ∈ members, m.1 ∉ ["name", "required", "enable"]) →
      ∀ name required enabled extended,
        Extends members (Parameter.ownMembers name required enabled) extended →
        ∀ parameter, Parameter.decode (.object extended) = .ok parameter ↔
          ∃ p, Property.decode (.object members) = .ok p ∧
            parameter = ⟨name, required, enabled, p⟩) := by
  have hj : (Json.object members).IsContainer := trivial
  constructor
  · intro C hr
    exact ⟨Frame.exists_decode_plugAll_iff hj hr, fun p q hk hp hq =>
      Frame.descendant?_of_decode hj hr hk hp hq⟩
  · intro hr hm name required enabled extended he parameter
    exact Parameter.decode_extended_iff hr hm he

/-- The items of a property of the additional values of a definition. -/
def sampleFrames : List Frame := [
  .additional (.members [("type", .string "object")] []),
  .property "groups" [] [] (.members [] [("type", .string "object")]),
  .items (.items [.string "array", .null, .null, .null] [.null, .null, .null, .null] rfl)]

theorem sample_everywhere :
    let members := [("type", Json.string "array"),
      ("items", .object [("$ref", .string "User")])]
    let p : Property := .array ⟨none, false⟩ (some (.reference ⟨none, false⟩ "User"))
    (∃ q, Property.decode (Frame.plugAll sampleFrames (.object members)) = .ok q ∧
      q.descendant? [.additional, .property "groups", .items] = some p) ∧
    Parameter.decode (.object (Parameter.ownMembers "users" true false ++ members)) =
      .ok ⟨"users", true, false, p⟩ := by
  intro members p
  have hp : Property.decode (.object members) = .ok p := rfl
  obtain ⟨hframes, hparameter⟩ := decode_everywhere members
  constructor
  · obtain ⟨hread, hsame⟩ := hframes sampleFrames rfl
    have hk : ∀ F ∈ sampleFrames, F.Keeps := by
      intro F hF
      simp only [sampleFrames, List.mem_cons, List.not_mem_nil, or_false] at hF
      rcases hF with rfl | rfl | rfl
      · exact ⟨_, _, _, _, rfl⟩
      · exact ⟨by simp, _, _, _, _, rfl⟩
      · exact ⟨⟨none, false⟩, none, rfl⟩
    obtain ⟨q, hq⟩ := hread.mpr ⟨fun F hF => (hk F hF).exists_decode_rest, p, hp⟩
    exact ⟨q, hq, hsame p q hk hp hq⟩
  · have he : Extends members (Parameter.ownMembers "users" true false)
        (Parameter.ownMembers "users" true false ++ members) :=
      ⟨List.sublist_append_right _ _, List.perm_append_comm⟩
    exact (hparameter rfl (by simp [members]) _ _ _ _ he _).mpr ⟨p, hp, rfl⟩

end ApiTypings
