import ApiTypings.Proofs.Text.Letters
import ApiTypings.Proofs.Typing.DeclaredNames
import ApiTypings.Proofs.Typing.InlineMembers

/-! # Alias names as identifiers

A member stands between quotes if its key is no identifier; the name of an alias takes the key as
it is, but for its decorations and for the case of its first letter. So the name is an identifier
only if the key has nothing but name characters and decorations. A few letters that are no name
characters become some in upper case, and these may stand first.
-/

namespace ApiTypings

open TypeScript

/-! ## Letters in upper case -/

/-- What may stand in a key without a trace or as a part of a name. -/
def belongsInName (c : Char) : Bool := isNamePart c || isDecoration c

/-- Letters outside of ASCII whose upper case is written with ASCII letters. -/
def asciiCapitals : List Char := ['ß', 'ı', 'ſ', 'ﬀ', 'ﬁ', 'ﬂ', 'ﬃ', 'ﬄ', 'ﬅ', 'ﬆ']

/-- The letters of a run that lies outside of ASCII stay outside, and most lie behind all
decorations. -/
theorem upperRuns_bounds : ∀ r ∈ Text.upperRuns, r.last < 128 ∨ 188 ≤ r.first + r.offset ∨
    r.first = r.last ∧ Char.ofNat r.first ∈ asciiCapitals := by
  decide +kernel

theorem upperSequences_bounds : ∀ x ∈ Text.upperSequences, (∃ m ∈ x.2, 188 ≤ m) ∨
    Char.ofNat x.1 ∈ asciiCapitals := by
  decide +kernel

variable {c : Char} {m : ℕ}

theorem toNat_lt_of_belongsInName (h : belongsInName c = true) :
    c.toNat < 128 ∨ c = '«' ∨ c = '»' := by
  simp only [belongsInName, isNamePart, isDecoration, Bool.or_eq_true, beq_iff_eq] at h
  rcases h with ((h | rfl) | rfl) | ((rfl | rfl) | rfl)
  · exact .inl ((Text.toNat_lt_of_isAlphanum h).trans (by decide))
  all_goals decide

theorem belongsInName_ofNat (h : 188 ≤ m) : belongsInName (Char.ofNat m) = false := by
  by_contra hb
  have hm := Char.toNat_ofNat m
  split_ifs at hm
  · rcases toNat_lt_of_belongsInName (by simpa using hb) with hc | hc | hc
    · omega
    · rw [hc] at hm
      exact absurd (hm ▸ h) (by decide)
    · rw [hc] at hm
      exact absurd (hm ▸ h) (by decide)
  · have hz : Char.ofNat m = '\x00' := Char.toNat_inj.mp hm
    rw [hz] at hb
    exact hb rfl

theorem belongsInName_toUpper (h : c.toNat < 128) :
    belongsInName c.toUpper = belongsInName c := by
  have hu : ∀ n < 128, belongsInName (Char.ofNat n).toUpper = belongsInName (Char.ofNat n) := by
    decide
  simpa using hu c.toNat h

theorem all_upper_of_decoration :
    (Text.upper '«').all belongsInName = true ∧ (Text.upper '»').all belongsInName = true := by
  decide +kernel

theorem all_upper_asciiCapitals :
    (asciiCapitals.all fun c => (Text.upper c).all belongsInName) = true := by
  decide +kernel

/-- The upper case of a character belongs in a name if the character does, and for a few letters
beyond. -/
theorem all_upper_iff :
    (Text.upper c).all belongsInName = true ↔ belongsInName c = true ∨ c ∈ asciiCapitals := by
  by_cases hlt : c.toNat < 128
  · have hn : ∀ d ∈ asciiCapitals, 128 ≤ d.toNat := by simp [asciiCapitals]
    rw [Text.upper_of_lt hlt, List.all_cons, List.all_nil, Bool.and_true,
      belongsInName_toUpper hlt]
    exact (or_iff_left fun hc => absurd hlt (Nat.not_lt.mpr (hn c hc))).symm
  constructor
  · intro h
    unfold Text.upper at h
    rw [if_neg hlt] at h
    split at h
    · rename_i ns hl
      obtain ⟨before, after, hs, -⟩ := List.lookup_eq_some_iff.mp hl
      have hmem : (c.toNat, ns) ∈ Text.upperSequences := by
        rw [hs]
        exact List.mem_append_right _ List.mem_cons_self
      rcases upperSequences_bounds _ hmem with ⟨m, hm, hb⟩ | hc
      · have hm := List.all_eq_true.mp h _ (List.mem_map_of_mem hm)
        rw [belongsInName_ofNat hb] at hm
        cases hm
      · exact .inr (by simpa using hc)
    · rw [List.all_cons, List.all_nil, Bool.and_true, Text.mapThrough] at h
      split at h
      · rename_i r hr
        have hcontains := List.find?_some hr
        simp only [Text.CaseRun.contains, Bool.and_eq_true, decide_eq_true_eq] at hcontains
        rcases upperRuns_bounds r (List.mem_of_find?_eq_some hr) with hb | hb | ⟨he, hc⟩
        · omega
        · rw [belongsInName_ofNat (by omega)] at h
          cases h
        · have hn : c.toNat = r.first := by omega
          rw [← hn, Char.ofNat_toNat] at hc
          exact .inr hc
      · rw [Char.ofNat_toNat] at h
        exact .inl h
  · rintro (h | h)
    · rcases toNat_lt_of_belongsInName h with hc | rfl | rfl
      · exact absurd hc hlt
      · exact all_upper_of_decoration.1
      · exact all_upper_of_decoration.2
    · exact List.all_eq_true.mp all_upper_asciiCapitals c h

/-! ## Names of aliases -/

/-- Whether a key stands in the name of an alias as a part of a name. -/
def isAliasKey (key : String) : Bool :=
  match key.toList with
  | [] => true
  | c :: rest => (belongsInName c || asciiCapitals.contains c) && rest.all belongsInName

theorem all_capitalize (key : String) :
    (Text.capitalize key).toList.all belongsInName = isAliasKey key := by
  unfold Text.capitalize isAliasKey
  cases key.toList with
  | nil => rfl
  | cons c rest =>
    dsimp only
    rw [String.toList_ofList, List.all_append, Bool.eq_iff_iff, Bool.and_eq_true, all_upper_iff,
      Bool.and_eq_true, Bool.or_eq_true, List.contains_iff_mem]

theorem all_typeName (s : String) :
    (typeName s).toList.all isNamePart = s.toList.all belongsInName := by
  rw [typeName, String.toList_ofList, List.all_filter]
  congr 1
  funext c
  rw [belongsInName]
  cases isDecoration c <;> simp

theorem isIdentifier_append {s t : String} (h : isIdentifier s = true) :
    isIdentifier (s ++ t) = t.toList.all isNamePart := by
  unfold isIdentifier at h ⊢
  rw [String.toList_append]
  cases hs : s.toList with
  | nil => simp [hs] at h
  | cons c rest =>
    rw [hs] at h
    obtain ⟨hc, hr⟩ := Bool.and_eq_true_iff.mp h
    rw [List.cons_append]
    dsimp only
    rw [List.all_append, hc, hr, Bool.true_and, Bool.true_and]

theorem isIdentifier_aliasName {s : Schema} (h : isIdentifier s.interfaceName = true)
    (key : String) : isIdentifier (aliasName s.interfaceName key) = isAliasKey key := by
  have hn : typeName s.interfaceName = s.interfaceName := typeName_typeName s.title
  rw [aliasName, typeName_append, hn, isIdentifier_append h, all_typeName, all_capitalize]

/-- A property with literals has an alias, and its member is of the type that the alias names. If
the interface is named by an identifier, so is the alias exactly if its key has nothing but name
characters and decorations, or in the first place a letter that becomes one in upper case. -/
theorem alias_isIdentifier_iff {s : Schema} (h : isIdentifier s.interfaceName = true)
    (r : Registry) {key : String} {p : Property} (hp : (key, p) ∈ s.properties)
    (hl : p.literals ≠ []) :
    (∃ a ∈ s.aliases, a.name = aliasName s.interfaceName key ∧ a.values = p.literals) ∧
    (∃ m ∈ (s.interface r).value.members, m.key = key ∧
      m.type = .alias (aliasName s.interfaceName key)) ∧
    (isIdentifier (aliasName s.interfaceName key) = true ↔ isAliasKey key = true) := by
  refine ⟨?_, ?_, by rw [isIdentifier_aliasName h]⟩
  · rw [s.aliases_eq]
    exact ⟨_, List.mem_filterMap.mpr ⟨_, hp, if_neg hl⟩, rfl, rfl⟩
  · rw [s.members_interface]
    refine ⟨_, List.mem_map_of_mem hp, rfl, ?_⟩
    cases p with
    | text n values => exact if_neg (by simpa [Property.literals] using hl)
    | _ => exact absurd rfl hl

theorem alias_isIdentifier_user :
    let s := literalSchema "User" ["ſort.by", "content-type"]
    isIdentifier s.interfaceName = true ∧
      (∃ a ∈ s.aliases, a.name = "UserSortby" ∧ isIdentifier a.name = true) ∧
      ∃ a ∈ s.aliases, a.name = "UserContent-type" ∧ isIdentifier a.name = false := by
  intro s
  have hs : isIdentifier s.interfaceName = true := by decide +kernel
  have hsort : ("ſort.by", .text ⟨none, false⟩ ["a"]) ∈ s.properties := List.mem_cons_self
  have htype : ("content-type", .text ⟨none, false⟩ ["a"]) ∈ s.properties :=
    List.mem_cons_of_mem _ List.mem_cons_self
  obtain ⟨⟨a, ha, hn, -⟩, -, hi⟩ :=
    alias_isIdentifier_iff hs .empty hsort (by simp [Property.literals])
  obtain ⟨⟨b, hb, hm, -⟩, -, hj⟩ :=
    alias_isIdentifier_iff hs .empty htype (by simp [Property.literals])
  refine ⟨hs, ⟨a, ha, hn.trans (by decide +kernel), ?_⟩, b, hb, hm.trans (by decide +kernel), ?_⟩
  · rw [hn]
    exact hi.mpr (by decide +kernel)
  · rw [hm, Bool.eq_false_iff]
    exact fun h => absurd (hj.mp h) (by decide +kernel)

/-- A key with a hyphen is quoted as the name of a member, but not in the name of an alias. -/
theorem exists_alias_not_identifier :
    ¬ ∀ j s, Schema.decode j = .ok s → isIdentifier s.interfaceName = true →
      ∀ a ∈ s.aliases, isIdentifier a.name = true := by
  intro h
  have hd : Schema.decode (literalSchemaJson "User" ["content-type"]) =
      .ok (literalSchema "User" ["content-type"]) := rfl
  have h := h _ _ hd (by decide +kernel)
  revert h
  decide +kernel

end ApiTypings
