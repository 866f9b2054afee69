import ApiTypings.Proofs.Typing.Layers
import ApiTypings.Typing.Schemas

/-! # Unresolved references

Through arrays and maps a definition leads to at most one reference. If that reference stands for
no schema, the type has `unknown` in its place and one warning names it; else the type has the
name of the schema there and nothing is said.
-/

namespace ApiTypings

open TypeScript

/-! ## References -/

/-- The text after the last slash of a reference. -/
def IsIdOf (id reference : String) : Prop :=
  '/' ∉ id.toList ∧ (reference = id ∨ ∃ before, reference = before ++ "/" ++ id)

theorem takeWhile_reverse_eq_iff {α : Type} [DecidableEq α] {a : α} {s t : List α} :
    (s.reverse.takeWhile (· != a)).reverse = t ↔
      a ∉ t ∧ (s = t ∨ ∃ before, s = before ++ a :: t) := by
  constructor
  · rintro rfl
    have hs := congrArg List.reverse (List.takeWhile_append_dropWhile (p := (· != a)) (l := s.reverse))
    rw [List.reverse_append, List.reverse_reverse] at hs
    refine ⟨fun h => ?_, ?_⟩
    · simpa using List.mem_takeWhile_imp (List.mem_reverse.mp h)
    · cases hd : s.reverse.dropWhile (· != a) with
      | nil => exact .inl (by simpa [hd] using hs.symm)
      | cons b rest =>
        have hb := List.head?_dropWhile_not (· != a) s.reverse
        obtain rfl : b = a := by simpa [hd] using hb
        exact .inr ⟨rest.reverse, by simpa [hd] using hs.symm⟩
  · have hw : ∀ {t : List α}, a ∉ t → t.reverse.takeWhile (· != a) = t.reverse := fun h =>
      List.takeWhile_eq_self_iff.mpr fun b hb => by
        simpa using fun he : b = a => h (he ▸ List.mem_reverse.mp hb)
    rintro ⟨ht, rfl | ⟨before, rfl⟩⟩
    · rw [hw ht, List.reverse_reverse]
    · rw [List.reverse_append, List.reverse_cons, List.append_assoc,
        List.takeWhile_append_of_pos, List.singleton_append, List.takeWhile_cons_of_neg (by simp),
        List.append_nil, List.reverse_reverse]
      exact List.takeWhile_eq_self_iff.mp (hw ht)

theorem isIdOf_iff {id reference : String} : IsIdOf id reference ↔ referenceId reference = id := by
  have ho : ∀ s : List Char, String.ofList s = id ↔ s = id.toList := fun s =>
    ⟨fun h => by rw [← h, String.toList_ofList], fun h => by rw [h, String.ofList_toList]⟩
  rw [referenceId, ho, takeWhile_reverse_eq_iff, IsIdOf]
  refine and_congr_right fun _ => or_congr String.toList_inj.symm ?_
  constructor
  · rintro ⟨before, rfl⟩
    exact ⟨before.toList, by simp⟩
  · rintro ⟨before, h⟩
    exact ⟨String.ofList before, String.ext (by simpa using h)⟩

namespace Registry

variable (r : Registry) {id name reference : String}

def HasName (id name : String) : Prop :=
  ∃ later earlier, r.entries = later ++ (id, name) :: earlier ∧ id ∉ later.map Prod.fst

theorem name?_eq_some_iff : r.name? id = some name ↔ r.HasName id name := by
  rw [name?, List.lookup_eq_some_iff, HasName]
  refine exists_congr fun later => exists_congr fun earlier => and_congr_right fun _ => ?_
  simp only [List.mem_map, not_exists, not_and, bne_iff_ne]
  exact forall₂_congr fun _ _ => ne_comm

theorem name?_eq_none_iff : r.name? id = none ↔ id ∉ r.entries.map Prod.fst := by
  rw [name?, List.lookup_eq_none_iff]
  simp only [List.mem_map, not_exists, not_and, bne_iff_ne]
  exact forall₂_congr fun _ _ => ne_comm

/-- Nothing is registered for the id of a reference, or an empty name. -/
def IsDangling (reference : String) : Prop :=
  ∃ id, IsIdOf id reference ∧ (id ∉ r.entries.map Prod.fst ∨ r.HasName id "")

theorem schemaName?_eq_none_iff : r.schemaName? reference = none ↔ r.IsDangling reference := by
  simp only [IsDangling, isIdOf_iff, exists_eq_left', ← name?_eq_none_iff, ← name?_eq_some_iff]
  unfold schemaName? resolve?
  cases r.name? (referenceId reference) with
  | none => simp
  | some name => by_cases hn : name = "" <;> simp [hn, Option.filter]

theorem schemaName?_of_hasName (hi : IsIdOf id reference) (hn : r.HasName id name)
    (he : name ≠ "") : r.schemaName? reference = some (typeName name) := by
  rw [schemaName?, resolve?, isIdOf_iff.mp hi, r.name?_eq_some_iff.mpr hn,
    Option.filter_some_pos (by simpa using he), Option.map_some]

end Registry

/-! ## Types and warnings -/

section Types

variable (r : Registry) (key : String)

/-- The reference for which a definition is left without a schema. -/
def Registry.unresolved? (p : Property) : Option String :=
  p.lastReference?.filter fun target => (r.schemaName? target).isNone

theorem Registry.unresolved?_eq_some_iff {p : Property} {target : String} :
    r.unresolved? p = some target ↔ ∃ layers, p.Leads layers target ∧ r.IsDangling target := by
  rw [unresolved?, Option.filter_eq_some_iff, Property.lastReference?_eq_some_iff,
    Option.isNone_iff_eq_none, schemaName?_eq_none_iff, exists_and_right]

theorem value_referenceType (target : String) :
    (referenceType r key target).value = (r.schemaName? target).elim .unknown .schema := by
  unfold referenceType
  rw [Warned.value_bind, value_resolveReference]
  cases r.schemaName? target <;> rfl

theorem warnings_referenceType (target : String) :
    (referenceType r key target).warnings =
      if (r.schemaName? target).isNone then [.unresolved target key] else [] := by
  unfold referenceType resolveReference Registry.schemaName?
  cases (r.resolve? target).filter fun name => !name.isEmpty <;> rfl

/-- Only the reference to which a definition leads can cause a warning. -/
theorem warnings_typeOf (owner : Option String) (p : Property) :
    (typeOf r key owner p).warnings =
      p.lastReference?.elim [] fun target => (referenceType r key target).warnings := by
  rcases typeOf_cases key owner p with ⟨layers, target, hl⟩ | ⟨hr, t, -, ht⟩
  · rw [typeOf_of_leads key r hl, Warned.warnings_map, hl.lastReference?, Option.elim_some]
  · rw [ht, hr, Warned.warnings_pure, Option.elim_none]

theorem warnings_memberOf (owner : Option String) (required : Option (List String))
    (x : String × Property) :
    (memberOf r owner required x).warnings =
      ((r.unresolved? x.2).map fun target => Warning.unresolved target x.1).toList := by
  have hm : (memberOf r owner required x).warnings = (typeOf r x.1 owner x.2).warnings :=
    List.append_nil _
  rw [hm, warnings_typeOf, Registry.unresolved?]
  cases x.2.lastReference? with
  | none => rfl
  | some target =>
    rw [Option.elim_some, warnings_referenceType, Option.filter_some]
    split_ifs <;> rfl

end Types

/-! ## Declarations -/

/-- A member whose type has, at the place of the reference to which its property leads, `unknown`
if the reference stands for no schema and else the name registered last. -/
structure Registry.Audits (r : Registry) (x : String × Property) (m : Member) : Prop where
  key : m.key = x.1
  dangling : ∀ layers target, x.2.Leads layers target → r.IsDangling target →
    m.type = within layers .unknown
  named : ∀ layers target id name, x.2.Leads layers target → IsIdOf id target →
    r.HasName id name → name ≠ "" → m.type = within layers (.schema (typeName name))

theorem audits_memberOf (r : Registry) (owner : Option String) (required : Option (List String))
    (x : String × Property) : r.Audits x (memberOf r owner required x).value := by
  have ht : ∀ {layers target}, x.2.Leads layers target →
      (memberOf r owner required x).value.type =
        within layers ((r.schemaName? target).elim .unknown .schema) := by
    intro layers target h
    change (typeOf r x.1 owner x.2).value = _
    rw [typeOf_of_leads x.1 r h, Warned.value_map, value_referenceType]
  refine ⟨rfl, fun layers target hl hd => ?_, fun layers target id name hl hi hn he => ?_⟩
  · rw [ht hl, r.schemaName?_eq_none_iff.mpr hd, Option.elim_none]
  · rw [ht hl, r.schemaName?_of_hasName hi hn he, Option.elim_some]

/-- One warning for every property that leads to a reference without a schema, in order, and no
other; and the types of all members say what became of the references. -/
theorem declareSchemas_audited (r : Registry) (schemas : List Schema) :
    (∀ p target, r.unresolved? p = some target ↔
      ∃ layers, p.Leads layers target ∧ r.IsDangling target) ∧
    (declareSchemas r schemas).warnings.map Warning.message =
      (schemas.flatMap Schema.properties).filterMap (fun x => (r.unresolved? x.2).map fun target =>
        "unresolved reference '" ++ target ++ "' at '" ++ x.1 ++ "', using 'unknown'") ∧
    List.Forall₂ (fun s i => List.Forall₂ r.Audits s.properties i.members) schemas
      (declareSchemas r schemas).value.interfaces := by
  refine ⟨fun p target => r.unresolved?_eq_some_iff, ?_, ?_⟩
  · have hw : (declareSchemas r schemas).warnings =
        (schemas.flatMap Schema.properties).filterMap fun x =>
          (r.unresolved? x.2).map fun target => Warning.unresolved target x.1 := by
      simp only [declareSchemas, Schema.interface, Warned.warnings_bind, Warned.warnings_each,
        Warned.warnings_pure, List.append_nil, warnings_memberOf, List.filterMap_eq_flatMap_toList,
        List.flatMap_assoc]
    rw [hw, List.map_filterMap]
    simp only [Option.map_map]
    rfl
  · simp only [declareSchemas, Schema.interface, Warned.value_bind, Warned.value_each,
      Warned.value_pure, List.forall₂_map_right_iff, List.forall₂_same]
    exact fun s _ x _ => audits_memberOf r _ _ x

/-- Two properties that lead to references, and one whose values declare no type. -/
def nestedSchema : Schema :=
  let n : Notes := ⟨none, false⟩
  ⟨"s1", "Page«User»", "Page", none,
    [("rows", .array n (some (.array n (some (.reference n "#/definitions/s1"))))),
      ("index", .object n (some (.array n (some (.reference n "blank")))) [] none),
      ("extra", .object n (some (.reference n "ghost")) [] none)], none⟩

/-- One id was registered twice, another one under an empty name. -/
theorem nestedSchema_audited :
    let r : Registry := ⟨[("s1", "Page«User»"), ("blank", ""), ("s1", "Old")]⟩
    (declareSchemas r [nestedSchema]).warnings.map Warning.message =
        ["unresolved reference 'blank' at 'index', using 'unknown'"] ∧
      ∃ rows index extra, (declareSchemas r [nestedSchema]).value.interfaces.map Interface.members =
          [[rows, index, extra]] ∧
        rows.type = .array (.array (.schema "PageUser")) ∧ index.type = .map (.array .unknown) := by
  intro r
  obtain ⟨-, hw, hm⟩ := declareSchemas_audited r [nestedSchema]
  obtain ⟨hi, -⟩ := List.forall₂_cons.mp hm
  obtain ⟨hr, hi⟩ := List.forall₂_cons.mp hi
  obtain ⟨hx, -⟩ := List.forall₂_cons.mp hi
  have hs : r.schemaName? "#/definitions/s1" = some "PageUser" := by decide +kernel
  have hb : r.schemaName? "blank" = none := by decide +kernel
  refine ⟨hw.trans ?_, _, _, _, rfl, ?_, ?_⟩
  · simp [nestedSchema, Registry.unresolved?, Property.lastReference?, itemsReference?,
      Property.hasType, Option.filter, hs, hb]
  · exact hr.named _ _ "s1" "Page«User»" (.items trivial (.items trivial (.reference _ _)))
      (isIdOf_iff.mpr (by decide +kernel)) ⟨[], _, rfl, List.not_mem_nil⟩ (by decide)
  · exact hx.dangling _ _ (.values rfl (.items trivial (.reference _ _)))
      (r.schemaName?_eq_none_iff.mp hb)

end ApiTypings
