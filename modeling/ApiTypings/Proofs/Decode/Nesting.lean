import ApiTypings.Decode.Endpoint
import ApiTypings.Proofs.Decode.Slots

/-! # Definitions in their places

A definition may stand alone, as the items, the additional values or a property of another one, and
in a parameter. It is read in one place exactly if it is read in the others, and it is the same
definition everywhere.
-/

namespace ApiTypings

/-! ## Parts of a definition -/

open Record

def PropertyView.ofJson (j : Json) : PropertyView :=
  ⟨j, fun _ => Property.decode j, fun _ => Properties.decode j⟩

theorem memberViews_append (ms ms' : List (String × Json)) :
    memberViews (ms ++ ms') = memberViews ms ++ memberViews ms' := by
  induction ms with
  | nil => rfl
  | cons m ms ih => exact congrArg (List.cons _) ih

theorem itemViews_append (js js' : List Json) :
    itemViews (js ++ js') = itemViews js ++ itemViews js' := by
  induction js with
  | nil => rfl
  | cons j js ih => exact congrArg (List.cons _) ih

theorem length_itemViews (js : List Json) : (itemViews js).length = js.length := by
  induction js with
  | nil => rfl
  | cons j js ih => exact congrArg (· + 1) ih

theorem itemsPart : propertyRecord.Part "items" (fun v => v.orNull v.asProperty)
    (fun a d => { d with items := a }) PropertyDraft.items :=
  part_of_component rfl (fun _ _ => rfl) (by simp [propertyRecord]) fun _ _ _ => ⟨rfl, rfl, rfl⟩

theorem additionalPart : propertyRecord.Part "additionalProperties" PropertyView.asAdditional
    (fun a d => { d with additional := a }) PropertyDraft.additional :=
  part_of_component rfl (fun _ _ => rfl) (by simp [propertyRecord]) fun _ _ _ => ⟨rfl, rfl, rfl⟩

theorem propertiesPart : propertyRecord.Part "properties"
    (fun v => (·.getD []) <$> v.orNull v.asProperties)
    (fun a d => { d with properties := a }) PropertyDraft.properties :=
  part_of_component rfl (fun _ _ => by rw [bind_map_left]) (by simp [propertyRecord])
    fun _ _ _ => ⟨rfl, rfl, rfl⟩

theorem propertyRecord_nodup : (propertyRecord.fields.map Field.name).Nodup := by decide

/-- What stands around a member of a definition: the other members, or, in a definition that is
written as an array, the items on both sides. -/
inductive Around (key : String) where
  | members (before after : List (String × Json))
  | items (before after : List Json)
      (h : (propertyRecord.fields.map Field.name)[before.length]? = some key)

namespace Around

variable {key : String}

def put : Around key → Json → Json
  | .members before after, j => .object (before ++ (key, j) :: after)
  | .items before after _, j => .array (before ++ j :: after)

def draft : Around key → Json → Decoded PropertyDraft
  | .members before after, j =>
    propertyRecord.readMembers [] .blank (memberViews (before ++ (key, j) :: after))
  | .items before after _, j =>
    propertyRecord.readItems 0 propertyRecord.fields .blank (itemViews (before ++ j :: after))

theorem decode_put (A : Around key) (j : Json) :
    Property.decode (A.put j) = PropertyDraft.property <$> A.draft j := by
  cases A with
  | members before after => rw [put, draft, Property.decode]
  | items before after h => rw [put, draft, Property.decode]

variable {α : Type} {get : PropertyView → Decoded α} {set : α → PropertyDraft → PropertyDraft}
  {A : Around key} {j j' : Json}

theorem draft_eq_ok_iff (h : propertyRecord.Slot key get set) {a₀ : α}
    (h₀ : get (.ofJson .null) = .ok a₀) {d : PropertyDraft} :
    A.draft j = .ok d ↔
      ∃ a d₀, get (.ofJson j) = .ok a ∧ A.draft .null = .ok d₀ ∧ set a d₀ = d := by
  -- A definition is read from the views of its parts, so the slot is one among these.
  cases A with
  | members before after =>
    have hv : ∀ j, memberViews (before ++ (key, j) :: after) =
        memberViews before ++ (key, .ofJson j) :: memberViews after := fun j =>
      memberViews_append before _
    rw [draft, draft, hv, hv]
    exact h.readMembers_replace h₀
  | items before after hk =>
    have hv : ∀ j, itemViews (before ++ j :: after) =
        itemViews before ++ .ofJson j :: itemViews after := fun j => itemViews_append before _
    rw [draft, draft, hv, hv]
    exact h.readItems_replace propertyRecord_nodup (by rwa [length_itemViews]) h₀

/-- A definition can be read with a value in one of its slots exactly if the value can be read and
the definition can be read with `null` there. -/
theorem decode_put_iff (h : propertyRecord.Slot key get set) {a₀ : α}
    (h₀ : get (.ofJson .null) = .ok a₀) {q : Property} :
    Property.decode (A.put j) = .ok q ↔
      ∃ a d, get (.ofJson j) = .ok a ∧ A.draft .null = .ok d ∧ (set a d).property = q := by
  rw [decode_put, Decoded.map_eq_ok_iff]
  simp only [draft_eq_ok_iff (j := j) h h₀]
  constructor
  · rintro ⟨_, ⟨a, d, ha, hd, rfl⟩, rfl⟩
    exact ⟨a, d, ha, hd, rfl⟩
  · rintro ⟨a, d, ha, hd, rfl⟩
    exact ⟨_, ⟨a, d, ha, hd, rfl⟩, rfl⟩

theorem exists_decode_put_congr (h : propertyRecord.Slot key get set) {a₀ : α}
    (h₀ : get (.ofJson .null) = .ok a₀) {P : Prop}
    (hj : (∃ a, get (.ofJson j) = .ok a) ↔ (∃ a, get (.ofJson j') = .ok a) ∧ P) :
    (∃ q, Property.decode (A.put j) = .ok q) ↔
      (∃ q, Property.decode (A.put j') = .ok q) ∧ P := by
  have he : ∀ j, (∃ q, Property.decode (A.put j) = .ok q) ↔
      (∃ a, get (.ofJson j) = .ok a) ∧ ∃ d, A.draft .null = .ok d := by
    intro j
    simp only [decode_put_iff h h₀]
    constructor
    · rintro ⟨_, a, d, ha, hd, -⟩
      exact ⟨⟨a, ha⟩, d, hd⟩
    · rintro ⟨⟨a, ha⟩, d, hd⟩
      exact ⟨_, a, d, ha, hd, rfl⟩
  rw [he, he, hj, and_right_comm]

/-- Definitions that differ in one slot alone are made of drafts that differ there alone. -/
theorem exists_draft_of_decode (h : propertyRecord.Slot key get set) {a₀ : α}
    (h₀ : get (.ofJson .null) = .ok a₀) {q q' : Property}
    (hq : Property.decode (A.put j) = .ok q) (hq' : Property.decode (A.put j') = .ok q') :
    ∃ a a' d, get (.ofJson j) = .ok a ∧ get (.ofJson j') = .ok a' ∧ (set a d).property = q ∧
      (set a' d).property = q' := by
  obtain ⟨a, d, ha, hd, rfl⟩ := (decode_put_iff h h₀).mp hq
  obtain ⟨a', d', ha', hd', rfl⟩ := (decode_put_iff h h₀).mp hq'
  obtain rfl := Except.ok.inj (hd.symm.trans hd')
  exact ⟨a, a', d, ha, ha', rfl, rfl⟩

end Around

namespace PropertyDraft

variable {d : PropertyDraft} {notes : Notes}

/-- The types alone decide that a definition is an array. -/
theorem property_array {items : Option Property} (h : d.property = .array notes items)
    (d' : PropertyDraft) (ht : d'.types = d.types) : d'.property = .array d'.notes d'.items := by
  have hf : d.types.find? (fun t => t != "null") = some "array" := by
    unfold property at h
    split at h
    case h_5 hf => exact hf
    case h_7 => split at h <;> cases h
    all_goals cases h
  rw [property, ht, hf]
  rfl

theorem property_object {additional : Option Property} {properties : Properties}
    {required : Option (List String)} (h : d.property = .object notes additional properties required)
    (d' : PropertyDraft) (ht : d'.types = d.types) :
    d'.property = .object d'.notes d'.additional d'.properties d'.required := by
  have hf : d.types.find? (fun t => t != "null") = some "object" := by
    unfold property at h
    split at h
    case h_6 hf => exact hf
    case h_7 => split at h <;> cases h
    all_goals cases h
  rw [property, ht, hf]
  rfl

end PropertyDraft

/-! ## Maps of definitions -/

theorem decodeEntries_cons_eq_ok_iff {key : String} {j : Json} {ms : List (String × Json)}
    {ps : Properties} :
    decodeEntries ((key, j) :: ms) = .ok ps ↔
      ∃ p qs, Property.decode j = .ok p ∧ decodeEntries ms = .ok qs ∧ (key, p) :: qs = ps := by
  simp only [decodeEntries, Decoded.bind_eq_ok_iff]
  constructor
  · rintro ⟨p, hp, qs, hq, h⟩
    exact ⟨p, qs, hp, hq, Except.ok.inj h⟩
  · rintro ⟨p, qs, hp, hq, rfl⟩
    exact ⟨p, hp, qs, hq, rfl⟩

theorem decodeEntries_append_eq_ok_iff {ms ms' : List (String × Json)} {ps : Properties} :
    decodeEntries (ms ++ ms') = .ok ps ↔
      ∃ qs qs', decodeEntries ms = .ok qs ∧ decodeEntries ms' = .ok qs' ∧ qs ++ qs' = ps := by
  induction ms generalizing ps with
  | nil => simp [decodeEntries]
  | cons m ms ih =>
    obtain ⟨key, j⟩ := m
    simp only [List.cons_append, decodeEntries_cons_eq_ok_iff, ih]
    constructor
    · rintro ⟨p, _, hp, ⟨qs, qs', hq, hq', rfl⟩, rfl⟩
      exact ⟨(key, p) :: qs, qs', ⟨p, qs, hp, hq, rfl⟩, hq', rfl⟩
    · rintro ⟨_, qs', ⟨p, qs, hp, hq, rfl⟩, hq', rfl⟩
      exact ⟨p, _, hp, ⟨qs, qs', hq, hq', rfl⟩, rfl⟩

theorem map_fst_of_decodeEntries {ms : List (String × Json)} {ps : Properties}
    (h : decodeEntries ms = .ok ps) : ps.map Prod.fst = ms.map Prod.fst := by
  induction ms generalizing ps with
  | nil =>
    obtain rfl := Except.ok.inj h
    rfl
  | cons m ms ih =>
    obtain ⟨p, qs, -, hq, rfl⟩ := decodeEntries_cons_eq_ok_iff.mp h
    exact congrArg (List.cons _) (ih hq)

section Lookup

variable {α : Type} {key k : String} {value : α} {entries merged : List (String × α)}

theorem lookup_assign_self : (assign key value entries).lookup key = some value := by
  induction entries with
  | nil => simp [assign]
  | cons x entries ih =>
    obtain ⟨k, v⟩ := x
    unfold assign
    split_ifs with hx
    · exact List.lookup_cons_self
    · simpa [List.lookup_cons, beq_eq_false_iff_ne.mpr (Ne.symm hx)] using ih

theorem lookup_assign_of_ne (h : k ≠ key) :
    (assign key value entries).lookup k = entries.lookup k := by
  induction entries with
  | nil => simp [assign, h]
  | cons x entries ih =>
    obtain ⟨k', v⟩ := x
    unfold assign
    split_ifs with hx
    · subst hx
      simp [List.lookup_cons, beq_eq_false_iff_ne.mpr h]
    · simp [List.lookup_cons, ih]

theorem lookup_foldl_assign (h : key ∉ entries.map Prod.fst) :
    (entries.foldl (fun merged x => assign x.1 x.2 merged) merged).lookup key =
      merged.lookup key := by
  induction entries generalizing merged with
  | nil => rfl
  | cons x entries ih =>
    rw [List.map_cons, List.mem_cons, not_or] at h
    rw [List.foldl_cons, ih h.2, lookup_assign_of_ne h.1]

theorem lookup_mergeEntries {earlier later : List (String × α)}
    (h : key ∉ later.map Prod.fst) :
    (mergeEntries (earlier ++ (key, value) :: later)).lookup key = some value := by
  unfold mergeEntries
  rw [List.foldl_append, List.foldl_cons]
  exact (lookup_foldl_assign h).trans lookup_assign_self

end Lookup

/-! ## Frames -/

/-- A definition with a place for another one: as its items, as its additional values, or as one of
its properties. -/
inductive Frame where
  | items (around : Around "items")
  | additional (around : Around "additionalProperties")
  | property (key : String) (earlier later : List (String × Json)) (around : Around "properties")

inductive Step where
  | items
  | additional
  | property (key : String)
deriving DecidableEq, Repr

namespace Frame

/-- The definition with a value in the place. -/
def plug : Frame → Json → Json
  | .items A, j => A.put j
  | .additional A, j => A.put j
  | .property key earlier later A, j => A.put (.object (earlier ++ (key, j) :: later))

def rest : Frame → Json
  | .items A => A.put .null
  | .additional A => A.put .null
  | .property _ earlier later A => A.put (.object (earlier ++ later))

def step : Frame → Step
  | .items _ => .items
  | .additional _ => .additional
  | .property key _ _ _ => .property key

/-- A frame whose type keeps what stands in the place. Of a repeated property the last counts. -/
def Keeps (F : Frame) : Prop :=
  match F with
  | .items _ => ∃ notes items, Property.decode F.rest = .ok (.array notes items)
  | .additional _ => ∃ notes additional properties required,
    Property.decode F.rest = .ok (.object notes additional properties required)
  | .property key _ later _ => key ∉ later.map Prod.fst ∧
    ∃ notes additional properties required,
      Property.decode F.rest = .ok (.object notes additional properties required)

theorem Keeps.exists_decode_rest {F : Frame} (h : F.Keeps) :
    ∃ q, Property.decode F.rest = .ok q := by
  cases F with
  | items A =>
    obtain ⟨notes, items, h⟩ := h
    exact ⟨_, h⟩
  | additional A =>
    obtain ⟨notes, additional, properties, required, h⟩ := h
    exact ⟨_, h⟩
  | property key earlier later A =>
    obtain ⟨-, notes, additional, properties, required, h⟩ := h
    exact ⟨_, h⟩

end Frame

/-- The definition one step inside another. -/
def Property.child? : Property → Step → Option Property
  | .array _ items, .items => items
  | .object _ additional _ _, .additional => additional
  | .object _ _ properties _, .property key => properties.lookup key
  | _, _ => none

def Property.descendant? (p : Property) : List Step → Option Property
  | [] => some p
  | s :: steps => (p.child? s).bind fun p => p.descendant? steps

/-! ## One frame -/

theorem Json.readableItems_append (js js' : List Json) :
    readableItems (js ++ js') = (readableItems js && readableItems js') := by
  induction js with
  | nil => rfl
  | cons j js ih => rw [List.cons_append, readableItems, readableItems, ih, Bool.and_assoc]

theorem Json.readableMembers_append (ms ms' : List (String × Json)) :
    readableMembers (ms ++ ms') = (readableMembers ms && readableMembers ms') := by
  induction ms with
  | nil => rfl
  | cons m ms ih => rw [List.cons_append, readableMembers, readableMembers, ih, Bool.and_assoc]

theorem Json.readable_of_member {before after : List (String × Json)} {key : String} {j : Json}
    (h : (Json.object (before ++ (key, j) :: after)).readable = true) : j.readable = true := by
  rw [readable, readableMembers_append, readableMembers, Bool.and_eq_true, Bool.and_eq_true] at h
  exact h.2.1

theorem Json.readable_of_item {before after : List Json} {j : Json}
    (h : (Json.array (before ++ j :: after)).readable = true) : j.readable = true := by
  rw [readable, readableItems_append, readableItems, Bool.and_eq_true, Bool.and_eq_true] at h
  exact h.2.1

theorem Around.readable_of_put {key : String} {A : Around key} {j : Json}
    (h : (A.put j).readable = true) : j.readable = true := by
  cases A with
  | members before after => exact Json.readable_of_member h
  | items before after _ => exact Json.readable_of_item h

/-- A definition is written as an object or as an array. -/
def Json.IsContainer : Json → Prop
  | .object _ | .array _ => True
  | _ => False

theorem Around.isContainer_put {key : String} (A : Around key) (j : Json) :
    (A.put j).IsContainer := by
  cases A <;> trivial

namespace PropertyView

variable {j : Json}

theorem asDefinition_eq_ok_iff (hj : j.IsContainer) {a : Option Property} :
    (ofJson j).orNull (ofJson j).asProperty = .ok a ↔
      ∃ p, Property.decode j = .ok p ∧ some p = a := by
  cases j with
  | object ms => exact Decoded.map_eq_ok_iff
  | array js => exact Decoded.map_eq_ok_iff
  | _ => cases hj

/-- A container is no flag: as additional values it is a definition or it cannot be read. -/
theorem asAdditional_eq_ok_iff (hj : j.IsContainer) (hr : j.readable = true)
    {a : Option Property} :
    (ofJson j).asAdditional = .ok a ↔ ∃ p, Property.decode j = .ok p ∧ some p = a := by
  have hn : j.isNull = false := by cases j <;> first | rfl | cases hj
  unfold asAdditional ofJson
  cases Property.decode j with
  | error e =>
    cases j with
    | bool b => cases hj
    | _ => simp [hr, hn]
  | ok p => simp [hr, hn]

theorem asProperties_eq_ok_iff {ms : List (String × Json)} {ps : Properties} :
    (·.getD []) <$> (ofJson (.object ms)).orNull (ofJson (.object ms)).asProperties = .ok ps ↔
      ∃ qs, decodeEntries ms = .ok qs ∧ mergeEntries qs = ps := by
  change (·.getD []) <$> some <$> Properties.decode (.object ms) = .ok ps ↔ _
  rw [Functor.map_map, Properties.decode, Functor.map_map, Decoded.map_eq_ok_iff]
  rfl

end PropertyView

/-- An entry can be read among others exactly if it can be read alone and the others without it. -/
theorem exists_decodeEntries_iff {earlier later : List (String × Json)} {key : String} {j : Json} :
    (∃ ps, decodeEntries (earlier ++ (key, j) :: later) = .ok ps) ↔
      (∃ ps, decodeEntries (earlier ++ later) = .ok ps) ∧ ∃ p, Property.decode j = .ok p := by
  simp only [decodeEntries_append_eq_ok_iff, decodeEntries_cons_eq_ok_iff]
  constructor
  · rintro ⟨_, qs, _, hq, ⟨p, qs', hp, hq', rfl⟩, rfl⟩
    exact ⟨⟨_, qs, qs', hq, hq', rfl⟩, p, hp⟩
  · rintro ⟨⟨_, qs, qs', hq, hq', rfl⟩, p, hp⟩
    exact ⟨_, qs, _, hq, ⟨p, qs', hp, hq', rfl⟩, rfl⟩

namespace Frame

theorem isContainer_plug (F : Frame) (j : Json) : (F.plug j).IsContainer := by
  cases F <;> exact Around.isContainer_put _ _

theorem readable_of_plug {F : Frame} {j : Json} (h : (F.plug j).readable = true) :
    j.readable = true := by
  cases F with
  | items A => exact A.readable_of_put h
  | additional A => exact A.readable_of_put h
  | property key earlier later A => exact Json.readable_of_member (A.readable_of_put h)

variable {F : Frame} {j : Json} {p q : Property}

theorem exists_decode_plug_iff (hj : j.IsContainer) (hr : j.readable = true) :
    (∃ q, Property.decode (F.plug j) = .ok q) ↔
      (∃ q, Property.decode F.rest = .ok q) ∧ ∃ p, Property.decode j = .ok p := by
  cases F with
  | items A =>
    refine A.exists_decode_put_congr itemsPart.toSlot rfl ?_
    simp only [PropertyView.asDefinition_eq_ok_iff hj]
    exact ⟨fun ⟨_, p, hp, _⟩ => ⟨⟨none, rfl⟩, p, hp⟩, fun ⟨_, p, hp⟩ => ⟨some p, p, hp, rfl⟩⟩
  | additional A =>
    refine A.exists_decode_put_congr additionalPart.toSlot rfl ?_
    simp only [PropertyView.asAdditional_eq_ok_iff hj hr]
    exact ⟨fun ⟨_, p, hp, _⟩ => ⟨⟨none, rfl⟩, p, hp⟩, fun ⟨_, p, hp⟩ => ⟨some p, p, hp, rfl⟩⟩
  | property key earlier later A =>
    refine A.exists_decode_put_congr propertiesPart.toSlot rfl ?_
    simp only [PropertyView.asProperties_eq_ok_iff]
    constructor
    · rintro ⟨_, qs, hq, -⟩
      obtain ⟨⟨qs', hq'⟩, hp⟩ := exists_decodeEntries_iff.mp ⟨qs, hq⟩
      exact ⟨⟨_, qs', hq', rfl⟩, hp⟩
    · rintro ⟨⟨_, qs', hq', -⟩, hp⟩
      obtain ⟨qs, hq⟩ := exists_decodeEntries_iff.mpr ⟨⟨qs', hq'⟩, hp⟩
      exact ⟨_, qs, hq, rfl⟩

theorem child?_of_decode (hj : j.IsContainer) (hr : j.readable = true) (hk : F.Keeps)
    (hp : Property.decode j = .ok p) (hq : Property.decode (F.plug j) = .ok q) :
    q.child? F.step = some p := by
  cases F with
  | items A =>
    obtain ⟨notes, items, hk⟩ := hk
    obtain ⟨a, _, d, ha, -, rfl, hd⟩ := A.exists_draft_of_decode itemsPart.toSlot rfl hq hk
    obtain ⟨p', hp', rfl⟩ := (PropertyView.asDefinition_eq_ok_iff hj).mp ha
    obtain rfl := Except.ok.inj (hp.symm.trans hp')
    exact congrArg (Property.child? · .items)
      (PropertyDraft.property_array hd { d with items := some p } rfl)
  | additional A =>
    obtain ⟨notes, additional, properties, required, hk⟩ := hk
    obtain ⟨a, _, d, ha, -, rfl, hd⟩ := A.exists_draft_of_decode additionalPart.toSlot rfl hq hk
    obtain ⟨p', hp', rfl⟩ := (PropertyView.asAdditional_eq_ok_iff hj hr).mp ha
    obtain rfl := Except.ok.inj (hp.symm.trans hp')
    exact congrArg (Property.child? · .additional)
      (PropertyDraft.property_object hd { d with additional := some p } rfl)
  | property key earlier later A =>
    obtain ⟨hkey, notes, additional, properties, required, hk⟩ := hk
    obtain ⟨a, _, d, ha, -, rfl, hd⟩ := A.exists_draft_of_decode propertiesPart.toSlot rfl hq hk
    obtain ⟨ps, hps, rfl⟩ := PropertyView.asProperties_eq_ok_iff.mp ha
    obtain ⟨qs, _, -, hcons, rfl⟩ := decodeEntries_append_eq_ok_iff.mp hps
    obtain ⟨p', qs', hp', hlater, rfl⟩ := decodeEntries_cons_eq_ok_iff.mp hcons
    obtain rfl := Except.ok.inj (hp.symm.trans hp')
    refine (congrArg (Property.child? · (.property key))
      (PropertyDraft.property_object hd { d with properties := mergeEntries _ } rfl)).trans ?_
    exact lookup_mergeEntries (by rwa [map_fst_of_decodeEntries hlater])

/-! ## Frames in one another -/

/-- A value in frames inside one another, the outermost first. -/
def plugAll : List Frame → Json → Json
  | [], j => j
  | F :: C, j => F.plug (plugAll C j)

variable {C : List Frame}

theorem isContainer_plugAll (hj : j.IsContainer) : (plugAll C j).IsContainer := by
  cases C with
  | nil => exact hj
  | cons F C => exact isContainer_plug F _

theorem readable_of_plugAll_tail (h : (plugAll (F :: C).tail j).readable = true) :
    (plugAll C.tail j).readable = true := by
  cases C with
  | nil => exact h
  | cons F' C => exact readable_of_plug h

/-- Parts that cannot be read may stand in the outermost frame alone. -/
theorem exists_decode_plugAll_iff (hj : j.IsContainer)
    (hr : (plugAll C.tail j).readable = true) :
    (∃ q, Property.decode (plugAll C j) = .ok q) ↔
      (∀ F ∈ C, ∃ q, Property.decode F.rest = .ok q) ∧ ∃ p, Property.decode j = .ok p := by
  induction C with
  | nil => simp [plugAll]
  | cons F C ih =>
    -- What stands in the outermost frame is a definition in frames itself.
    rw [List.forall_mem_cons, and_assoc, ← ih (readable_of_plugAll_tail hr), plugAll]
    exact exists_decode_plug_iff (isContainer_plugAll hj) hr

theorem descendant?_of_decode (hj : j.IsContainer) (hr : (plugAll C.tail j).readable = true)
    (hk : ∀ F ∈ C, F.Keeps) (hp : Property.decode j = .ok p)
    (hq : Property.decode (plugAll C j) = .ok q) : q.descendant? (C.map step) = some p := by
  induction C generalizing q with
  | nil =>
    obtain rfl := Except.ok.inj (hp.symm.trans hq)
    rfl
  | cons F C ih =>
    rw [List.forall_mem_cons] at hk
    have hc := isContainer_plugAll (C := C) hj
    obtain ⟨-, q', hq'⟩ := (exists_decode_plug_iff hc hr).mp ⟨q, hq⟩
    rw [List.map_cons, Property.descendant?, child?_of_decode hc hr hk.1 hq' hq]
    exact ih (readable_of_plugAll_tail hr) hk.2 hq'

end Frame

end ApiTypings
