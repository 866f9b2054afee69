import ApiTypings.Decode.Schema
import ApiTypings.Proofs.Decode.Nesting

/-! # Parts of a record

A part of a record is read from one member, and the other members leave it alone. So what a record
holds in a part is what was written for it, wherever the member stands, and what the record started
with if nothing was written.
-/

namespace ApiTypings

variable {α β ρ : Type}

namespace Json

def item? (i : ℕ) : Json → Option Json
  | .array items => items[i]?
  | _ => none

variable {read : Json → Decoded α} {items : List Json} {as : List α} {j : Json} {i : ℕ} {a : α}

theorem orNull_eq_some (h : j.orNull read = .ok (some a)) : read j = .ok a := by
  cases j <;> simp_all [orNull, Decoded.map_eq_ok_iff]

theorem orDefault_cases {default : α} (h : j.orDefault default read = .ok a) :
    j = .null ∧ a = default ∨ read j = .ok a := by
  obtain ⟨o, ho, hs⟩ := Decoded.map_eq_ok_iff.mp h
  cases o with
  | some b =>
    obtain rfl : b = a := hs
    exact .inr (orNull_eq_some ho)
  | none =>
    cases j with
    | null => exact .inl ⟨rfl, hs.symm⟩
    | _ => cases (Decoded.map_eq_ok_iff.mp ho).choose_spec.2

theorem exists_item_of_mapM (h : items.mapM read = .ok as) (ha : as[i]? = some a) :
    ∃ v, items[i]? = some v ∧ read v = .ok a := by
  induction items generalizing as i with
  | nil =>
    obtain rfl := Except.ok.inj h
    cases ha
  | cons v items ih =>
    rw [List.mapM_cons] at h
    obtain ⟨b, hb, h⟩ := Decoded.bind_eq_ok_iff.mp h
    obtain ⟨bs, hbs, h⟩ := Decoded.bind_eq_ok_iff.mp h
    obtain rfl := Except.ok.inj h
    cases i with
    | zero => exact ⟨v, rfl, hb.trans (congrArg _ (Option.some.inj ha))⟩
    | succ i => exact ih hbs ha

theorem exists_item_of_asList (h : j.asList read = .ok as) (ha : as[i]? = some a) :
    ∃ v, j.item? i = some v ∧ read v = .ok a := by
  cases j with
  | array items => exact exists_item_of_mapM h ha
  | _ => cases h

end Json

namespace Record

/-- The value that is written for a field: in an object by name, in an array by its place. -/
def member? (r : Record β ρ) (key : String) : Json → Option Json
  | .object members => members.lookup key
  | .array items => items[(r.fields.map Field.name).idxOf key]?
  | _ => none

variable {r : Record β ρ} {key : String} {get : β → Decoded α} {set : α → ρ → ρ} {part : ρ → α}
  {seen : List String} {x y : ρ} {v : β} {members : List (String × β)} {items : List β}

/-- What was read into a part, or what was there before. -/
def Holds (get : β → Decoded α) (written : Option β) (before after : α) : Prop :=
  match written with
  | some v => get v = .ok after
  | none => after = before

theorem Part.of_field (h : r.Part key get set part) {f : Field β ρ} (hf : r.field? key = some f)
    (hr : f.read v x = .ok y) : get v = .ok (part y) := by
  obtain ⟨g, hg, hget⟩ := h.field
  obtain rfl := Option.some.inj (hf.symm.trans hg)
  rw [hget] at hr
  obtain ⟨a, ha, rfl⟩ := Decoded.map_eq_ok_iff.mp hr
  rw [ha, h.part_set]

theorem Part.of_other (h : r.Part key get set part) {f : Field β ρ} (hf : f ∈ r.fields)
    (hn : f.name ≠ key) (hr : f.read v x = .ok y) : part y = part x := by
  rw [← h.set_part x, h.others f hf hn] at hr
  obtain ⟨z, -, rfl⟩ := Decoded.map_eq_ok_iff.mp hr
  rw [h.part_set]

theorem Part.readMembers_of_seen (h : r.Part key get set part) (hk : key ∈ seen)
    (hr : r.readMembers seen x members = .ok y) : part y = part x := by
  rw [← h.set_part x, h.readMembers_set hk] at hr
  obtain ⟨z, -, rfl⟩ := Decoded.map_eq_ok_iff.mp hr
  rw [h.part_set]

theorem Part.readMembers (h : r.Part key get set part) (hk : key ∉ seen)
    (hr : r.readMembers seen x members = .ok y) :
    Holds get (members.lookup key) (part x) (part y) := by
  induction members generalizing seen x with
  | nil =>
    obtain rfl := Except.ok.inj hr
    rfl
  | cons m members ih =>
    obtain ⟨k, v⟩ := m
    rw [Record.readMembers] at hr
    cases hf : r.field? k with
    | none =>
      simp only [hf] at hr
      have hne : key ≠ k := by
        rintro rfl
        obtain ⟨f, hf', -⟩ := h.field
        simp [hf] at hf'
      rw [List.lookup_cons, beq_eq_false_iff_ne.mpr hne]
      exact ih hk hr
    | some f =>
      simp only [hf] at hr
      split_ifs at hr with hs
      obtain ⟨z, hz, hr⟩ := Decoded.bind_eq_ok_iff.mp hr
      obtain ⟨hm, rfl⟩ := field?_eq_some hf
      by_cases hne : key = f.name
      · subst hne
        rw [List.lookup_cons_self]
        have hy := h.readMembers_of_seen List.mem_cons_self hr
        exact (h.of_field hf hz).trans (congrArg _ hy.symm)
      · rw [List.lookup_cons, beq_eq_false_iff_ne.mpr hne, ← h.of_other hm (Ne.symm hne) hz]
        exact ih (by simp [hne, hk]) hr

theorem Part.readItems_of_not_mem (h : r.Part key get set part) {fields : List (Field β ρ)}
    (hf : fields ⊆ r.fields) (hk : key ∉ fields.map Field.name) {index : ℕ}
    (hr : r.readItems index fields x items = .ok y) : part y = part x := by
  induction fields generalizing index x items with
  | nil =>
    cases items with
    | nil =>
      obtain rfl := Except.ok.inj hr
      rfl
    | cons v items => cases hr
  | cons f fields ih =>
    rw [List.map_cons, List.mem_cons, not_or] at hk
    obtain ⟨hm, hf⟩ := List.cons_subset.mp hf
    cases items with
    | nil =>
      rw [Record.readItems] at hr
      split_ifs at hr
      exact ih hf hk.2 hr
    | cons v items =>
      obtain ⟨z, hz, hr⟩ := Decoded.bind_eq_ok_iff.mp hr
      exact (ih hf hk.2 hr).trans (h.of_other hm (Ne.symm hk.1) hz)

theorem Part.readItems (h : r.Part key get set part) (hn : (r.fields.map Field.name).Nodup)
    {fields : List (Field β ρ)} (hf : fields.Sublist r.fields) {index : ℕ}
    (hr : r.readItems index fields x items = .ok y) :
    Holds get items[(fields.map Field.name).idxOf key]? (part x) (part y) := by
  induction fields generalizing index x items with
  | nil =>
    cases items with
    | nil =>
      obtain rfl := Except.ok.inj hr
      rfl
    | cons v items => cases hr
  | cons f fields ih =>
    have hfields := (List.sublist_cons_self f fields).trans hf
    cases items with
    | nil =>
      rw [Record.readItems] at hr
      split_ifs at hr
      exact ih hfields hr
    | cons v items =>
      obtain ⟨z, hz, hr⟩ := Decoded.bind_eq_ok_iff.mp hr
      have hm : f ∈ r.fields := hf.subset List.mem_cons_self
      by_cases hk : f.name = key
      · -- The fields that follow have other names.
        have hl : f.name ∉ fields.map Field.name := by
          have hnodup := (hf.map Field.name).nodup hn
          rw [List.map_cons, List.nodup_cons] at hnodup
          exact hnodup.1
        have hy := h.readItems_of_not_mem hfields.subset (hk ▸ hl) hr
        obtain ⟨g, hg, -⟩ := h.field
        obtain rfl : f = g := List.inj_on_of_nodup_map hn hm (field?_eq_some hg).1
          (hk.trans (field?_eq_some hg).2.symm)
        rw [List.map_cons, hk, List.idxOf_cons_self]
        exact (h.of_field hg hz).trans (congrArg _ hy.symm)
      · rw [List.map_cons, List.idxOf_cons_ne _ hk, ← h.of_other hm hk hz]
        exact ih hfields hr

/-! ## Records of values -/

section Read

variable {r : Record Json ρ} {get : Json → Decoded α} {set : α → ρ → ρ} {part : ρ → α} {j : Json}

theorem Part.read (h : r.Part key get set part) (hn : (r.fields.map Field.name).Nodup)
    (hr : r.read x j = .ok y) : Holds get (r.member? key j) (part x) (part y) := by
  cases j with
  | object members => exact h.readMembers List.not_mem_nil hr
  | array items => exact h.readItems hn (.refl _) hr
  | _ => cases hr

theorem Part.exists_of_some {get : Json → Decoded α} {set : Option α → ρ → ρ}
    {part : ρ → Option α} (h : r.Part key (Json.orNull get) set part)
    (hn : (r.fields.map Field.name).Nodup) (hr : r.read x j = .ok y) (hx : part x = none) {a : α}
    (hy : part y = some a) : ∃ v, r.member? key j = some v ∧ get v = .ok a := by
  have hh := h.read hn hr
  cases hv : r.member? key j with
  | none =>
    rw [hv, hx] at hh
    cases hy.symm.trans hh
  | some v =>
    rw [hv, hy] at hh
    exact ⟨v, rfl, Json.orNull_eq_some hh⟩

theorem Part.exists_item {get : Json → Decoded α} {set : List α → ρ → ρ} {part : ρ → List α}
    (h : r.Part key (Json.orDefault [] (Json.asList get)) set part)
    (hn : (r.fields.map Field.name).Nodup) (hr : r.read x j = .ok y) (hx : part x = []) {i : ℕ}
    {a : α} (hy : (part y)[i]? = some a) :
    ∃ v, (r.member? key j).bind (·.item? i) = some v ∧ get v = .ok a := by
  have hh := h.read hn hr
  cases hv : r.member? key j with
  | none =>
    rw [hv, hx] at hh
    rw [show part y = [] from hh] at hy
    cases hy
  | some v =>
    rw [hv] at hh
    rcases Json.orDefault_cases hh with ⟨-, hn⟩ | hl
    · rw [hn] at hy
      cases hy
    · exact Json.exists_item_of_asList hl hy

end Read

end Record

end ApiTypings
