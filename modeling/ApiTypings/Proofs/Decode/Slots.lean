import Mathlib
import ApiTypings.Decode.Record

/-! # Slots of a record

A field that sets a part of its record which no other field looks at is a slot. What stands in the
slot decides nothing about the other members, so a member can be replaced by another one for the
same slot, in a record that is written as an array as well. Members that are no fields of the
record play no part in it.
-/

namespace ApiTypings

variable {α β ρ : Type}

theorem Decoded.bind_eq_ok_iff {x : Decoded α} {f : α → Decoded β} {b : β} :
    (x >>= f) = .ok b ↔ ∃ a, x = .ok a ∧ f a = .ok b := by
  cases x <;> simp [bind, Except.bind]

theorem Decoded.map_eq_ok_iff {x : Decoded α} {f : α → β} {b : β} :
    f <$> x = .ok b ↔ ∃ a, x = .ok a ∧ f a = b := by
  cases x <;> simp [Functor.map, Except.map]

namespace Record

variable {r : Record β ρ} {key : String} {get : β → Decoded α} {set : α → ρ → ρ}

theorem field?_eq_some {f : Field β ρ} (h : r.field? key = some f) :
    f ∈ r.fields ∧ f.name = key :=
  ⟨List.mem_of_find?_eq_some h, by simpa using List.find?_some h⟩

/-- A field that gets its value from a member and sets a part that the other fields leave alone. -/
structure Slot (r : Record β ρ) (key : String) (get : β → Decoded α) (set : α → ρ → ρ) : Prop where
  field : ∃ f, r.field? key = some f ∧ ∀ v x, f.read v x = (set · x) <$> get v
  others : ∀ f ∈ r.fields, f.name ≠ key → ∀ a v x, f.read v (set a x) = set a <$> f.read v x
  set_set : ∀ a b x, set a (set b x) = set a x

/-- A slot with the part of the record that it sets. -/
structure Part (r : Record β ρ) (key : String) (get : β → Decoded α) (set : α → ρ → ρ)
    (part : ρ → α) : Prop extends r.Slot key get set where
  part_set : ∀ a x, part (set a x) = a
  set_part : ∀ x, set (part x) x = x

/-- A field that reads one component of its record sets a part. -/
theorem part_of_component {part : ρ → α} {f : Field β ρ} (hf : r.field? key = some f)
    (hr : ∀ v x, f.read v x = do return set (← get v) x)
    (others : ∀ g ∈ r.fields, g.name ≠ key → ∀ a v x, g.read v (set a x) = set a <$> g.read v x)
    (laws : ∀ a b x, set a (set b x) = set a x ∧ part (set a x) = a ∧ set (part x) x = x) :
    r.Part key get set part where
  field := ⟨f, hf, fun v x => (hr v x).trans (bind_pure_comp _ _)⟩
  others := others
  set_set a b x := (laws a b x).1
  part_set a x := (laws a a x).2.1
  set_part x := (laws (part x) (part x) x).2.2

/-- A component that has to be there is missing until it is read. -/
theorem part_of_demanded {set : Option α → ρ → ρ} {part : ρ → Option α} {f : Field β ρ}
    (hf : r.field? key = some f) (hr : ∀ v x, f.read v x = do return set (some (← get v)) x)
    (others : ∀ g ∈ r.fields, g.name ≠ key → ∀ a v x, g.read v (set a x) = set a <$> g.read v x)
    (laws : ∀ a b x, set a (set b x) = set a x ∧ part (set a x) = a ∧ set (part x) x = x) :
    r.Part key (fun v => some <$> get v) set part :=
  part_of_component hf (fun v x => by rw [hr, bind_map_left]) others laws

variable {seen : List String} {x y : ρ} {members before after : List (String × β)}

/-- Once the slot is set, its value has no influence on the members that follow. -/
theorem Slot.readMembers_set (h : r.Slot key get set) (hk : key ∈ seen) (a : α) :
    r.readMembers seen (set a x) members = set a <$> r.readMembers seen x members := by
  induction members generalizing seen x with
  | nil => rfl
  | cons m members ih =>
    obtain ⟨k, v⟩ := m
    unfold readMembers
    cases hf : r.field? k with
    | none => exact ih hk
    | some f =>
      dsimp only
      split_ifs with hs
      · rfl
      · obtain ⟨hm, rfl⟩ := field?_eq_some hf
        -- The slot is taken, so a second member for it is refused whatever the first one was.
        have hn : f.name ≠ key := by
          rintro rfl
          exact hs (by simpa using hk)
        rw [h.others f hm hn]
        cases f.read v x with
        | error e => rfl
        | ok z => exact ih (List.mem_cons_of_mem _ hk)

/-- What follows a member in a slot has no influence on the slot. -/
theorem Slot.bind_replace (h : r.Slot key get set) {v v₀ : β} {a₀ : α} (h₀ : get v₀ = .ok a₀)
    {next : ρ → Decoded ρ} (hn : ∀ a x, next (set a x) = set a <$> next x) :
    ((set · x) <$> get v >>= next) = .ok y ↔
      ∃ a y₀, get v = .ok a ∧ ((set · x) <$> get v₀ >>= next) = .ok y₀ ∧ set a y₀ = y := by
  rw [h₀]
  cases get v with
  | error e => simp [Functor.map, Except.map, bind, Except.bind]
  | ok a =>
    change next (set a x) = .ok y ↔
      ∃ a' y₀, Except.ok a = .ok a' ∧ next (set a₀ x) = .ok y₀ ∧ set a' y₀ = y
    rw [hn, hn]
    constructor
    · intro hy
      obtain ⟨z, hz, rfl⟩ := Decoded.map_eq_ok_iff.mp hy
      exact ⟨a, set a₀ z, rfl, Decoded.map_eq_ok_iff.mpr ⟨z, hz, rfl⟩, h.set_set a a₀ z⟩
    · rintro ⟨a', y₀, ha, hy, rfl⟩
      obtain rfl := Except.ok.inj ha
      obtain ⟨z, hz, rfl⟩ := Decoded.map_eq_ok_iff.mp hy
      exact Decoded.map_eq_ok_iff.mpr ⟨z, hz, (h.set_set a a₀ z).symm⟩

/-- Members can be read with `v` in a slot exactly if `v` can be read and they can be read with
another value in its place. -/
theorem Slot.readMembers_replace (h : r.Slot key get set) {v v₀ : β} {a₀ : α}
    (h₀ : get v₀ = .ok a₀) :
    r.readMembers seen x (before ++ (key, v) :: after) = .ok y ↔
      ∃ a y₀, get v = .ok a ∧ r.readMembers seen x (before ++ (key, v₀) :: after) = .ok y₀ ∧
        set a y₀ = y := by
  induction before generalizing seen x with
  | nil =>
    obtain ⟨f, hf, hr⟩ := h.field
    simp only [List.nil_append, readMembers, hf, hr]
    split_ifs with hs
    · simp
    · exact h.bind_replace h₀ fun a x => h.readMembers_set List.mem_cons_self a
  | cons m before ih =>
    obtain ⟨k, w⟩ := m
    simp only [List.cons_append, readMembers]
    cases hf : r.field? k with
    | none => exact ih
    | some f =>
      dsimp only
      split_ifs with hs
      · simp
      · cases f.read w x with
        | error e => simp [bind, Except.bind]
        | ok z => exact ih

section Items

variable {index : Nat} {fields : List (Field β ρ)} {items : List β}

theorem Slot.readItems_set (h : r.Slot key get set)
    (hf : ∀ f ∈ fields, f ∈ r.fields ∧ f.name ≠ key) (a : α) :
    r.readItems index fields (set a x) items = set a <$> r.readItems index fields x items := by
  induction fields generalizing index x items with
  | nil => cases items <;> rfl
  | cons f fields ih =>
    rw [List.forall_mem_cons] at hf
    cases items with
    | nil =>
      unfold readItems
      split_ifs
      · exact ih hf.2
      · rfl
    | cons v items =>
      unfold readItems
      rw [h.others f hf.1.1 hf.1.2]
      cases f.read v x with
      | error e => rfl
      | ok z => exact ih hf.2

theorem readItems_append {earlier : List (Field β ρ)} {before : List β}
    (h : earlier.length = before.length) :
    r.readItems index (earlier ++ fields) x (before ++ items) =
      r.readItems index earlier x before >>= fun x =>
        r.readItems (index + before.length) fields x items := by
  induction earlier generalizing index x before with
  | nil =>
    obtain rfl := List.length_eq_zero_iff.mp h.symm
    rfl
  | cons f earlier ih =>
    cases before with
    | nil => simp at h
    | cons v before =>
      simp only [List.cons_append, readItems, List.length_cons]
      cases f.read v x with
      | error e => rfl
      | ok z =>
        rw [Nat.add_comm before.length, ← Nat.add_assoc]
        exact ih (Nat.succ.inj h)

/-- The same of a record that is written as an array. -/
theorem Slot.readItems_replace (h : r.Slot key get set) (hn : (r.fields.map Field.name).Nodup)
    {before after : List β} (hk : (r.fields.map Field.name)[before.length]? = some key)
    {v v₀ : β} {a₀ : α} (h₀ : get v₀ = .ok a₀) :
    r.readItems index r.fields x (before ++ v :: after) = .ok y ↔
      ∃ a y₀, get v = .ok a ∧
        r.readItems index r.fields x (before ++ v₀ :: after) = .ok y₀ ∧ set a y₀ = y := by
  obtain ⟨f, hf, rfl⟩ : ∃ f, r.fields[before.length]? = some f ∧ f.name = key := by
    simpa using hk
  obtain ⟨hl, hf⟩ := List.getElem?_eq_some_iff.mp hf
  have hsplit : r.fields =
      r.fields.take before.length ++ f :: r.fields.drop (before.length + 1) := by
    rw [← hf, List.cons_getElem_drop_succ, List.take_append_drop]
  have hread : ∀ v x, f.read v x = (set · x) <$> get v := by
    obtain ⟨g, hg, hr⟩ := h.field
    obtain ⟨hg, hgn⟩ := field?_eq_some hg
    rwa [List.inj_on_of_nodup_map hn hg (hf ▸ List.getElem_mem hl) hgn] at hr
  have hlater : ∀ g ∈ r.fields.drop (before.length + 1), g ∈ r.fields ∧ g.name ≠ f.name := by
    intro g hg
    refine ⟨List.mem_of_mem_drop hg, fun he => ?_⟩
    rw [hsplit, List.map_append, List.map_cons, List.nodup_append, List.nodup_cons] at hn
    exact hn.2.1.1 (he ▸ List.mem_map_of_mem hg)
  have hlen : (r.fields.take before.length).length = before.length := by simp; omega
  rw [hsplit]
  simp only [readItems_append hlen, readItems, hread]
  cases r.readItems index (r.fields.take before.length) x before with
  | error e => simp [bind, Except.bind]
  | ok z => exact h.bind_replace h₀ fun a x => h.readItems_set hlater a

end Items

theorem readMembers_filter (r : Record β ρ) (seen : List String) (x : ρ)
    (members : List (String × β)) :
    r.readMembers seen x members =
      r.readMembers seen x (members.filter fun m => (r.field? m.1).isSome) := by
  induction members generalizing seen x with
  | nil => rfl
  | cons m members ih =>
    obtain ⟨k, v⟩ := m
    cases hf : r.field? k with
    | none =>
      rw [List.filter_cons_of_neg (by simp [hf]), readMembers]
      simp only [hf]
      exact ih seen x
    | some f =>
      rw [List.filter_cons_of_pos (by simp [hf]), readMembers, readMembers]
      simp only [hf, ih]

end Record

end ApiTypings
