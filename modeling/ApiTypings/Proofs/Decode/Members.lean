import ApiTypings.Proofs.Decode.Parts

/-! # Members of a record

The members of an object are read from left to right. A member matters to those that follow only by
what it leaves in the record and by the name that it uses up. So a member can be exchanged for one
that is read alike, one that changes nothing can be added, and one that cannot be read decides the
outcome.
-/

namespace ApiTypings.Record

variable {β ρ : Type} {r : Record β ρ} {f : Field β ρ} {key : String} {seen seen' : List String}
  {x y : ρ} {v v' : β} {members before after : List (String × β)}

def fieldKeys (r : Record β ρ) (members : List (String × β)) : List String :=
  (members.map Prod.fst).filter fun k => (r.field? k).isSome

theorem fieldKeys_eq_filter :
    r.fieldKeys members = (members.map Prod.fst).filter (· ∈ r.fields.map Field.name) := by
  refine List.filter_congr fun k _ => ?_
  rw [Bool.eq_iff_iff, field?, List.find?_isSome]
  simp

theorem fieldKeys_cons (h : r.field? key = some f) :
    r.fieldKeys ((key, v) :: members) = key :: r.fieldKeys members :=
  List.filter_cons_of_pos (by simp [h])

theorem fieldKeys_cons_of_none (h : r.field? key = none) :
    r.fieldKeys ((key, v) :: members) = r.fieldKeys members :=
  List.filter_cons_of_neg (by simp [h])

theorem mem_fieldKeys (h : r.field? key = some f) :
    key ∈ r.fieldKeys members ↔ key ∈ members.map Prod.fst := by
  simp [fieldKeys, h]

theorem lookup_of_nodup (hn : (r.fieldKeys members).Nodup) (hf : r.field? key = some f)
    (h : (key, v) ∈ members) : members.lookup key = some v := by
  induction members with
  | nil => cases h
  | cons m members ih =>
    obtain ⟨k, w⟩ := m
    by_cases hk : key = k
    · subst hk
      rw [fieldKeys_cons hf, List.nodup_cons, mem_fieldKeys hf] at hn
      have hv : v = w := by
        rcases List.mem_cons.mp h with he | h
        · exact (Prod.mk.inj he).2
        · exact absurd (List.mem_map_of_mem h) hn.1
      rw [hv, List.lookup_cons_self]
    · rw [List.lookup_cons, beq_eq_false_iff_ne.mpr hk]
      refine ih (hn.sublist ?_) ((List.mem_cons.mp h).resolve_left fun he => hk (Prod.mk.inj he).1)
      exact ((List.sublist_cons_self (k, w) members).map Prod.fst).filter _

/-- Of the fields that have been read before, those that follow again matter. -/
theorem readMembers_seen (h : ∀ k ∈ r.fieldKeys members, k ∈ seen ↔ k ∈ seen') :
    r.readMembers seen x members = r.readMembers seen' x members := by
  induction members generalizing seen seen' x with
  | nil => rfl
  | cons m members ih =>
    obtain ⟨k, v⟩ := m
    unfold readMembers
    cases hf : r.field? k with
    | none => exact ih fun k' hk => h k' (by rwa [fieldKeys_cons_of_none hf])
    | some f =>
      rw [fieldKeys_cons hf, List.forall_mem_cons] at h
      have hc : seen.contains k = seen'.contains k := by
        rw [Bool.eq_iff_iff, List.contains_iff_mem, List.contains_iff_mem]
        exact h.1
      dsimp only
      rw [hc]
      split_ifs
      · rfl
      · refine congrArg _ (funext fun y => ih fun k' hk => ?_)
        rw [List.mem_cons, List.mem_cons, h.2 k' hk]

theorem readMembers_append :
    r.readMembers seen x (before ++ after) =
      r.readMembers seen x before >>= fun y =>
        r.readMembers (r.fieldKeys before ++ seen) y after := by
  induction before generalizing seen x with
  | nil => rfl
  | cons m before ih =>
    obtain ⟨k, v⟩ := m
    rw [List.cons_append, readMembers, readMembers]
    cases hf : r.field? k with
    | none =>
      rw [fieldKeys_cons_of_none hf]
      exact ih
    | some f =>
      dsimp only
      rw [fieldKeys_cons hf]
      split_ifs
      · rfl
      · cases f.read v x with
        | error e => rfl
        | ok z =>
          change r.readMembers (k :: seen) z (before ++ after) =
            r.readMembers (k :: seen) z before >>= _
          rw [ih]
          refine congrArg _ (funext fun y => readMembers_seen fun k' _ => ?_)
          simp only [List.mem_append, List.mem_cons, List.cons_append]
          exact or_left_comm

/-! ## Members exchanged and added -/

theorem readMembers_congr (hf : r.field? key = some f) (h : ∀ x, f.read v x = f.read v' x) :
    r.readMembers seen x (before ++ (key, v) :: after) =
      r.readMembers seen x (before ++ (key, v') :: after) := by
  rw [readMembers_append, readMembers_append]
  refine congrArg _ (funext fun y => ?_)
  simp only [readMembers, hf, h]

theorem readMembers_skip (h : r.field? key = none) :
    r.readMembers seen x (before ++ (key, v) :: after) =
      r.readMembers seen x (before ++ after) := by
  rw [readMembers_append, readMembers_append]
  refine congrArg _ (funext fun y => ?_)
  simp only [readMembers, h]

/-- For a field of a record that starts as `x`, the value `v` says no more than nothing does. -/
structure Silent (r : Record β ρ) (f : Field β ρ) (v : β) (x : ρ) : Prop where
  start : f.read v x = .ok x
  commutes : ∀ g ∈ r.fields, g.name ≠ f.name → ∀ w y,
    (g.read w y >>= f.read v) = (f.read v y >>= g.read w)

theorem silent_iff : r.Silent f v x ↔ f.read v x = pure x ∧
    ∀ g ∈ r.fields, g.name ≠ f.name → ∀ w y,
      (g.read w y >>= f.read v) = (f.read v y >>= g.read w) :=
  ⟨fun h => ⟨h.start, h.commutes⟩, fun h => ⟨h.1, h.2⟩⟩

theorem Silent.next {g : Field β ρ} {w : β} (h : r.Silent f v x) (hg : g ∈ r.fields)
    (hn : g.name ≠ f.name) (hy : g.read w x = .ok y) : r.Silent f v y where
  start := by
    have hc := h.commutes g hg hn w x
    rw [hy, h.start] at hc
    exact hc.trans hy
  commutes := h.commutes

/-- A member that says nothing can be added anywhere. -/
theorem Silent.readMembers_insert (hf : r.field? key = some f) (h : r.Silent f v x)
    (hs : key ∉ seen) (hk : key ∉ (before ++ after).map Prod.fst) :
    r.readMembers seen x (before ++ (key, v) :: after) =
      r.readMembers seen x (before ++ after) := by
  induction before generalizing seen x with
  | nil =>
    rw [List.nil_append, List.nil_append, readMembers, hf]
    dsimp only
    rw [if_neg (by simpa using hs), h.start]
    refine readMembers_seen fun k hk' => ?_
    rw [List.mem_cons, or_iff_right]
    rintro rfl
    exact hk ((mem_fieldKeys hf).mp hk')
  | cons m before ih =>
    obtain ⟨k, w⟩ := m
    rw [List.cons_append, List.map_cons, List.mem_cons, not_or] at hk
    simp only [List.cons_append, readMembers]
    cases hg : r.field? k with
    | none => exact ih h hs hk.2
    | some g =>
      dsimp only
      split_ifs
      · rfl
      · cases hz : g.read w x with
        | error e => rfl
        | ok z =>
          obtain ⟨hm, rfl⟩ := field?_eq_some hg
          have hn : g.name ≠ f.name := (field?_eq_some hf).2.symm ▸ Ne.symm hk.1
          exact ih (h.next hm hn hz) (by simp [hs, hk.1]) hk.2

/-- A record that takes `v` for nothing in every field but those that it needs. -/
def Lenient (r : Record β ρ) (v : β) (x : ρ) (needed : List String) : Prop :=
  ∀ f ∈ r.fields, f.name ∉ needed → r.Silent f v x

theorem Lenient.readMembers_insert {needed : List String} (h : r.Lenient v x needed)
    (hn : key ∉ needed) (hf : key ∈ r.fields.map Field.name) (hs : key ∉ seen)
    (hk : key ∉ (before ++ after).map Prod.fst) :
    r.readMembers seen x (before ++ (key, v) :: after) =
      r.readMembers seen x (before ++ after) := by
  obtain ⟨f, hf⟩ : ∃ f, r.field? key = some f := by
    rw [← Option.isSome_iff_exists, field?, List.find?_isSome]
    simpa using hf
  obtain ⟨hm, rfl⟩ := field?_eq_some hf
  exact (h f hm hn).readMembers_insert hf hs hk

/-! ## Parts that are read or not -/

section Parts

variable {α : Type} {get : β → Decoded α} {set : α → ρ → ρ} {part : ρ → α} {a : α}

theorem Slot.read_field (h : r.Slot key get set) (hf : r.field? key = some f)
    (hv : get v = .ok a) (x : ρ) : f.read v x = .ok (set a x) := by
  obtain ⟨g, hg, hr⟩ := h.field
  obtain rfl := Option.some.inj (hf.symm.trans hg)
  rw [hr, hv]
  rfl

theorem Holds.eq_some_iff {get : Json → Decoded α} {written : Option Json} {after : Option α}
    (h : Holds (Json.orNull get) written none after) :
    after = some a ↔ ∃ v, written = some v ∧ v ≠ .null ∧ get v = .ok a := by
  cases written with
  | none =>
    obtain rfl : after = none := h
    simp
  | some v =>
    have h : v.orNull get = .ok after := h
    cases v with
    | null =>
      obtain rfl := Except.ok.inj h
      simp
    | _ =>
      obtain ⟨b, hb, rfl⟩ := Decoded.map_eq_ok_iff.mp h
      simp [hb]

theorem Part.eq_of_not_mem (h : r.Part key get set part) (hk : key ∉ members.map Prod.fst)
    (hr : r.readMembers [] x members = .ok y) : part y = part x := by
  have hh := h.readMembers List.not_mem_nil hr
  rwa [List.lookup_eq_none_iff.mpr fun m hm => by
    simpa using fun he : key = m.1 => hk (he ▸ List.mem_map_of_mem hm)] at hh

end Parts

/-! ## Members that can be read and others -/

theorem exists_readMembers (hn : (r.fieldKeys members).Nodup)
    (hs : ∀ k ∈ r.fieldKeys members, k ∉ seen)
    (h : ∀ m ∈ members, ∀ f, r.field? m.1 = some f → ∀ x, ∃ y, f.read m.2 x = .ok y) :
    ∃ y, r.readMembers seen x members = .ok y := by
  induction members generalizing seen x with
  | nil => exact ⟨x, rfl⟩
  | cons m members ih =>
    obtain ⟨k, w⟩ := m
    rw [List.forall_mem_cons] at h
    rw [readMembers]
    cases hf : r.field? k with
    | none =>
      rw [fieldKeys_cons_of_none hf] at hn hs
      exact ih hn hs h.2
    | some f =>
      rw [fieldKeys_cons hf] at hn hs
      rw [List.nodup_cons] at hn
      rw [List.forall_mem_cons] at hs
      obtain ⟨z, hz⟩ := h.1 f hf x
      dsimp only
      rw [if_neg (by simpa using hs.1), hz]
      refine ih hn.2 (fun k' hk => ?_) h.2
      rw [List.mem_cons, not_or]
      exact ⟨fun he => hn.1 (he ▸ hk), hs.2 k' hk⟩

/-- A member that cannot be read decides the outcome if those before it can be read. -/
theorem readMembers_error {e : DecodeError} (hf : r.field? key = some f)
    (he : ∀ y, f.read v y = .error e) (hs : key ∉ seen) (hk : key ∉ before.map Prod.fst)
    (hb : r.readMembers seen x before = .ok y) :
    r.readMembers seen x (before ++ (key, v) :: after) = .error e := by
  rw [readMembers_append, hb]
  change r.readMembers _ y ((key, v) :: after) = _
  rw [readMembers, hf]
  dsimp only
  rw [if_neg, he]
  · rfl
  · rw [List.contains_iff_mem, List.mem_append, mem_fieldKeys hf]
    exact fun hm => hm.elim hk hs

end ApiTypings.Record
