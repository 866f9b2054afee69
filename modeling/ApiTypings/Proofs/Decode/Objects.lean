import ApiTypings.Proofs.Decode.Parts

/-! # Maps of definitions as objects

A map of definitions is read from an object with any number of repeated keys. It has every key once,
in the order in which the keys first occur, and under a key the definition read from the value that
stands last. Inside a definition the same holds of every map at any depth.
-/

namespace ApiTypings

/-! ## Merged entries -/

section Merge

variable {α : Type} {key : String} {value : α} {entries : List (String × α)}

theorem map_fst_assign_of_mem (h : key ∈ entries.map Prod.fst) :
    (assign key value entries).map Prod.fst = entries.map Prod.fst := by
  induction entries with
  | nil => cases h
  | cons x entries ih =>
    unfold assign
    split_ifs with hx
    · rw [List.map_cons, List.map_cons, hx]
    · have hm : key ∈ entries.map Prod.fst := by simpa [Ne.symm hx] using h
      rw [List.map_cons, List.map_cons, ih hm]

theorem map_fst_assign_of_not_mem (h : key ∉ entries.map Prod.fst) :
    (assign key value entries).map Prod.fst = entries.map Prod.fst ++ [key] := by
  induction entries with
  | nil => rfl
  | cons x entries ih =>
    rw [List.map_cons, List.mem_cons, not_or] at h
    unfold assign
    rw [if_neg (Ne.symm h.1), List.map_cons, ih h.2, List.map_cons, List.cons_append]

theorem nodup_assign (h : (entries.map Prod.fst).Nodup) :
    ((assign key value entries).map Prod.fst).Nodup := by
  by_cases hk : key ∈ entries.map Prod.fst
  · rwa [map_fst_assign_of_mem hk]
  · rw [map_fst_assign_of_not_mem hk]
    exact h.append (List.nodup_singleton key) (List.disjoint_singleton.mpr hk)

theorem nodup_foldl_assign {merged : List (String × α)} (h : (merged.map Prod.fst).Nodup) :
    ((entries.foldl (fun merged x => assign x.1 x.2 merged) merged).map Prod.fst).Nodup := by
  induction entries generalizing merged with
  | nil => exact h
  | cons x entries ih => exact ih (nodup_assign h)

theorem nodup_mergeEntries (entries : List (String × α)) :
    ((mergeEntries entries).map Prod.fst).Nodup :=
  nodup_foldl_assign List.nodup_nil

/-- Keys that are new go to the end, in the order of their first occurrences. -/
theorem map_fst_foldl_assign (entries merged : List (String × α)) :
    (entries.foldl (fun merged x => assign x.1 x.2 merged) merged).map Prod.fst =
      merged.map Prod.fst ++
        ((entries.map Prod.fst).filter fun key => key ∉ merged.map Prod.fst).eraseDups := by
  induction entries generalizing merged with
  | nil => simp
  | cons x entries ih =>
    rw [List.foldl_cons, ih, List.map_cons]
    by_cases hx : x.1 ∈ merged.map Prod.fst
    · rw [map_fst_assign_of_mem hx, List.filter_cons_of_neg (by simpa using hx)]
    · rw [map_fst_assign_of_not_mem hx, List.filter_cons_of_pos (by simpa using hx),
        List.eraseDups_cons, List.filter_filter, List.append_assoc, List.singleton_append]
      have hf : ∀ key : String, decide (key ∉ merged.map Prod.fst ++ [x.1]) =
          (!key == x.1 && decide (key ∉ merged.map Prod.fst)) := by
        intro key
        rw [Bool.eq_iff_iff]
        simp only [decide_eq_true_eq, List.mem_append, List.mem_singleton, not_or,
          Bool.and_eq_true, Bool.not_eq_true', beq_eq_false_iff_ne, ne_eq]
        exact and_comm
      simp only [hf]

theorem map_fst_mergeEntries (entries : List (String × α)) :
    (mergeEntries entries).map Prod.fst = (entries.map Prod.fst).eraseDups :=
  (map_fst_foldl_assign entries []).trans (by simp)

theorem exists_last_of_mem (h : key ∈ entries.map Prod.fst) :
    ∃ earlier value later, entries = earlier ++ (key, value) :: later ∧
      key ∉ later.map Prod.fst := by
  induction entries with
  | nil => cases h
  | cons x entries ih =>
    by_cases hk : key ∈ entries.map Prod.fst
    · obtain ⟨earlier, value, later, rfl, hl⟩ := ih hk
      exact ⟨x :: earlier, value, later, rfl, hl⟩
    · obtain rfl : key = x.1 := by simpa [hk] using h
      exact ⟨[], x.2, entries, rfl, hk⟩

theorem lookup_of_mem (hn : (entries.map Prod.fst).Nodup) (h : (key, value) ∈ entries) :
    entries.lookup key = some value := by
  induction entries with
  | nil => cases h
  | cons x entries ih =>
    rw [List.map_cons, List.nodup_cons] at hn
    rcases List.mem_cons.mp h with rfl | h
    · exact List.lookup_cons_self
    · have hk : key ≠ x.1 := fun hk => hn.1 (hk ▸ List.mem_map_of_mem h)
      rw [List.lookup_cons, beq_eq_false_iff_ne.mpr hk]
      exact ih hn.2 h

theorem lookup_reverse_last {earlier later : List (String × α)} (h : key ∉ later.map Prod.fst) :
    (earlier ++ (key, value) :: later).reverse.lookup key = some value := by
  have hl : later.reverse.lookup key = none := by
    rw [List.lookup_eq_none_iff]
    rintro ⟨k, v⟩ hm
    have hk : key ≠ k := fun hk => h (hk ▸ List.mem_map_of_mem (List.mem_reverse.mp hm))
    simpa using hk
  simp [List.lookup_append, hl]

end Merge

/-! ## Objects -/

/-- A map of definitions that stands for the members of an object: every key once, in the order of
the first occurrences, with the definition of the last one. -/
structure Reflects (members : List (String × Json)) (ps : Properties) : Prop where
  nodup : (ps.map Prod.fst).Nodup
  order : ps.map Prod.fst = (members.map Prod.fst).eraseDups
  last : ∀ key p, (key, p) ∈ ps → ∃ earlier j later, members = earlier ++ (key, j) :: later ∧
    key ∉ later.map Prod.fst ∧ Property.decode j = .ok p

theorem reflects_nil : Reflects [] [] := ⟨List.nodup_nil, rfl, by simp⟩

theorem reflects_mergeEntries {members : List (String × Json)} {entries : Properties}
    (h : decodeEntries members = .ok entries) : Reflects members (mergeEntries entries) where
  nodup := nodup_mergeEntries entries
  order := by rw [map_fst_mergeEntries, map_fst_of_decodeEntries h]
  last key p hp := by
    have hk : key ∈ members.map Prod.fst := by
      have hm := List.mem_map_of_mem (f := Prod.fst) hp
      rwa [map_fst_mergeEntries, List.mem_eraseDups, map_fst_of_decodeEntries h] at hm
    obtain ⟨earlier, j, later, rfl, hl⟩ := exists_last_of_mem hk
    obtain ⟨es, _, -, hcons, rfl⟩ := decodeEntries_append_eq_ok_iff.mp h
    obtain ⟨q, ls, hq, hls, rfl⟩ := decodeEntries_cons_eq_ok_iff.mp hcons
    have hlast : (mergeEntries (es ++ (key, q) :: ls)).lookup key = some q :=
      lookup_mergeEntries (by rwa [map_fst_of_decodeEntries hls])
    obtain rfl := Option.some.inj
      ((lookup_of_mem (nodup_mergeEntries _) hp).symm.trans hlast)
    exact ⟨earlier, j, later, rfl, hl, hq⟩

def Json.entries : Option Json → List (String × Json)
  | some (.object members) => members
  | _ => []

theorem reflects_of_decode {j : Json} {ps : Properties} (h : Properties.decode j = .ok ps) :
    Reflects (Json.entries (some j)) ps := by
  cases j with
  | object members =>
    obtain ⟨entries, he, rfl⟩ := Decoded.map_eq_ok_iff.mp h
    exact reflects_mergeEntries he
  | _ => cases h

/-- Nothing written stands for an object without members. -/
theorem reflects_of_holds {written : Option Json} {ps : Properties}
    (h : Record.Holds (Json.orDefault [] Properties.decode) written [] ps) :
    Reflects (Json.entries written) ps := by
  cases written with
  | none =>
    obtain rfl : ps = [] := h
    exact reflects_nil
  | some j =>
    rcases Json.orDefault_cases h with ⟨rfl, rfl⟩ | hd
    · exact reflects_nil
    · exact reflects_of_decode hd

/-! ## Parts of a definition -/

theorem lookup_memberViews (key : String) (members : List (String × Json)) :
    (memberViews members).lookup key = (members.lookup key).map PropertyView.ofJson := by
  induction members with
  | nil => rfl
  | cons m members ih =>
    obtain ⟨k, j⟩ := m
    rw [memberViews, List.lookup_cons, List.lookup_cons, ih]
    cases key == k <;> rfl

theorem getElem?_itemViews (i : ℕ) (items : List Json) :
    (itemViews items)[i]? = items[i]?.map PropertyView.ofJson := by
  induction items generalizing i with
  | nil => rfl
  | cons j items ih =>
    cases i with
    | zero => rfl
    | succ i => exact ih i

/-- A definition is the shape of a draft whose parts are read from what is written for them. -/
theorem exists_draft {j : Json} {p : Property} (h : Property.decode j = .ok p) :
    ∃ d : PropertyDraft, d.property = p ∧
      ∀ {α : Type} {key : String} {get : PropertyView → Decoded α} {set part},
        propertyRecord.Part key get set part →
          Record.Holds get ((propertyRecord.member? key j).map .ofJson) (part .blank) (part d) := by
  cases j with
  | object members =>
    obtain ⟨d, hd, rfl⟩ := Decoded.map_eq_ok_iff.mp h
    refine ⟨d, rfl, fun hp => ?_⟩
    rw [Record.member?, ← lookup_memberViews]
    exact hp.readMembers List.not_mem_nil hd
  | array items =>
    obtain ⟨d, hd, rfl⟩ := Decoded.map_eq_ok_iff.mp h
    refine ⟨d, rfl, fun hp => ?_⟩
    rw [Record.member?, ← getElem?_itemViews]
    exact hp.readItems propertyRecord_nodup (.refl _) hd
  | _ => cases h

/-! ## Steps into a value -/

def Json.propertyEntries (j : Json) : List (String × Json) :=
  entries (propertyRecord.member? "properties" j)

/-- The value that a definition one step inside another is written as. Of a repeated property the
last counts. -/
def Json.child? (j : Json) : Step → Option Json
  | .items => propertyRecord.member? "items" j
  | .additional => propertyRecord.member? "additionalProperties" j
  | .property key => j.propertyEntries.reverse.lookup key

def Json.descendant? (j : Json) : List Step → Option Json
  | [] => some j
  | s :: steps => (j.child? s).bind fun j => j.descendant? steps

theorem PropertyView.orNull_eq_some {α : Type} {v : PropertyView} {read : Unit → Decoded α} {a : α}
    (h : v.orNull read = .ok (some a)) : read () = .ok a := by
  unfold orNull at h
  split_ifs at h
  · cases h
  · obtain ⟨b, hb, h⟩ := Decoded.map_eq_ok_iff.mp h
    rwa [Option.some.inj h] at hb

theorem PropertyView.asAdditional_eq_some {v : PropertyView} {p : Property}
    (h : v.asAdditional = .ok (some p)) : v.asProperty () = .ok p := by
  unfold asAdditional at h
  split_ifs at h
  · cases h
  · split at h <;> simp_all

theorem PropertyView.orNull_ofJson {α : Type} (j : Json) (read : Json → Decoded α) :
    (ofJson j).orNull (fun _ => read j) = j.orNull read := by
  cases j <;> rfl

variable {j : Json} {p q : Property} {steps : List Step}

theorem reflects_properties {notes : Notes} {additional : Option Property} {ps : Properties}
    {required : Option (List String)}
    (h : Property.decode j = .ok (.object notes additional ps required)) :
    Reflects j.propertyEntries ps := by
  obtain ⟨d, hd, hpart⟩ := exists_draft h
  have hp := hpart propertiesPart
  obtain ⟨-, -, rfl, -⟩ := (Property.object.injEq ..).mp
    (hd.symm.trans (PropertyDraft.property_object hd d rfl))
  apply reflects_of_holds
  cases hv : propertyRecord.member? "properties" j with
  | none =>
    rw [hv] at hp
    exact hp
  | some v =>
    rw [hv] at hp
    exact (congrArg _ (PropertyView.orNull_ofJson v Properties.decode)).symm.trans hp

def Property.keys : Property → List String
  | .object _ _ properties _ => properties.map Prod.fst
  | _ => []

theorem nodup_keys_of_decode (h : Property.decode j = .ok p) : p.keys.Nodup := by
  cases p with
  | object => exact (reflects_properties h).nodup
  | _ => exact List.nodup_nil

theorem exists_written {get : PropertyView → Decoded (Option Property)} {written : Option Json}
    (h : Record.Holds get (written.map .ofJson) none (some q))
    (hget : ∀ v, get (.ofJson v) = .ok (some q) → Property.decode v = .ok q) :
    ∃ v, written = some v ∧ Property.decode v = .ok q := by
  cases written with
  | none => cases h
  | some v => exact ⟨v, rfl, hget v h⟩

theorem decode_child {s : Step} (h : Property.decode j = .ok p) (hq : p.child? s = some q) :
    ∃ i, j.child? s = some i ∧ Property.decode i = .ok q := by
  obtain ⟨d, rfl, hpart⟩ := exists_draft h
  cases s with
  | items =>
    cases hd : d.property with
    | array notes items =>
      rw [hd] at hq
      obtain rfl : items = some q := hq
      obtain ⟨-, hi⟩ := (Property.array.injEq ..).mp
        (hd.symm.trans (PropertyDraft.property_array hd d rfl))
      have hp := hpart itemsPart
      rw [← hi] at hp
      exact exists_written hp fun _ hv => PropertyView.orNull_eq_some hv
    | _ => rw [hd] at hq; cases hq
  | additional =>
    cases hd : d.property with
    | object notes additional ps required =>
      rw [hd] at hq
      obtain rfl : additional = some q := hq
      obtain ⟨-, ha, -⟩ := (Property.object.injEq ..).mp
        (hd.symm.trans (PropertyDraft.property_object hd d rfl))
      have hp := hpart additionalPart
      rw [← ha] at hp
      exact exists_written hp fun _ hv => PropertyView.asAdditional_eq_some hv
    | _ => rw [hd] at hq; cases hq
  | property key =>
    cases hd : d.property with
    | object notes additional ps required =>
      rw [hd] at h hq
      obtain ⟨before, after, rfl, -⟩ := List.lookup_eq_some_iff.mp hq
      obtain ⟨earlier, i, later, hm, hl, hi⟩ := (reflects_properties h).last key q (by simp)
      refine ⟨i, ?_, hi⟩
      rw [Json.child?, hm]
      exact lookup_reverse_last hl
    | _ => rw [hd] at hq; cases hq

theorem decode_descendant (h : Property.decode j = .ok p) (hq : p.descendant? steps = some q) :
    ∃ i, j.descendant? steps = some i ∧ Property.decode i = .ok q := by
  induction steps generalizing j p with
  | nil =>
    obtain rfl := Option.some.inj hq
    exact ⟨j, rfl, h⟩
  | cons s steps ih =>
    obtain ⟨p', hs, hq⟩ := Option.bind_eq_some_iff.mp hq
    obtain ⟨i, hi, hp⟩ := decode_child h hs
    obtain ⟨i', hi', hq⟩ := ih hp hq
    exact ⟨i', Option.bind_eq_some_iff.mpr ⟨i, hi, hi'⟩, hq⟩

end ApiTypings
