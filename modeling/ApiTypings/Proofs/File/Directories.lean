import Mathlib
import ApiTypings.Proofs.File.Changes

/-! # Making the directories of a path

The directories of a path are those of its prefixes. The longest one that can be made is made
first, and then the longer ones up to the path itself. This succeeds if no prefix leads to a file.
-/

namespace ApiTypings

namespace Path

variable {p q : Path} {cs ds : List Component} {c : Component}

/-- The parts that matter: a dot changes nothing. -/
def steps (p : Path) : List String := p.parts.filter (· != ".")

/-- The part that a component stands for, if it leads anywhere. -/
def stepOf? : Component → Option String
  | .root => none
  | .here => none
  | .up => some ".."
  | .name s => some s

theorem stepOf?_componentOf? (s : String) :
    (componentOf? s).bind stepOf? = if s = "." then none else some s := by
  unfold componentOf?
  split <;> simp_all [stepOf?]

theorem filterMap_stepOf?_componentOf? (ps : List String) :
    (ps.filterMap componentOf?).filterMap stepOf? = ps.filter (· != ".") := by
  rw [List.filterMap_filterMap, ← List.filterMap_eq_filter]
  refine List.filterMap_congr fun s _ => ?_
  rw [stepOf?_componentOf?]
  by_cases hs : s = "." <;> simp [hs, Option.guard]

/-- Only the start of a path adds a component to those of the parts. -/
theorem exists_components_eq (p : Path) :
    ∃ ds, ds.filterMap stepOf? = [] ∧ p.components = ds ++ p.parts.filterMap componentOf? := by
  unfold components
  split_ifs
  · exact ⟨[.root], rfl, rfl⟩
  · exact ⟨[.here], rfl, rfl⟩
  · exact ⟨[], rfl, rfl⟩

theorem filterMap_stepOf?_components (p : Path) :
    p.components.filterMap stepOf? = p.steps := by
  obtain ⟨ds, hd, hc⟩ := p.exists_components_eq
  rw [hc, List.filterMap_append, filterMap_stepOf?_componentOf?, hd, steps, List.nil_append]

/-! ## Prefixes of a path -/

/-- What the components of a path are: the root stands at the start of an absolute path and nowhere
else, and the names are parts of the path. -/
structure Leads (p : Path) (cs : List Component) : Prop where
  head : cs.head? = some .root ↔ p.isAbsolute = true
  tail : Component.root ∉ cs.tail
  name : ∀ s, Component.name s ∈ cs → s ∈ p.parts ∧ s ≠ "." ∧ s ≠ ".."

theorem componentOf?_eq_some_iff {s : String} :
    componentOf? s = some c ↔
      c = .up ∧ s = ".." ∨ c = .name s ∧ s ≠ "." ∧ s ≠ ".." := by
  unfold componentOf?
  split <;> simp_all [eq_comm]

theorem leads_components (p : Path) : p.Leads p.components := by
  have hr : Component.root ∉ p.parts.filterMap componentOf? := by
    simp [componentOf?_eq_some_iff]
  have hn : ∀ s, Component.name s ∈ p.parts.filterMap componentOf? →
      s ∈ p.parts ∧ s ≠ "." ∧ s ≠ ".." := by
    simp +contextual [componentOf?_eq_some_iff]
  have hh : (p.parts.filterMap componentOf?).head? ≠ some .root := fun h =>
    hr (List.mem_of_head? h)
  unfold components
  split_ifs with ha hd
  · exact ⟨by simp [ha], by simpa using hr, by simpa using hn⟩
  · exact ⟨by simp [ha], by simpa using hr, by simpa using hn⟩
  · exact ⟨by simpa [ha] using hh, fun h => hr (List.mem_of_mem_tail h), by simpa using hn⟩

theorem Leads.take (h : p.Leads cs) {n : Nat} (hn : n ≠ 0) : p.Leads (cs.take n) where
  head := by rw [List.head?_take, if_neg hn, h.head]
  tail hr := h.tail (by
    obtain ⟨n, rfl⟩ := Nat.exists_eq_succ_of_ne_zero hn
    cases cs with
    | nil => exact hr
    | cons c cs => exact List.mem_of_mem_take hr)
  name s hs := h.name s (List.mem_of_mem_take hs)

/-- Components that lead further than nowhere and the root. -/
def isInner (cs : List Component) : Bool := !cs.isEmpty && cs != [.root]

theorem isInner_iff : isInner cs = true ↔ cs ≠ [] ∧ cs ≠ [.root] := by
  simp [isInner]

theorem toList_ofComponents (h : cs ≠ [.root]) :
    (ofComponents cs).text.toList =
      ['/'].intercalate (cs.map fun c => (componentText c).toList) := by
  simp [ofComponents, h, Function.comp_def]

theorem Leads.slash_not_mem (hl : p.Leads cs) (h : c ∈ cs) : '/' ∉ (componentText c).toList := by
  cases c with
  | name s => exact (mem_parts (hl.name s h).1).2.1
  | _ => simp [componentText]

theorem Leads.text_eq_empty_iff (hl : p.Leads cs) (h : c ∈ cs) :
    componentText c = "" ↔ c = .root := by
  cases c with
  | name s => simp [componentText, (mem_parts (hl.name s h).1).1]
  | _ => simp [componentText]

section Prefix

variable (hl : p.Leads cs) (hi : isInner cs = true)

include hl hi

theorem Leads.parts_ofComponents :
    (ofComponents cs).parts = (cs.filter (· ≠ .root)).map componentText := by
  obtain ⟨hn, hr⟩ := isInner_iff.mp hi
  have hs : ∀ cs' ∈ cs.map fun c => (componentText c).toList, '/' ∉ cs' := by
    rintro _ h
    obtain ⟨c, hc, rfl⟩ := List.mem_map.mp h
    exact hl.slash_not_mem hc
  have hf : (cs.filter ((fun s : List Char => !s.isEmpty) ∘ fun c => (componentText c).toList)) =
      cs.filter (· ≠ .root) := by
    refine List.filter_congr fun c hc => ?_
    have hc := hl.text_eq_empty_iff hc
    by_cases h : c = .root <;> simp_all
  rw [parts, toList_ofComponents hr, List.splitOn_intercalate '/' hs (by simp [hn]),
    List.filter_map, List.map_map, hf]
  exact List.map_congr_left fun c _ => String.ofList_toList

theorem Leads.isAbsolute_ofComponents : (ofComponents cs).isAbsolute = p.isAbsolute := by
  obtain ⟨hn, hr⟩ := isInner_iff.mp hi
  obtain ⟨c, cs', rfl⟩ := List.exists_cons_of_ne_nil hn
  rw [isAbsolute, toList_ofComponents hr, List.map_cons]
  by_cases hc : c = .root
  · obtain ⟨d, ds, rfl⟩ := List.exists_cons_of_ne_nil (l := cs') (by rintro rfl; simp [hc] at hr)
    have ha := hl.head.mp (by simp [hc])
    simp [hc, componentText, List.intercalate_cons_cons, ha]
  · have ha : p.isAbsolute = false := by
      rw [← Bool.not_eq_true, ← hl.head]
      simpa using hc
    have ht : (componentText c).toList ≠ [] := by
      simpa using mt (hl.text_eq_empty_iff List.mem_cons_self).mp hc
    obtain ⟨a, as, hca⟩ := List.exists_cons_of_ne_nil ht
    have hs : a ≠ '/' := by
      rintro rfl
      exact hl.slash_not_mem List.mem_cons_self (hca ▸ List.mem_cons_self)
    simp [hca, List.intercalate_cons_cons_left, ha, hs]

theorem Leads.text_ofComponents_ne_empty : (ofComponents cs).text ≠ "" := by
  obtain ⟨hn, hr⟩ := isInner_iff.mp hi
  intro h
  have hp : (ofComponents cs).parts = [] := by simp [parts, h]
  rw [hl.parts_ofComponents hi, List.map_eq_nil_iff, List.filter_eq_nil_iff] at hp
  obtain ⟨c, cs', rfl⟩ := List.exists_cons_of_ne_nil hn
  have hc : c = .root := by simpa using hp c List.mem_cons_self
  cases cs' with
  | nil => exact hr (by rw [hc])
  | cons d ds =>
    have hd : d = .root := by simpa using hp d (List.mem_cons_of_mem _ List.mem_cons_self)
    exact hl.tail (by simp [hd])

theorem Leads.null_not_mem_ofComponents (h₀ : '\x00' ∉ p.text.toList) :
    '\x00' ∉ (ofComponents cs).text.toList := by
  rw [toList_ofComponents (isInner_iff.mp hi).2]
  intro h
  rcases Text.mem_of_mem_intercalate h with h | ⟨x, hx, h⟩
  · simp at h
  · obtain ⟨c, hc, rfl⟩ := List.mem_map.mp hx
    cases c with
    | name s => exact h₀ ((mem_parts (hl.name s hc).1).2.2 h)
    | _ => simp [componentText] at h

/-- The steps of a prefix, and those before its last part. -/
theorem Leads.steps_ofComponents :
    (ofComponents cs).steps = cs.filterMap stepOf? ∧
      (ofComponents cs).parts.dropLast.filter (· != ".") = cs.dropLast.filterMap stepOf? := by
  have hs : ∀ ds, ds ⊆ cs →
      ((ds.filter (· ≠ .root)).map componentText).filter (· != ".") = ds.filterMap stepOf? := by
    intro ds hd
    induction ds with
    | nil => rfl
    | cons c ds ih =>
      have ih := ih fun _ h => hd (List.mem_cons_of_mem _ h)
      cases c with
      | name s =>
        have := (hl.name s (hd List.mem_cons_self)).2.1
        simp_all [componentText, stepOf?]
      | _ => simp_all [componentText, stepOf?, List.filterMap_cons]
  refine ⟨?_, ?_⟩
  · rw [steps, hl.parts_ofComponents hi, hs cs (List.Subset.refl _)]
  · obtain ⟨hn, hr⟩ := isInner_iff.mp hi
    rcases List.eq_nil_or_concat cs with rfl | ⟨ds, c, rfl⟩
    · exact absurd rfl hn
    rw [List.concat_eq_append] at *
    have hc : c ≠ .root := by
      rintro rfl
      cases ds with
      | nil => exact hr rfl
      | cons d ds => exact hl.tail (by simp)
    have hd := hs ds (List.subset_append_left ds [c])
    rw [hl.parts_ofComponents hi, List.filter_append, List.dropLast_concat, ← hd]
    simp [hc]

end Prefix

end Path

namespace FileSystem

open ApiTypings.Path

variable {fs fs' : FileSystem} {p q : Path} {cs : List Component} {ps : List String} {l : Location}

theorem walk_filter (l : Location) (ps : List String) :
    walk l (ps.filter (· != ".")) = walk l ps := by
  induction ps generalizing l with
  | nil => rfl
  | cons s ps ih =>
    by_cases hs : s = "."
    · simp [hs, step, ih]
    · simp [hs, ih]

theorem passes_filter : fs.Passes l (ps.filter (· != ".")) ↔ fs.Passes l ps := by
  induction ps generalizing l with
  | nil => rfl
  | cons s ps ih =>
    by_cases hs : s = "."
    · simp [hs, step, Passes, ih]
    · simp [hs, Passes, ih]

/-- A lookup that no file obstructs fails only because something is missing. -/
theorem follow_eq_error {e : FileError}
    (hf : ∀ qs, qs <+: ps → ∀ text, fs.entryAt? (walk l qs) ≠ some (.file text))
    (h : fs.follow l ps = .error e) : e = .notFound := by
  induction ps generalizing l with
  | nil => simp [follow] at h
  | cons s ps ih =>
    have hf' : ∀ qs, qs <+: ps → ∀ text, fs.entryAt? (walk (step l s) qs) ≠ some (.file text) :=
      fun qs hq => hf (s :: qs) (List.cons_prefix_cons.mpr ⟨rfl, hq⟩)
    rw [follow] at h
    split_ifs at h with h₁ h₂
    · exact ih (by simpa [step, h₁] using hf') h
    · exact ih (by simpa [step, h₂] using hf') h
    · have hs := step_name h₁ h₂ l
      rcases he : fs.entryAt? (l ++ [s]) with _ | _ | text
      · simpa [he, eq_comm] using h
      · exact ih (hs ▸ hf') (by simpa [he] using h)
      · exact absurd he (by simpa [hs] using hf [s] (by simp) text)

/-- What is not a directory is given by name, and stands in the directory before. -/
theorem endsInName_of_not_directory (ht : fs.IsTree)
    (hp : fs.Passes (fs.start q) q.parts.dropLast)
    (hn : fs.entryAt? (fs.target q) ≠ some .directory) :
    endsInName q = true ∧ fs.entryAt? (fs.target q).dropLast = some .directory := by
  have hd := ht.walk hp (ht.start q)
  rcases List.eq_nil_or_concat q.parts with hq | ⟨ps, s, hq⟩
  · exact absurd (ht.start q) (by simpa [target, hq] using hn)
  · rw [List.concat_eq_append] at hq
    rw [hq, List.dropLast_concat] at hd
    have hs : fs.target q = step (walk (fs.start q) ps) s := by simp [target, hq]
    by_cases h₁ : s = "."
    · exact absurd hd (by simpa [hs, step, h₁] using hn)
    by_cases h₂ : s = ".."
    · exact absurd (ht.dropLast hd) (by simpa [hs, step, h₂] using hn)
    rw [hs, step_name h₁ h₂, List.dropLast_concat]
    exact ⟨by simp [endsInName, hq, h₁, h₂], hd⟩

/-- A path that leads through components in the way another path does. -/
structure Spells (p q : Path) (cs : List Component) : Prop where
  text : q.text ≠ ""
  null : '\x00' ∉ q.text.toList
  isAbsolute : q.isAbsolute = p.isAbsolute
  steps : q.steps = cs.filterMap stepOf?
  init : q.parts.dropLast.filter (· != ".") = cs.dropLast.filterMap stepOf?

theorem spells_ofComponents (hl : p.Leads cs) (hi : isInner cs = true)
    (h₀ : '\x00' ∉ p.text.toList) : Spells p (ofComponents cs) cs where
  text := hl.text_ofComponents_ne_empty hi
  null := hl.null_not_mem_ofComponents hi h₀
  isAbsolute := hl.isAbsolute_ofComponents hi
  steps := (hl.steps_ofComponents hi).1
  init := (hl.steps_ofComponents hi).2

namespace Spells

variable (h : Spells p q cs)

include h

theorem start : fs.start q = fs.start p := by
  rw [FileSystem.start, FileSystem.start, h.isAbsolute]

theorem target : fs.target q = walk (fs.start p) (cs.filterMap stepOf?) := by
  rw [FileSystem.target, ← walk_filter, ← h.start, ← h.steps, Path.steps]

theorem locate (hp : fs.Passes (fs.start p) (cs.dropLast.filterMap stepOf?)) :
    fs.locate q = .ok (fs.target q) := by
  refine locate_eq_ok_iff.mpr ⟨h.text, h.null, ?_, rfl⟩
  rwa [h.start, ← passes_filter, h.init]

/-- The directory is there already or can be made, if there is the one in which it stands. -/
theorem makeOrKeep (ht : fs.IsTree) (hp : fs.Passes (fs.start p) (cs.dropLast.filterMap stepOf?))
    (hf : ∀ text, fs.entryAt? (walk (fs.start p) (cs.filterMap stepOf?)) ≠ some (.file text)) :
    ∃ fs', fs.makeOrKeep q = .ok fs' := by
  have hl := h.locate hp
  have hp : fs.Passes (fs.start q) q.parts.dropLast := by rwa [h.start, ← passes_filter, h.init]
  rw [← h.target] at hf
  rcases he : fs.entryAt? (fs.target q) with _ | _ | text
  · obtain ⟨hn, hd⟩ := endsInName_of_not_directory ht hp (by simp [he])
    exact ⟨_, makeOrKeep_eq_ok_iff.mpr (.inl (makeDirectory_eq_ok_iff.mpr ⟨hl, he, hn, hd, rfl⟩))⟩
  · refine ⟨fs, makeOrKeep_eq_ok_iff.mpr (.inr ⟨?_, status_eq_directory_iff.mpr ⟨hl, he⟩, rfl⟩)⟩
    simp [makeDirectory, hl, he]
  · exact absurd he (hf text)

theorem makeOrKeep_eq_notFound
    (hf : ∀ qs, qs <+: cs.filterMap stepOf? → ∀ text,
      fs.entryAt? (walk (fs.start p) qs) ≠ some (.file text))
    (hp : ¬ fs.Passes (fs.start p) (cs.dropLast.filterMap stepOf?)) :
    fs.makeOrKeep q = .error .notFound := by
  have hl : fs.locate q = fs.follow (fs.start q) q.parts := by
    simp [FileSystem.locate, h.text, h.null, FileSystem.start]
  cases he : fs.locate q with
  | ok l =>
    refine absurd ?_ hp
    rw [← h.init, passes_filter, ← h.start]
    exact (locate_eq_ok_iff.mp he).2.2.1
  | error e =>
    have hn : e = .notFound := by
      refine follow_eq_error (fun qs hq text => ?_) (hl.symm.trans he)
      rw [h.start, ← walk_filter]
      exact hf _ (h.steps ▸ hq.filter _) text
    simp [FileSystem.makeOrKeep, makeDirectory, he, hn]

end Spells

/-! ## All directories of a path -/

/-- The paths of the shorter prefixes, the longest first. -/
def prefixes (cs : List Component) (n : Nat) : List Path :=
  (((List.range n).reverse.map fun k => cs.take k).filter isInner).map ofComponents

theorem prefixes_succ (cs : List Component) (n : Nat) :
    prefixes cs (n + 1) =
      if isInner (cs.take n) then ofComponents (cs.take n) :: prefixes cs n else prefixes cs n := by
  rw [prefixes, List.range_succ, List.reverse_append, List.reverse_singleton, List.singleton_append,
    List.map_cons, List.filter_cons]
  split_ifs <;> rfl

theorem ancestors_eq (h : isInner p.components = true) :
    p.ancestors = p :: prefixes p.components p.components.length := if_pos h

theorem exists_target_of_mem_ancestors (fs : FileSystem) (h : q ∈ p.ancestors) :
    ∃ n, fs.target q = walk (fs.start p) ((p.components.take n).filterMap stepOf?) := by
  by_cases hi : isInner p.components = true
  · rw [ancestors_eq hi, List.mem_cons] at h
    rcases h with rfl | h
    · refine ⟨q.components.length, ?_⟩
      rw [List.take_length, filterMap_stepOf?_components, Path.steps, walk_filter, target]
    · simp only [prefixes, List.mem_map, List.mem_filter] at h
      obtain ⟨cs, ⟨⟨n, -, rfl⟩, hn⟩, rfl⟩ := h
      have hl : p.Leads (p.components.take n) :=
        (leads_components p).take (by rintro rfl; simp [isInner] at hn)
      refine ⟨n, ?_⟩
      rw [target, ← walk_filter, ← Path.steps, (hl.steps_ofComponents hn).1, start, start,
        hl.isAbsolute_ofComponents hn]
  · rw [show p.ancestors = [] from if_neg hi] at h
    cases h

theorem entry_of_mem_ancestors (ht : fs.IsTree) (hs : fs.status p = .ok .directory)
    (hq : q ∈ p.ancestors) : fs.entryAt? (fs.target q) = some .directory := by
  obtain ⟨n, hn⟩ := exists_target_of_mem_ancestors fs hq
  have hp : fs.Passes (fs.start p) p.steps := passes_filter.mpr (passes_of_status hs)
  have hx : (p.components.take n).filterMap stepOf? <+: p.steps := by
    rw [← filterMap_stepOf?_components]
    exact (List.take_prefix n _).filterMap _
  rw [hn]
  exact ht.walk (hp.initial hx) (ht.start p)

theorem exists_makeAll_prefixes (hl : p.Leads cs) (h₀ : '\x00' ∉ p.text.toList) {n : Nat}
    (hn : n < cs.length) (hi : isInner (cs.take (n + 1)) = true)
    (hq : Spells p q (cs.take (n + 1))) (ht : fs.IsTree)
    (hf : ∀ qs, qs <+: cs.filterMap stepOf? → ∀ text,
      fs.entryAt? (walk (fs.start p) qs) ≠ some (.file text)) :
    ∃ fs', fs.makeAll (q :: prefixes cs (n + 1)) = (.ok (), fs') := by
  have hs : ∀ k, (cs.take k).filterMap stepOf? <+: cs.filterMap stepOf? := fun k =>
    (List.take_prefix k cs).filterMap stepOf?
  have hd : ∀ k, k < cs.length → (cs.take (k + 1)).dropLast = cs.take k := fun k hk => by
    rw [List.take_succ_eq_append_getElem hk, List.dropLast_concat]
  induction n generalizing q with
  | zero =>
    have hp : fs.Passes (fs.start p) ((cs.take 1).dropLast.filterMap stepOf?) := by
      rw [hd 0 hn]
      trivial
    obtain ⟨fs', hm⟩ := hq.makeOrKeep ht hp (hf _ (hs 1))
    exact ⟨fs', by simp [makeAll, hm]⟩
  | succ n ih =>
    by_cases hp : fs.Passes (fs.start p) ((cs.take (n + 1 + 1)).dropLast.filterMap stepOf?)
    · obtain ⟨fs', hm⟩ := hq.makeOrKeep ht hp (hf _ (hs _))
      exact ⟨fs', by simp [makeAll, hm]⟩
    -- The directory before is missing, so it is made first.
    have hm := hq.makeOrKeep_eq_notFound (fun qs h => hf qs (h.trans (hs _))) hp
    rw [hd _ hn] at hp
    have hi' : isInner (cs.take (n + 1)) = true := by
      refine isInner_iff.mpr ⟨fun h => hp ?_, fun h => hp ?_⟩ <;> rw [h] <;> trivial
    have ho := spells_ofComponents (hl.take n.succ_ne_zero) hi' h₀
    obtain ⟨fs₁, h₁⟩ := ih (Nat.lt_of_succ_lt hn) hi' ho
    obtain ⟨ha, ht₁⟩ := makeAll_spec ht (ofComponents (cs.take (n + 1)) :: prefixes cs (n + 1))
    rw [h₁] at ha ht₁
    have hx : prefixes cs (n + 1 + 1) =
        ofComponents (cs.take (n + 1)) :: prefixes cs (n + 1) := by
      rw [prefixes_succ, if_pos hi']
    have hp₁ : fs₁.Passes (fs₁.start p) ((cs.take (n + 1 + 1)).dropLast.filterMap stepOf?) := by
      rw [hd _ hn, ← ho.steps, ← ho.start, Path.steps, passes_filter]
      exact passes_of_status (status_of_makeAll h₁)
    obtain ⟨fs₂, h₂⟩ := hq.makeOrKeep ht₁ hp₁ fun text => by
      rw [start_congr ha.workingDirectory, ne_eq, ha.file_iff]
      exact hf _ (hs _) text
    dsimp only at h₂
    exact ⟨fs₂, by rw [makeAll, hm, hx, h₁]; simp only [h₂]⟩

theorem isInner_of_endsInName (he : endsInName p = true) : isInner p.components = true := by
  rcases List.eq_nil_or_concat p.parts with hp | ⟨ps, s, hp⟩
  · simp [endsInName, hp] at he
  rw [List.concat_eq_append] at hp
  obtain ⟨h₁, h₂⟩ : s ≠ "." ∧ s ≠ ".." := by simpa [endsInName, hp] using he
  obtain ⟨ds, -, hc⟩ := p.exists_components_eq
  have hs : Component.name s ∈ p.components := by
    rw [hc, hp]
    refine List.mem_append_right _ (List.mem_filterMap.mpr ⟨s, by simp, ?_⟩)
    exact componentOf?_eq_some_iff.mpr (.inr ⟨rfl, h₁, h₂⟩)
  exact isInner_iff.mpr ⟨List.ne_nil_of_mem hs, fun h => by simp [h] at hs⟩

theorem status_of_makeDirectories (he : endsInName p = true)
    (h : fs.makeDirectories p = (.ok (), fs')) : fs'.status p = .ok .directory := by
  rw [makeDirectories, ancestors_eq (isInner_of_endsInName he)] at h
  exact status_of_makeAll h

theorem exists_spells_self (he : endsInName p = true) (h₀ : '\x00' ∉ p.text.toList) :
    ∃ cs s, p.components = cs ++ [.name s] ∧ Spells p p p.components := by
  rcases List.eq_nil_or_concat p.parts with hp | ⟨ps, s, hp⟩
  · simp [endsInName, hp] at he
  rw [List.concat_eq_append] at hp
  obtain ⟨h₁, h₂⟩ : s ≠ "." ∧ s ≠ ".." := by simpa [endsInName, hp] using he
  have hs : componentOf? s = some (.name s) := componentOf?_eq_some_iff.mpr (.inr ⟨rfl, h₁, h₂⟩)
  have ht : p.text ≠ "" := fun ht => by simp [parts, ht] at hp
  obtain ⟨ds, hd, hc⟩ := p.exists_components_eq
  rw [hp, List.filterMap_append, List.filterMap_cons_some hs, List.filterMap_nil,
    ← List.append_assoc] at hc
  refine ⟨_, s, hc, ht, h₀, rfl, (filterMap_stepOf?_components p).symm, ?_⟩
  rw [hp, hc, List.dropLast_concat, List.dropLast_concat, List.filterMap_append, hd,
    List.nil_append, filterMap_stepOf?_componentOf?]

theorem exists_makeDirectories (ht : fs.IsTree) (he : endsInName p = true)
    (h₀ : '\x00' ∉ p.text.toList)
    (hf : ∀ qs, qs <+: p.parts → ∀ text, fs.entryAt? (walk (fs.start p) qs) ≠ some (.file text)) :
    ∃ fs', fs.makeDirectories p = (.ok (), fs') := by
  obtain ⟨cs, s, hc, hs⟩ := exists_spells_self he h₀
  have hn : p.components.length = cs.length + 1 := by simp [hc]
  have hx : p.components.take (cs.length + 1) = p.components := by rw [← hn, List.take_length]
  rw [makeDirectories, ancestors_eq (isInner_of_endsInName he), hn]
  refine exists_makeAll_prefixes (leads_components p) h₀ (by omega) ?_ ?_ ht ?_
  · rw [hx]
    exact isInner_of_endsInName he
  · rwa [hx]
  intro qs hq text
  rw [filterMap_stepOf?_components] at hq
  obtain ⟨rs, hr, rfl⟩ := List.prefix_filter_iff.mp hq
  rw [walk_filter]
  exact hf rs hr text

end FileSystem

end ApiTypings
