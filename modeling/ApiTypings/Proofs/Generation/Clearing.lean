import Mathlib
import ApiTypings.Generation.Output
import ApiTypings.Proofs.File.Directories

/-! # Which directories may be cleared

A path may be cleared exactly if its last component is a name. Nothing behind a name cancels it, so
the name still stands at the end when every dot and every pair of a name and a climb is left out:
such a path denotes neither the root nor the directory where it starts, nor one above that.
-/

namespace ApiTypings

open Relation

namespace Path

/-! ## Normal forms -/

/-- Components that change nothing are left out: a dot, or a name with a climb right behind it. -/
inductive Cancels : List Component → List Component → Prop where
  | here (before after : List Component) : Cancels (before ++ .here :: after) (before ++ after)
  | pair (before after : List Component) (s : String) :
      Cancels (before ++ .name s :: .up :: after) (before ++ after)

/-- What is left of components when nothing more can be left out. -/
structure IsNormalForm (cs ds : List Component) : Prop where
  reached : ReflTransGen Cancels cs ds
  final : ∀ es, ¬ Cancels ds es

/-- Put a component before a normal form. -/
def putBefore : Component → List Component → List Component
  | .here, ds => ds
  | .name _, .up :: ds => ds
  | c, ds => c :: ds

def normalForm (cs : List Component) : List Component := cs.foldr putBefore []

variable {c : Component} {cs ds es : List Component} {p : Path}

theorem putBefore_cases (c : Component) (ds : List Component) :
    c = .here ∧ putBefore c ds = ds ∨
      (∃ s es, c = .name s ∧ ds = .up :: es ∧ putBefore c ds = es) ∨
      c ≠ .here ∧ (∀ s es, c = .name s → ds ≠ .up :: es) ∧ putBefore c ds = c :: ds := by
  unfold putBefore
  split
  · exact .inl ⟨rfl, rfl⟩
  · exact .inr (.inl ⟨_, _, rfl, rfl, rfl⟩)
  · rename_i hh hp
    exact .inr (.inr ⟨fun h => hh h, fun s es hc hd => hp s es hc hd, rfl⟩)

theorem Cancels.cons (h : Cancels cs ds) (c : Component) : Cancels (c :: cs) (c :: ds) := by
  cases h with
  | here before after => exact .here (c :: before) after
  | pair before after s => exact .pair (c :: before) after s

/-- Either the front changes, or what stands behind the first component. -/
theorem cancels_cons_iff :
    Cancels (c :: cs) es ↔
      c = .here ∧ es = cs ∨ (∃ s, c = .name s ∧ cs = .up :: es) ∨ ∃ ds, Cancels cs ds ∧ es = c :: ds := by
  constructor
  · intro h
    generalize hx : c :: cs = xs at h
    cases h with
    | here before after =>
      rcases before with _ | ⟨b, before⟩
      · obtain ⟨rfl, rfl⟩ := List.cons_eq_cons.mp hx
        exact .inl ⟨rfl, rfl⟩
      · obtain ⟨rfl, rfl⟩ := List.cons_eq_cons.mp hx
        exact .inr (.inr ⟨_, .here before after, rfl⟩)
    | pair before after s =>
      rcases before with _ | ⟨b, before⟩
      · obtain ⟨rfl, rfl⟩ := List.cons_eq_cons.mp hx
        exact .inr (.inl ⟨s, rfl, rfl⟩)
      · obtain ⟨rfl, rfl⟩ := List.cons_eq_cons.mp hx
        exact .inr (.inr ⟨_, .pair before after s, rfl⟩)
  · rintro (⟨rfl, rfl⟩ | ⟨s, rfl, rfl⟩ | ⟨ds, h, rfl⟩)
    · exact .here [] es
    · exact .pair [] es s
    · exact h.cons c

/-- It does not matter what is left out first. -/
theorem Cancels.normalForm_eq (h : Cancels cs ds) : normalForm cs = normalForm ds := by
  cases h with
  | here before after => simp only [normalForm, List.foldr_append, List.foldr_cons, putBefore]
  | pair before after s => simp only [normalForm, List.foldr_append, List.foldr_cons, putBefore]

theorem reaches_normalForm (cs : List Component) : ReflTransGen Cancels cs (normalForm cs) := by
  induction cs with
  | nil => exact .refl
  | cons c cs ih =>
    have hc : ReflTransGen Cancels (c :: cs) (c :: normalForm cs) :=
      ih.lift (c :: ·) fun _ _ h => h.cons c
    refine hc.trans ?_
    change ReflTransGen Cancels (c :: normalForm cs) (putBefore c (normalForm cs))
    rcases putBefore_cases c (normalForm cs) with ⟨rfl, hp⟩ | ⟨s, es, rfl, hd, hp⟩ | ⟨-, -, hp⟩
    · rw [hp]
      exact .single (.here [] _)
    · rw [hp, hd]
      exact .single (.pair [] es s)
    · rw [hp]

theorem normalForm_final (cs es : List Component) : ¬ Cancels (normalForm cs) es := by
  induction cs generalizing es with
  | nil =>
    intro h
    generalize hx : normalForm [] = xs at h
    cases h <;> simp [normalForm] at hx
  | cons c cs ih =>
    change ¬ Cancels (putBefore c (normalForm cs)) es
    rcases putBefore_cases c (normalForm cs) with ⟨-, hp⟩ | ⟨s, ds, -, hd, hp⟩ | ⟨hh, hn, hp⟩
    · rw [hp]
      exact ih es
    · rw [hp]
      exact fun h => ih _ (hd ▸ h.cons .up)
    · rw [hp, cancels_cons_iff]
      rintro (⟨rfl, -⟩ | ⟨s, rfl, hd⟩ | ⟨ds, h, -⟩)
      · exact hh rfl
      · exact hn s es rfl hd
      · exact ih ds h

theorem normalForm_eq_self (h : ∀ es, ¬ Cancels cs es) : normalForm cs = cs := by
  rcases (reaches_normalForm cs).cases_head with he | ⟨es, hs, -⟩
  · exact he.symm
  · exact absurd hs (h es)

theorem isNormalForm_iff : IsNormalForm cs ds ↔ ds = normalForm cs := by
  constructor
  · rintro ⟨hr, hf⟩
    rw [← normalForm_eq_self hf]
    clear hf
    induction hr with
    | refl => rfl
    | tail _ h ih => rw [← h.normalForm_eq, ih]
  · rintro rfl
    exact ⟨reaches_normalForm cs, normalForm_final cs⟩

/-- Nothing is left out for what stands behind it. -/
theorem getLast?_normalForm {s : String} (h : cs.getLast? = some (.name s)) :
    (normalForm cs).getLast? = some (.name s) := by
  obtain ⟨cs, rfl⟩ := List.getLast?_eq_some_iff.mp h
  clear h
  induction cs with
  | nil => rfl
  | cons c cs ih =>
    change (putBefore c (normalForm (cs ++ [.name s]))).getLast? = _
    rcases putBefore_cases c (normalForm (cs ++ [.name s])) with
      ⟨-, hp⟩ | ⟨t, es, -, hd, hp⟩ | ⟨-, -, hp⟩
    · rw [hp, ih]
    · rw [hd, List.getLast?_cons] at ih
      rw [hp]
      cases he : es.getLast? with
      | none => simp [he] at ih
      | some e => simpa [he] using ih
    · rw [hp, List.getLast?_cons, ih]
      rfl

theorem Cancels.sublist (h : Cancels cs ds) : ds.Sublist cs := by
  cases h with
  | here before after => exact (List.sublist_cons_self _ _).append_left before
  | pair before after s =>
    exact ((List.sublist_cons_self _ _).trans (List.sublist_cons_self _ _)).append_left before

theorem Cancels.walk_eq (h : Cancels cs ds)
    (hn : ∀ s, Component.name s ∈ cs → s ≠ "." ∧ s ≠ "..") (l : Location) :
    FileSystem.walk l (cs.filterMap stepOf?) = FileSystem.walk l (ds.filterMap stepOf?) := by
  cases h with
  | here before after =>
    rw [List.filterMap_append, List.filterMap_cons_none rfl, List.filterMap_append]
  | pair before after s =>
    obtain ⟨h₁, h₂⟩ := hn s (by simp)
    have hu (l : Location) : FileSystem.step (l ++ [s]) ".." = l := by simp [FileSystem.step]
    simp [stepOf?, FileSystem.step_name h₁ h₂, hu]

theorem target_eq_walk_normalForm (fs : FileSystem) (p : Path) :
    fs.target p =
      FileSystem.walk (fs.start p) ((normalForm p.components).filterMap stepOf?) := by
  have hn : ∀ s, Component.name s ∈ p.components → s ≠ "." ∧ s ≠ ".." := fun s hs =>
    ((leads_components p).name s hs).2
  have hw : ∀ ds, ReflTransGen Cancels p.components ds →
      ds.Sublist p.components ∧ FileSystem.walk (fs.start p) (p.components.filterMap stepOf?) =
        FileSystem.walk (fs.start p) (ds.filterMap stepOf?) := by
    intro ds hr
    induction hr with
    | refl => exact ⟨.refl _, rfl⟩
    | tail _ h ih =>
      obtain ⟨hs, hw⟩ := ih
      exact ⟨h.sublist.trans hs, hw.trans (h.walk_eq (fun s hm => hn s (hs.subset hm)) _)⟩
  rw [← (hw _ (reaches_normalForm _)).2, filterMap_stepOf?_components, steps,
    FileSystem.walk_filter, FileSystem.target]

/-! ## Paths that may be cleared -/

/-- Behind the start of a path there are only names and climbs, so without a climb the last
component is a name as soon as there is one. -/
theorem isDedicated_iff : p.isDedicated = true ↔ ∃ s, p.components.getLast? = some (.name s) := by
  constructor
  · intro h
    obtain ⟨hn, hu⟩ := Bool.and_eq_true_iff.mp h
    obtain ⟨start, hs, hc⟩ := p.exists_components_eq
    rcases List.eq_nil_or_concat (p.parts.filterMap componentOf?) with hp | ⟨cs, c, hp⟩
    · obtain ⟨c, hm, hn⟩ := List.any_eq_true.mp hn
      rw [hc, hp, List.append_nil] at hm
      cases c with
      | name s => exact absurd (List.filterMap_eq_nil_iff.mp hs _ hm) (by simp [stepOf?])
      | _ => cases hn
    · rw [List.concat_eq_append] at hp
      have hl : p.components.getLast? = some c := by
        rw [hc, hp, ← List.append_assoc, List.getLast?_concat]
      have hm : c ∈ p.parts.filterMap componentOf? := by simp [hp]
      obtain ⟨s, -, hs⟩ := List.mem_filterMap.mp hm
      rcases componentOf?_eq_some_iff.mp hs with ⟨rfl, -⟩ | ⟨rfl, -⟩
      · have hm : Component.up ∈ p.components := List.mem_of_getLast? hl
        simp [hl, hm, isName] at hu
      · exact ⟨s, hl⟩
  · rintro ⟨s, hs⟩
    have hm : Component.name s ∈ p.components := List.mem_of_getLast? hs
    have ha : p.components.any isName = true := List.any_eq_true.mpr ⟨_, hm, rfl⟩
    simp [isDedicated, ha, hs, isName]

end Path

variable {p : Path}

theorem writeTo_refused (h : p.isDedicated = false) (d : Documents) (fs : FileSystem) :
    d.writeTo p fs = (.error (.config (.refusedDirectory p.text)), fs) := by
  simp [Documents.writeTo, h]

theorem writeTo_not_refused (h : p.isDedicated = true) (d : Documents) (fs : FileSystem) :
    (d.writeTo p fs).1 ≠ .error (.config (.refusedDirectory p.text)) := by
  rw [Documents.writeTo, if_pos h]
  split <;> simp

/-- A path is accepted exactly if its last component is a name. It leads where its normal form leads,
which then ends in a name, so it is neither empty nor the root nor a climb. A path with no name in
its normal form is refused, and nothing is removed. -/
theorem isDedicated_sound (p : Path) :
    (p.isDedicated = true ↔ ∃ s, p.components.getLast? = some (.name s)) ∧
    (∀ (d : Documents) (fs : FileSystem),
      (d.writeTo p fs).1 = .error (.config (.refusedDirectory p.text)) ↔ p.isDedicated = false) ∧
    ∃ ds, (∀ ds', Path.IsNormalForm p.components ds' ↔ ds' = ds) ∧
      (∀ fs : FileSystem,
        fs.target p = FileSystem.walk (fs.start p) (ds.filterMap Path.stepOf?)) ∧
      (p.isDedicated = true →
        (∃ s, ds.getLast? = some (.name s)) ∧ ds ≠ [] ∧ ds ≠ [.root] ∧ ¬ ∀ c ∈ ds, c = .up) ∧
      ((∀ c ∈ ds, Path.isName c = false) → ∀ (d : Documents) (fs : FileSystem),
        d.writeTo p fs = (.error (.config (.refusedDirectory p.text)), fs)) := by
  have hlast : p.isDedicated = true →
      ∃ s, (Path.normalForm p.components).getLast? = some (.name s) := by
    intro h
    obtain ⟨s, hs⟩ := Path.isDedicated_iff.mp h
    exact ⟨s, Path.getLast?_normalForm hs⟩
  refine ⟨Path.isDedicated_iff, fun d fs => ?_, Path.normalForm p.components,
    fun _ => Path.isNormalForm_iff, fun fs => Path.target_eq_walk_normalForm fs p, fun h => ?_,
    fun h d fs => ?_⟩
  · constructor
    · intro h
      exact Bool.eq_false_iff.mpr fun hp => writeTo_not_refused hp d fs h
    · intro h
      rw [writeTo_refused h]
  · obtain ⟨s, hs⟩ := hlast h
    have hm := List.mem_of_getLast? hs
    refine ⟨⟨s, hs⟩, List.ne_nil_of_mem hm, fun hr => ?_, fun hu => ?_⟩
    · simp [hr] at hm
    · cases hu _ hm
  · refine writeTo_refused (Bool.eq_false_iff.mpr fun hp => ?_) d fs
    obtain ⟨s, hs⟩ := hlast hp
    cases h _ (List.mem_of_getLast? hs)

/-- A path beside the working directory may be cleared, a path back to it may not. -/
theorem isDedicated_beside :
    (Path.mk "./src/../../generated//api/.").isDedicated = true ∧
      (∃ ds, Path.IsNormalForm (Path.mk "./src/../../generated//api/.").components ds ∧
        ∃ s, ds.getLast? = some (.name s)) ∧
      ∀ (d : Documents) (fs : FileSystem), d.writeTo ⟨"out/.."⟩ fs =
        (.error (.config (.refusedDirectory "out/..")), fs) := by
  have hp : (Path.mk "./src/../../generated//api/.").isDedicated = true := by decide +kernel
  obtain ⟨-, -, ds, hds, -, hacc, -⟩ := isDedicated_sound ⟨"./src/../../generated//api/."⟩
  obtain ⟨-, -, es, hes, -, -, href⟩ := isDedicated_sound ⟨"out/.."⟩
  refine ⟨hp, ⟨ds, (hds ds).mpr rfl, (hacc hp).1⟩, href ?_⟩
  have hn : Path.normalForm (Path.mk "out/..").components = [] := by decide +kernel
  obtain rfl : es = [] := (Path.isNormalForm_iff.mp ((hes es).mpr rfl)).trans hn
  simp

end ApiTypings
