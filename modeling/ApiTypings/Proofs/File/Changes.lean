import Mathlib
import ApiTypings.Proofs.File.Lookup

/-! # Changes to files and directories

What each change does to the entries, and when it succeeds. Writing a file replaces one entry and
loses no directory. Making directories adds directories at the locations of the given paths and
changes nothing else, whether it succeeds or not.
-/

namespace ApiTypings

namespace FileSystem

variable {fs fs' fs₁ fs₂ : FileSystem} {p q : Path} {s name text : String} {ps : List String}
  {l m : Location}

/-! ## Trees -/

/-- Every entry stands in a directory, and so does the working directory. -/
structure IsTree (fs : FileSystem) : Prop where
  parent : ∀ l s e, fs.entryAt? (l ++ [s]) = some e → fs.entryAt? l = some .directory
  working : fs.entryAt? fs.workingDirectory = some .directory

/-- It is enough to look at the entries listed. -/
theorem isTree_of_entries
    (h : ∀ x ∈ fs.entries, fs.entryAt? x.1.dropLast = some .directory)
    (hw : fs.entryAt? fs.workingDirectory = some .directory) : fs.IsTree where
  parent l s e he := by
    have hl : fs.entries.lookup (l ++ [s]) = some e := by simpa [entryAt?] using he
    obtain ⟨_, _, hx, -⟩ := List.lookup_eq_some_iff.mp hl
    simpa using h (l ++ [s], e) (by simp [hx])
  working := hw

namespace IsTree

theorem dropLast (ht : fs.IsTree) (h : fs.entryAt? l = some .directory) :
    fs.entryAt? l.dropLast = some .directory := by
  rcases List.eq_nil_or_concat l with rfl | ⟨k, s, rfl⟩
  · exact fs.entryAt?_nil
  · rw [List.concat_eq_append] at h ⊢
    rw [List.dropLast_concat]
    exact ht.parent k s _ h

theorem none_below (ht : fs.IsTree) (h : fs.entryAt? l = none) (hm : l <+: m) :
    fs.entryAt? m = none := by
  obtain ⟨k, rfl⟩ := hm
  induction k using List.reverseRecOn with
  | nil => rwa [List.append_nil]
  | append_singleton k s ih =>
    rw [← List.append_assoc]
    by_contra hn
    obtain ⟨e, he⟩ := Option.ne_none_iff_exists'.mp hn
    simp [ht.parent _ s e he] at ih

theorem start (ht : fs.IsTree) (p : Path) : fs.entryAt? (fs.start p) = some .directory := by
  unfold FileSystem.start
  split_ifs
  · exact fs.entryAt?_nil
  · exact ht.working

theorem walk (ht : fs.IsTree) (hp : fs.Passes l ps) (hl : fs.entryAt? l = some .directory) :
    fs.entryAt? (FileSystem.walk l ps) = some .directory := by
  induction ps generalizing l with
  | nil => exact hl
  | cons s ps ih =>
    refine ih hp.2 ?_
    unfold step
    split_ifs with h₁ h₂
    · exact hl
    · exact ht.dropLast hl
    · exact hp.1 h₁ h₂

end IsTree

/-! ## Files -/

/-- The root is a directory, so what replaces something else stands below it. -/
theorem entryAt?_put_of_ne (h : fs.entryAt? l ≠ some .directory) (e : Entry) (m : Location) :
    (fs.put l e).entryAt? m = if m = l then some e else fs.entryAt? m := by
  refine entryAt?_put fs ?_ e m
  rintro rfl
  exact h fs.entryAt?_nil

theorem keeps_put (h : fs.entryAt? l ≠ some .directory) (e : Entry) : fs.Keeps (fs.put l e) where
  workingDirectory := rfl
  directory m hm := by
    have hn : m ≠ l := by
      rintro rfl
      exact h hm
    rwa [entryAt?_put_of_ne h, if_neg hn]

theorem create_eq_ok_iff {e : Entry} :
    fs.create l e = .ok fs' ↔ fs.entryAt? l.dropLast = some .directory ∧ fs' = fs.put l e := by
  unfold create
  split_ifs with h <;> simp [h, eq_comm]

theorem write_eq_ok_iff :
    fs.write p text = .ok fs' ↔ fs.locate p = .ok (fs.target p) ∧ p.endsInSlash = false ∧
      endsInName p = true ∧ fs.entryAt? (fs.target p) ≠ some .directory ∧
      fs.entryAt? (fs.target p).dropLast = some .directory ∧
      fs' = fs.put (fs.target p) (.file text) := by
  rw [write]
  cases hl : fs.locate p with
  | error _ => simp
  | ok l =>
    rw [target_eq_of_locate hl]
    cases hs : p.endsInSlash <;> cases hn : endsInName p <;> simp
    rcases he : fs.entryAt? l with _ | _ | _ <;> simp [create_eq_ok_iff]

theorem endsInName_join (hn : Path.IsEntryName name) : endsInName (p.join name) = true := by
  simp [endsInName, Path.getLast?_parts_join hn, hn.not_here, hn.not_up]

theorem write_join (h : fs.status p = .ok .directory) (hn : Path.IsEntryName name)
    (he : fs.entryAt? (fs.target p ++ [name]) ≠ some .directory) :
    fs.write (p.join name) text = .ok (fs.put (fs.target p ++ [name]) (.file text)) := by
  rw [write_eq_ok_iff, target_join hn, List.dropLast_concat]
  exact ⟨locate_join h hn, Path.endsInSlash_join hn, endsInName_join hn, he,
    (status_eq_directory_iff.mp h).2, rfl⟩

theorem read_of_write (h : fs.write p text = .ok fs') : fs'.read p = .ok text := by
  obtain ⟨hl, hs, -, he, -, rfl⟩ := write_eq_ok_iff.mp h
  have hk := keeps_put he (.file text)
  rw [read_eq_ok_iff, status_eq_ok_iff, target_congr hk.workingDirectory,
    entryAt?_put_of_ne he, if_pos rfl]
  exact ⟨hk.locate hl, rfl, fun h => by simp [hs] at h⟩

theorem keeps_of_write (h : fs.write p text = .ok fs') : fs.Keeps fs' := by
  obtain ⟨-, -, -, he, -, rfl⟩ := write_eq_ok_iff.mp h
  exact keeps_put he _

theorem read_of_write_ne {text' : String} (h : fs.write p text = .ok fs')
    (hr : fs.read q = .ok text') (hn : fs.target q ≠ fs.target p) : fs'.read q = .ok text' := by
  have hk := keeps_of_write h
  obtain ⟨-, -, -, he, -, rfl⟩ := write_eq_ok_iff.mp h
  obtain ⟨hl, ht, hs⟩ := status_eq_ok_iff.mp (read_eq_ok_iff.mp hr)
  rw [read_eq_ok_iff, status_eq_ok_iff, target_congr hk.workingDirectory,
    entryAt?_put_of_ne he, if_neg hn]
  exact ⟨hk.locate hl, ht, hs⟩

/-! ## Directories -/

/-- A file system with further directories, all at locations in a set. -/
structure Adds (ls : Set Location) (fs fs' : FileSystem) : Prop where
  workingDirectory : fs'.workingDirectory = fs.workingDirectory
  entry : ∀ l, fs'.entryAt? l = fs.entryAt? l ∨
    l ∈ ls ∧ fs.entryAt? l = none ∧ fs'.entryAt? l = some .directory

namespace Adds

variable {ls ls' : Set Location}

theorem refl (ls : Set Location) (fs : FileSystem) : Adds ls fs fs := ⟨rfl, fun _ => .inl rfl⟩

theorem mono (h : Adds ls fs fs') (hs : ls ⊆ ls') : Adds ls' fs fs' :=
  ⟨h.workingDirectory, fun l => (h.entry l).imp_right fun ⟨hl, hn⟩ => ⟨hs hl, hn⟩⟩

theorem trans (h : Adds ls fs fs₁) (h' : Adds ls fs₁ fs₂) : Adds ls fs fs₂ where
  workingDirectory := h'.workingDirectory.trans h.workingDirectory
  entry l := by
    rcases h'.entry l with he' | ⟨hl, hn, he'⟩
    · rw [he']
      exact h.entry l
    · rcases h.entry l with he | ⟨-, -, he⟩
      · exact .inr ⟨hl, he ▸ hn, he'⟩
      · simp [he] at hn

theorem keeps (h : Adds ls fs fs') : fs.Keeps fs' where
  workingDirectory := h.workingDirectory
  directory l hl := by
    rcases h.entry l with he | ⟨-, hn, -⟩
    · rw [he, hl]
    · simp [hl] at hn

theorem file_iff (h : Adds ls fs fs') :
    fs'.entryAt? l = some (.file text) ↔ fs.entryAt? l = some (.file text) := by
  rcases h.entry l with he | ⟨-, hn, he⟩
  · rw [he]
  · simp [hn, he]

end Adds

theorem isTree_put (ht : fs.IsTree) (hn : fs.entryAt? l = none)
    (hd : fs.entryAt? l.dropLast = some .directory) : (fs.put l .directory).IsTree where
  parent k s e he := by
    have hl : fs.entryAt? l ≠ some .directory := by simp [hn]
    refine (keeps_put hl _).directory k ?_
    rw [entryAt?_put_of_ne hl] at he
    split_ifs at he with hk
    · rwa [← hk, List.dropLast_concat] at hd
    · exact ht.parent k s e he
  working := (keeps_put (by simp [hn]) _).directory _ ht.working

theorem makeDirectory_eq_ok_iff :
    fs.makeDirectory p = .ok fs' ↔ fs.locate p = .ok (fs.target p) ∧
      fs.entryAt? (fs.target p) = none ∧ endsInName p = true ∧
      fs.entryAt? (fs.target p).dropLast = some .directory ∧
      fs' = fs.put (fs.target p) .directory := by
  rw [makeDirectory]
  cases hl : fs.locate p with
  | error _ => simp
  | ok l =>
    rw [target_eq_of_locate hl]
    cases he : fs.entryAt? l <;> cases hn : endsInName p <;> simp [he, create_eq_ok_iff]

/-- What making a directory does that may be there already. -/
theorem makeOrKeep_eq_ok_iff :
    fs.makeOrKeep p = .ok fs' ↔
      fs.makeDirectory p = .ok fs' ∨
        fs.makeDirectory p = .error .alreadyExists ∧ fs.status p = .ok .directory ∧ fs' = fs := by
  rw [makeOrKeep, ← isDirectory_iff]
  cases h : fs.makeDirectory p with
  | ok fs₁ => simp
  | error e =>
    cases e <;> simp
    cases fs.isDirectory p <;> simp [eq_comm]

theorem adds_of_makeOrKeep (h : fs.makeOrKeep p = .ok fs') : Adds {fs.target p} fs fs' := by
  rcases makeOrKeep_eq_ok_iff.mp h with h | ⟨-, -, rfl⟩
  · obtain ⟨-, hn, -, -, rfl⟩ := makeDirectory_eq_ok_iff.mp h
    have hd : fs.entryAt? (fs.target p) ≠ some .directory := by simp [hn]
    refine ⟨rfl, fun l => ?_⟩
    rw [entryAt?_put_of_ne hd]
    split_ifs with hl
    · exact .inr ⟨hl, hl ▸ hn, rfl⟩
    · exact .inl rfl
  · exact .refl _ _

theorem isTree_of_makeOrKeep (ht : fs.IsTree) (h : fs.makeOrKeep p = .ok fs') : fs'.IsTree := by
  rcases makeOrKeep_eq_ok_iff.mp h with h | ⟨-, -, rfl⟩
  · obtain ⟨-, hn, -, hd, rfl⟩ := makeDirectory_eq_ok_iff.mp h
    exact isTree_put ht hn hd
  · exact ht

theorem status_of_makeOrKeep (h : fs.makeOrKeep p = .ok fs') : fs'.status p = .ok .directory := by
  have hk := (adds_of_makeOrKeep h).keeps
  rcases makeOrKeep_eq_ok_iff.mp h with h | ⟨-, hs, rfl⟩
  · obtain ⟨hl, hn, -, -, rfl⟩ := makeDirectory_eq_ok_iff.mp h
    have hd : fs.entryAt? (fs.target p) ≠ some .directory := by simp [hn]
    rw [status_eq_directory_iff, target_congr hk.workingDirectory, entryAt?_put_of_ne hd,
      if_pos rfl]
    exact ⟨hk.locate hl, rfl⟩
  · exact hs

def targets (fs : FileSystem) (qs : List Path) : Set Location := {l | ∃ q ∈ qs, l = fs.target q}

theorem adds_cons_of_makeOrKeep {qs : List Path} (h : fs.makeOrKeep p = .ok fs') :
    Adds (fs.targets (p :: qs)) fs fs' :=
  (adds_of_makeOrKeep h).mono fun _ hl => ⟨p, List.mem_cons_self, hl⟩

theorem targets_mono {qs : List Path} : fs.targets qs ⊆ fs.targets (p :: qs) :=
  fun _ ⟨q, hq, hl⟩ => ⟨q, List.mem_cons_of_mem p hq, hl⟩

/-- Directories are made at the given locations only, even if not all of them can be made. -/
theorem adds_makeAll (fs : FileSystem) (qs : List Path) :
    Adds (fs.targets qs) fs (fs.makeAll qs).2 := by
  fun_induction fs.makeAll qs with
  | case1 => exact .refl _ _
  | case2 p qs fs₁ h => exact adds_cons_of_makeOrKeep h
  | case3 p qs h e fs₁ hq ih =>
    rw [hq] at ih
    exact ih.mono targets_mono
  | case4 p qs h fs₁ hq fs₂ hp ih =>
    -- The paths outside are made first, and then the path itself, from the same working directory.
    rw [hq] at ih
    have ha := ih.mono (targets_mono (p := p))
    refine ha.trans ((adds_of_makeOrKeep hp).mono ?_)
    rintro l rfl
    exact ⟨p, List.mem_cons_self, target_congr ha.workingDirectory p⟩
  | case5 p qs h fs₁ hq e hp ih =>
    rw [hq] at ih
    exact ih.mono targets_mono
  | case6 => exact .refl _ _

theorem isTree_makeAll (ht : fs.IsTree) (qs : List Path) : (fs.makeAll qs).2.IsTree := by
  fun_induction fs.makeAll qs with
  | case1 => exact ht
  | case2 p qs fs₁ h => exact isTree_of_makeOrKeep ht h
  | case3 p qs h e fs₁ hq ih =>
    rw [hq] at ih
    exact ih
  | case4 p qs h fs₁ hq fs₂ hp ih =>
    rw [hq] at ih
    exact isTree_of_makeOrKeep ih hp
  | case5 p qs h fs₁ hq e hp ih =>
    rw [hq] at ih
    exact ih
  | case6 => exact ht

theorem makeAll_spec (ht : fs.IsTree) (qs : List Path) :
    Adds (fs.targets qs) fs (fs.makeAll qs).2 ∧ (fs.makeAll qs).2.IsTree :=
  ⟨adds_makeAll fs qs, isTree_makeAll ht qs⟩

theorem adds_of_makeDirectories {r : Except FileError Unit}
    (h : fs.makeDirectories p = (r, fs')) : Adds (fs.targets p.ancestors) fs fs' := by
  have ha := adds_makeAll fs p.ancestors
  rwa [← makeDirectories, h] at ha

theorem isTree_of_makeDirectories {r : Except FileError Unit} (ht : fs.IsTree)
    (h : fs.makeDirectories p = (r, fs')) : fs'.IsTree := by
  have ht := isTree_makeAll ht p.ancestors
  rwa [← makeDirectories, h] at ht

/-- If all directories are there, then so is the one that lies in the others. -/
theorem status_of_makeAll {qs : List Path} (h : fs.makeAll (p :: qs) = (.ok (), fs')) :
    fs'.status p = .ok .directory := by
  rw [makeAll] at h
  rcases hp : fs.makeOrKeep p with e | fs₁
  · rcases hq : fs.makeAll qs with ⟨e' | _, fs₁⟩
    · cases e <;> simp [hp, hq] at h
    · rcases hp₁ : fs₁.makeOrKeep p with e' | fs₂
      · cases e <;> simp [hp, hq, hp₁] at h
      · cases e <;> simp [hp, hq, hp₁] at h
        exact h ▸ status_of_makeOrKeep hp₁
  · obtain rfl : fs₁ = fs' := by simpa [hp] using h
    exact status_of_makeOrKeep hp

/-! ## Removal -/

theorem isBelow_iff : isBelow l m = true ↔ l <+: m ∧ m ≠ l := by
  simp [isBelow]

theorem isBelow_append_singleton (l : Location) (s : String) : isBelow l (l ++ [s]) = true := by
  simp [isBelow_iff]

theorem IsTree.none_of_isBelow (ht : fs.IsTree) (h : fs.entryAt? l ≠ some .directory)
    (hm : isBelow l m = true) : fs.entryAt? m = none := by
  obtain ⟨⟨k, rfl⟩, hn⟩ := isBelow_iff.mp hm
  obtain ⟨s, k, rfl⟩ := List.exists_cons_of_ne_nil (l := k) (by simpa using hn)
  refine ht.none_below (l := l ++ [s]) ?_ ⟨k, by simp⟩
  by_contra he
  obtain ⟨e, he⟩ := Option.ne_none_iff_exists'.mp he
  exact h (ht.parent l s e he)

theorem IsTree.passes (ht : fs.IsTree) (hu : ".." ∉ ps)
    (hd : fs.entryAt? (FileSystem.walk l ps) = some .directory) : fs.Passes l ps := by
  induction ps generalizing l with
  | nil => trivial
  | cons s ps ih =>
    have hu : ".." ∉ ps := fun h => hu (List.mem_cons_of_mem s h)
    refine ⟨fun h₁ h₂ => ?_, ih hu hd⟩
    by_contra hn
    rw [← step_name h₁ h₂] at hn
    have hw : FileSystem.walk (step l s) ps ≠ step l s := fun he => hn (he ▸ hd)
    have := ht.none_of_isBelow hn (isBelow_iff.mpr ⟨prefix_walk hu _, hw⟩)
    simp [this] at hd

/-- A file system without an entry and what is below it. -/
def without (fs : FileSystem) (l : Location) : FileSystem := fs.removeWhere fun m => l.isPrefixOf m

theorem entryAt?_without (hl : l ≠ []) (m : Location) :
    (fs.without l).entryAt? m = if l <+: m then none else fs.entryAt? m := by
  rcases eq_or_ne m [] with rfl | hm
  · simp [hl]
  · simp [without, entryAt?_removeWhere fs _ hm]

theorem ne_nil_of_outside (h : ¬ l <+: m) : l ≠ [] := by
  rintro rfl
  exact h List.nil_prefix

theorem isTree_without (ht : fs.IsTree) (hw : ¬ l <+: fs.workingDirectory) :
    (fs.without l).IsTree where
  parent k s e he := by
    rw [entryAt?_without (ne_nil_of_outside hw)] at he ⊢
    split_ifs at he with hs
    rw [if_neg fun hk => hs (hk.trans (List.prefix_append k [s]))]
    exact ht.parent k s e he
  working := by
    rw [entryAt?_without (ne_nil_of_outside hw)]
    exact (if_neg hw).trans ht.working

end FileSystem

/-! ## Sequences of changes -/

namespace FileAction

variable {α β : Type} {x : FileAction α} {f : α → FileAction β} {fs fs₁ fs₂ : FileSystem}
  {p : Path} {text : String}

theorem bind_ok {a : α} (h : x fs = (.ok a, fs₁)) : (x >>= f) fs = f a fs₁ := by
  show FileAction.bind x f fs = _
  simp [FileAction.bind, h]

theorem bind_error {e : FileError} (h : x fs = (.error e, fs₁)) :
    (x >>= f) fs = (.error e, fs₁) := by
  show FileAction.bind x f fs = _
  simp [FileAction.bind, h]

theorem bind_eq_ok_iff {b : β} :
    (x >>= f) fs = (.ok b, fs₂) ↔ ∃ a fs₁, x fs = (.ok a, fs₁) ∧ f a fs₁ = (.ok b, fs₂) := by
  constructor
  · intro h
    rcases hx : x fs with ⟨e | a, fs₁⟩
    · simp [bind_error hx] at h
    · exact ⟨a, fs₁, rfl, by rwa [bind_ok hx] at h⟩
  · rintro ⟨a, fs₁, hx, hf⟩
    rwa [bind_ok hx]

theorem write_eq_ok_iff : write p text fs = (.ok (), fs₁) ↔ fs.write p text = .ok fs₁ := by
  unfold write
  split <;> simp_all

end FileAction

end ApiTypings
