import Mathlib
import ApiTypings.Generation.Output
import ApiTypings.Proofs.File.Directories
import ApiTypings.Proofs.Generation.Conversion

/-! # Replacing the output directory

A run ends with the three documents in an output directory that holds no other file, or it leaves
every file as it was. This depends on how the directory is given: its path must not lead out of a
directory that is missing, must not pass through a document, and must not end in a dot.
-/

namespace ApiTypings

def Documents.files (d : Documents) : List (String × String) :=
  [(schemaFile, d.schema), (pathsFile, d.paths), (servicesFile, d.services)]

def documentNames : List String := [schemaFile, pathsFile, servicesFile]

theorem nodup_documentNames : documentNames.Nodup := by decide

theorem isEntryName_of_mem {name : String} (h : name ∈ documentNames) :
    Path.IsEntryName name := by
  simp only [documentNames, List.mem_cons, List.not_mem_nil, or_false] at h
  rcases h with rfl | rfl | rfl <;> constructor <;> decide

namespace FileSystem

variable {fs fs₁ fs₂ : FileSystem} {p : Path} {name text : String}
  {files added : List (String × String)}

/-- The files are the same. Directories may differ. -/
def SameFiles (fs fs' : FileSystem) : Prop :=
  ∀ l text, fs'.entryAt? l = some (.file text) ↔ fs.entryAt? l = some (.file text)

/-- A path leads to a directory that holds some files and no others below it. The files elsewhere
are those of another file system. -/
structure Replaces (fs : FileSystem) (p : Path) (files : List (String × String))
    (fs' : FileSystem) : Prop where
  status : fs'.status p = .ok .directory
  target : fs'.target p = fs.target p
  inside : ∀ l text, isBelow (fs.target p) l = true →
    (fs'.entryAt? l = some (.file text) ↔ ∃ name, l = fs.target p ++ [name] ∧ (name, text) ∈ files)
  outside : ∀ l text, isBelow (fs.target p) l = false →
    (fs'.entryAt? l = some (.file text) ↔ fs.entryAt? l = some (.file text))

theorem Replaces.write (h : Replaces fs p files fs₁) (hn : Path.IsEntryName name)
    (hf : name ∉ files.map Prod.fst)
    (hd : fs₁.entryAt? (fs.target p ++ [name]) ≠ some .directory) :
    ∃ fs₂, fs₁.write (p.join name) text = .ok fs₂ ∧ Replaces fs p (files ++ [(name, text)]) fs₂ ∧
      ∀ l, fs₁.entryAt? l ≠ some .directory → fs₂.entryAt? l ≠ some .directory := by
  have he := entryAt?_put_of_ne hd (.file text)
  have hk := keeps_put hd (.file text)
  refine ⟨fs₁.put (fs.target p ++ [name]) (.file text), ?_,
    ⟨hk.status h.status, ?_, fun l t hl => ?_, fun l t hl => ?_⟩, fun l hl => ?_⟩
  · rw [← h.target] at hd ⊢
    exact write_join h.status hn hd
  · rw [target_congr hk.workingDirectory, h.target]
  · rw [he]
    split_ifs with hm
    · simp only [hm, List.mem_append, List.mem_singleton, Prod.mk.injEq]
      constructor
      · intro ht
        exact ⟨name, rfl, .inr ⟨rfl, by simpa [eq_comm] using ht⟩⟩
      · rintro ⟨n, hn, hx⟩
        obtain rfl : name = n := by simpa using hn
        rcases hx with hx | ⟨-, rfl⟩
        · exact absurd (List.mem_map_of_mem hx) hf
        · rfl
    · rw [h.inside l t hl]
      refine exists_congr fun n => and_congr_right fun hx => ?_
      have hne : n ≠ name := by
        rintro rfl
        exact hm hx
      simp [hne]
  · have hm : l ≠ fs.target p ++ [name] := by
      rintro rfl
      simp [isBelow_append_singleton] at hl
    rw [he, if_neg hm, h.outside l t hl]
  · rw [he]
    split_ifs
    · simp
    · exact hl

end FileSystem

def FileAction.writeAll (dir : Path) : List (String × String) → FileAction Unit
  | [] => pure ()
  | (name, text) :: files => do
    FileAction.write (dir.join name) text
    FileAction.writeAll dir files

open FileSystem

theorem replaces_writeAll {fs fs₁ : FileSystem} {p : Path} {files added : List (String × String)}
    (h : Replaces fs p files fs₁) (hn : ∀ x ∈ added, Path.IsEntryName x.1)
    (hf : ((files ++ added).map Prod.fst).Nodup)
    (hd : ∀ x ∈ added, fs₁.entryAt? (fs.target p ++ [x.1]) ≠ some .directory) :
    ∃ fs₂, FileAction.writeAll p added fs₁ = (.ok (), fs₂) ∧ Replaces fs p (files ++ added) fs₂ := by
  induction added generalizing files fs₁ with
  | nil => exact ⟨fs₁, rfl, by rwa [List.append_nil]⟩
  | cons x added ih =>
    obtain ⟨name, text⟩ := x
    have hx : name ∉ files.map Prod.fst := by
      rw [List.map_append, List.nodup_append] at hf
      exact fun hx => hf.2.2 _ hx name (by simp) rfl
    obtain ⟨fs₂, hw, h₂, hk⟩ := h.write (hn _ List.mem_cons_self) hx (hd _ List.mem_cons_self)
    rw [List.append_cons] at hf ⊢
    obtain ⟨fs₃, hw₃, h₃⟩ := ih h₂ (fun y hy => hn y (List.mem_cons_of_mem _ hy)) hf
      fun y hy => hk _ (hd y (List.mem_cons_of_mem _ hy))
    exact ⟨fs₃, (FileAction.bind_ok (FileAction.write_eq_ok_iff.mpr hw)).trans hw₃, h₃⟩

theorem FileAction.bind_pure_unit (x : FileAction Unit) :
    (x >>= fun _ => (pure () : FileAction Unit)) = x := by
  funext fs
  rcases hx : x fs with ⟨e | a, fs₁⟩
  · exact FileAction.bind_error hx
  · exact FileAction.bind_ok hx

theorem replace_eq (d : Documents) (dir : Path) :
    d.replace dir = (clear dir >>= fun _ =>
      FileAction.makeDirectories dir >>= fun _ => FileAction.writeAll dir d.files) := by
  simp only [Documents.replace, Documents.files, FileAction.writeAll, FileAction.bind_pure_unit]

/-! ## Clearing -/

namespace FileSystem

variable {fs fs₁ fs₂ : FileSystem} {p : Path}

/-- What a path leads to is gone, with all that was below it. -/
structure Cleared (fs : FileSystem) (p : Path) (fs' : FileSystem) : Prop where
  isTree : fs'.IsTree
  workingDirectory : fs'.workingDirectory = fs.workingDirectory
  gone : fs'.entryAt? (fs.target p) ≠ some .directory
  outside : ∀ l text, isBelow (fs.target p) l = false →
    (fs'.entryAt? l = some (.file text) ↔ fs.entryAt? l = some (.file text))

theorem cleared_self (ht : fs.IsTree) (h : fs.entryAt? (fs.target p) ≠ some .directory) :
    Cleared fs p fs :=
  ⟨ht, rfl, h, fun _ _ _ => Iff.rfl⟩

theorem cleared_without (ht : fs.IsTree) (hw : ¬ fs.target p <+: fs.workingDirectory)
    (hs : fs.status p = .ok .directory) : Cleared fs p (fs.without (fs.target p)) := by
  have he : ∀ l, (fs.without (fs.target p)).entryAt? l = _ :=
    entryAt?_without (ne_nil_of_outside hw)
  refine ⟨isTree_without ht hw, rfl, by simp [he], fun l text hl => ?_⟩
  rw [he]
  split_ifs with h
  · obtain rfl : l = fs.target p := by
      by_contra hn
      simp [isBelow_iff.mpr ⟨h, hn⟩] at hl
    simp [(status_eq_directory_iff.mp hs).2]
  · rfl

theorem clear_of_status (hs : fs.status p = .ok .directory) (hn : endsInName p = true) :
    clear p fs = (.ok (), fs.without (fs.target p)) := by
  have hh : FileAction.holds p fs = (.ok true, fs) := by simp [FileAction.holds, holds, hs]
  refine (FileAction.bind_ok hh).trans ?_
  simp [FileAction.removeTree, removeTree, hs, (status_eq_directory_iff.mp hs).1, hn, without]

theorem clear_cases (hd : fs.status p = .ok .directory → endsInName p = true) :
    (∃ e, clear p fs = (.error e, fs)) ∨
      fs.status p = .error .notFound ∧ clear p fs = (.ok (), fs) ∨
      fs.status p = .ok .directory ∧ clear p fs = (.ok (), fs.without (fs.target p)) := by
  have hh : FileAction.holds p fs = (fs.holds p, fs) := rfl
  rw [holds] at hh
  rcases hs : fs.status p with e | (_ | text) <;> rw [hs] at hh
  · by_cases he : e = .notFound
    · subst he
      exact .inr (.inl ⟨rfl, FileAction.bind_ok hh⟩)
    · exact .inl ⟨e, FileAction.bind_error (by rw [hh]; cases e <;> trivial)⟩
  · exact .inr (.inr ⟨rfl, clear_of_status hs (hd hs)⟩)
  · refine .inl ⟨.notDirectory, (FileAction.bind_ok hh).trans ?_⟩
    simp [FileAction.removeTree, removeTree, hs]

theorem exists_makeDirectories_without (ht : fs.IsTree)
    (hw : ¬ fs.target p <+: fs.workingDirectory) (hs : fs.status p = .ok .directory)
    (hn : endsInName p = true) :
    ∃ fs', (fs.without (fs.target p)).makeDirectories p = (.ok (), fs') := by
  have h₀ := (locate_eq_ok_iff.mp (status_eq_directory_iff.mp hs).1).2.1
  refine exists_makeDirectories (isTree_without ht hw) hn h₀ fun qs hq text => ?_
  have hd := ht.walk ((passes_of_status hs).initial hq) (ht.start p)
  have hs : (fs.without (fs.target p)).start p = fs.start p := start_congr rfl p
  rw [entryAt?_without (ne_nil_of_outside hw), hs, hd]
  split_ifs <;> simp

theorem isInner_of_isDedicated (h : p.isDedicated = true) : Path.isInner p.components = true := by
  obtain ⟨c, hc, hn⟩ : ∃ c ∈ p.components, Path.isName c = true := by
    simpa using (Bool.and_eq_true_iff.mp h).1
  refine Path.isInner_iff.mpr ⟨List.ne_nil_of_mem hc, fun hr => ?_⟩
  obtain rfl : c = .root := by simpa [hr] using hc
  cases hn

theorem Cleared.makeDirectories (h : Cleared fs p fs₁) (hp : p.isDedicated = true)
    (hm : fs₁.makeDirectories p = (.ok (), fs₂)) :
    Replaces fs p [] fs₂ ∧ ∀ name, (∀ q ∈ p.ancestors, fs.target q ≠ fs.target p ++ [name]) →
      fs₂.entryAt? (fs.target p ++ [name]) ≠ some .directory := by
  obtain ⟨ha, -⟩ := makeAll_spec h.isTree p.ancestors
  rw [FileSystem.makeDirectories] at hm
  rw [hm] at ha
  rw [ancestors_eq (isInner_of_isDedicated hp)] at hm
  have hn := fun l => h.isTree.none_of_isBelow (m := l) h.gone
  refine ⟨⟨status_of_makeAll hm, ?_, fun l text hl => ?_, fun l text hl => ?_⟩,
    fun name hq he => ?_⟩
  · exact target_congr (ha.workingDirectory.trans h.workingDirectory) p
  · rw [ha.file_iff, hn l hl]
    simp
  · rw [ha.file_iff, h.outside l text hl]
  · rcases ha.entry (fs.target p ++ [name]) with hl | ⟨⟨q, hx, hl⟩, -⟩
    · rw [hl, hn _ (isBelow_append_singleton _ _)] at he
      cases he
    · exact hq q hx (by rw [hl, target_congr h.workingDirectory])

/-! ## Replacing -/

/-- What a path has to satisfy so that the directory it leads to can be replaced. -/
structure Replaceable (fs : FileSystem) (p : Path) : Prop where
  /-- A directory that is found is found by its name. -/
  named : fs.status p = .ok .directory → endsInName p = true
  /-- If something is missing on the way, then there is no directory behind it. -/
  missing : fs.status p = .error .notFound → fs.entryAt? (fs.target p) ≠ some .directory
  /-- The way does not pass through a document. -/
  apart : ∀ q ∈ p.ancestors, ∀ name ∈ documentNames, fs.target q ≠ fs.target p ++ [name]

theorem replaceable_of_descends (ht : fs.IsTree) (hn : endsInName p = true)
    (hu : ".." ∉ p.parts) : fs.Replaceable p where
  named _ := hn
  missing hs hd := by
    have he : p.text ≠ "" := fun he => by simp [endsInName, Path.parts, he] at hn
    by_cases h₀ : '\x00' ∈ p.text.toList
    · simp [status, locate, he, h₀] at hs
    · have hp := (ht.passes hu hd).initial (List.dropLast_prefix _)
      have hl := locate_eq_ok_iff.mpr ⟨he, h₀, hp, rfl⟩
      simp [status_eq_directory_iff.mpr ⟨hl, hd⟩] at hs
  apart q hq name _ he := by
    obtain ⟨n, ht⟩ := exists_target_of_mem_ancestors fs hq
    obtain ⟨rs, hr⟩ : (p.components.take n).filterMap Path.stepOf? <+: p.steps := by
      rw [← Path.filterMap_stepOf?_components]
      exact (List.take_prefix n _).filterMap _
    have hp : fs.target p = walk (fs.target q) rs := by
      rw [ht, ← walk_append, hr, Path.steps, walk_filter, target]
    have hu : ".." ∉ rs := fun h =>
      hu (List.mem_of_mem_filter (hr ▸ List.mem_append_right _ h))
    have hl := (prefix_walk hu (fs.target q)).length_le
    rw [← hp, he] at hl
    simp at hl

end FileSystem

section Replace

variable {fs fs₁ fs₂ : FileSystem} {p : Path} {d : Documents}

theorem replace_of_cleared (hr : fs.Replaceable p) (hp : p.isDedicated = true)
    (hc : clear p fs = (.ok (), fs₁)) (h : Cleared fs p fs₁)
    (hm : fs₁.makeDirectories p = (.ok (), fs₂)) :
    ∃ fs', d.replace p fs = (.ok (), fs') ∧ Replaces fs p d.files fs' := by
  obtain ⟨h₂, hn⟩ := h.makeDirectories hp hm
  have hx : ∀ x ∈ d.files, x.1 ∈ documentNames := fun x hx => List.mem_map_of_mem hx
  obtain ⟨fs', hs, h'⟩ := replaces_writeAll h₂ (fun x h => isEntryName_of_mem (hx x h))
    nodup_documentNames fun x h => hn _ fun q hq => hr.apart q hq _ (hx x h)
  refine ⟨fs', ?_, h'⟩
  rw [replace_eq, FileAction.bind_ok hc, FileAction.bind_ok (x := FileAction.makeDirectories p) hm]
  exact hs

/-- Clearing fails before anything is removed, and what was removed can be made again. So a failure
comes from making directories where there was none, and no file is lost. -/
theorem replace_all_or_nothing (ht : fs.IsTree) (hw : ¬ fs.target p <+: fs.workingDirectory)
    (hr : fs.Replaceable p) (hp : p.isDedicated = true) (d : Documents) :
    (∃ fs', d.replace p fs = (.ok (), fs') ∧ Replaces fs p d.files fs') ∨
      ∃ e fs', d.replace p fs = (.error e, fs') ∧ SameFiles fs fs' := by
  rcases clear_cases hr.named with ⟨e, hc⟩ | ⟨hs, hc⟩ | ⟨hs, hc⟩
  · refine .inr ⟨e, fs, ?_, fun _ _ => Iff.rfl⟩
    rw [replace_eq, FileAction.bind_error hc]
  · rcases hm : fs.makeDirectories p with ⟨e | _, fs₂⟩
    · obtain ⟨ha, -⟩ := makeAll_spec ht p.ancestors
      rw [FileSystem.makeDirectories] at hm
      rw [hm] at ha
      refine .inr ⟨e, fs₂, ?_, fun _ _ => ha.file_iff⟩
      rw [replace_eq, FileAction.bind_ok hc]
      exact FileAction.bind_error hm
    · exact .inl (replace_of_cleared hr hp hc (cleared_self ht (hr.missing hs)) hm)
  · obtain ⟨fs₂, hm⟩ := exists_makeDirectories_without ht hw hs (hr.named hs)
    exact .inl (replace_of_cleared hr hp hc (cleared_without ht hw hs) hm)

theorem writeTo_all_or_nothing (ht : fs.IsTree) (hw : ¬ fs.target p <+: fs.workingDirectory)
    (hr : fs.Replaceable p) (d : Documents) :
    (∃ fs', d.writeTo p fs = (.ok (), fs') ∧ Replaces fs p d.files fs') ∨
      ∃ e fs', d.writeTo p fs = (.error e, fs') ∧ SameFiles fs fs' := by
  by_cases hp : p.isDedicated = true
  · rcases replace_all_or_nothing ht hw hr hp d with ⟨fs', hd, h⟩ | ⟨e, fs', hd, h⟩
    · exact .inl ⟨fs', by simp [Documents.writeTo, hp, hd], h⟩
    · exact .inr ⟨.file e, fs', by simp [Documents.writeTo, hp, hd], h⟩
  · exact .inr ⟨.config (.refusedDirectory p.text), fs, by simp [Documents.writeTo, hp],
      fun _ _ => Iff.rfl⟩

end Replace

/-! ## Runs -/

section Run

variable {c : Config} {t : Renderer} {source : Source} {fs : FileSystem}

theorem generateTo_of_ok (fs : FileSystem) {d : Documents} {report : Report}
    (h : (generate c t source).result = .ok (d, report)) :
    (generateTo c t source fs).1.result = (d.writeTo c.outputDir fs).1.map (fun _ => report) ∧
      (generateTo c t source fs).2 = (d.writeTo c.outputDir fs).2 := by
  simp [generateTo, h]

theorem generateTo_of_error (fs : FileSystem) {e : Failure} (h : (generate c t source).result = .error e) :
    generateTo c t source fs = (⟨(generate c t source).events, .error e⟩, fs) := by
  simp [generateTo, h]

/-- A run that succeeds leaves the documents, and no other file, in the output directory. A run that
fails changes no file. -/
structure AllOrNothing (c : Config) (t : Renderer) (source : Source) (fs : FileSystem) :
    Prop where
  all : ∀ report, (generateTo c t source fs).1.result = .ok report →
    ∃ d, (generate c t source).result = .ok (d, report) ∧
      Replaces fs c.outputDir d.files (generateTo c t source fs).2
  nothing : ∀ e, (generateTo c t source fs).1.result = .error e →
    SameFiles fs (generateTo c t source fs).2

theorem generateTo_all_or_nothing (ht : fs.IsTree)
    (hw : ¬ fs.target c.outputDir <+: fs.workingDirectory) (hr : fs.Replaceable c.outputDir) :
    AllOrNothing c t source fs := by
  rcases hg : (generate c t source).result with e | ⟨d, report⟩
  · have h := generateTo_of_error fs hg
    exact ⟨by simp [h], fun _ _ => by simp [h, SameFiles]⟩
  · obtain ⟨hres, hfs⟩ := generateTo_of_ok fs hg
    rcases writeTo_all_or_nothing ht hw hr d with ⟨fs', hd, h⟩ | ⟨e, fs', hd, h⟩
    · rw [hd] at hres hfs
      refine ⟨fun r hr => ⟨d, ?_, hfs ▸ h⟩, fun _ he => ?_⟩
      · obtain rfl : report = r := by simpa [hres, Except.map] using hr
        exact hg
      · simp [hres, Except.map] at he
    · rw [hd] at hres hfs
      refine ⟨fun _ hr => ?_, fun _ _ => hfs ▸ h⟩
      simp [hres, Except.map] at hr

/-- If a directory is not given by its name, it is emptied and then cannot be removed. -/
theorem generateTo_of_not_named (fs : FileSystem) {d : Documents} {report : Report}
    (hg : (generate c t source).result = .ok (d, report)) (hp : c.outputDir.isDedicated = true)
    (hs : fs.status c.outputDir = .ok .directory) (hn : endsInName c.outputDir = false) :
    (generateTo c t source fs).1.result = .error (.file .invalidPath) ∧
      ∀ l, isBelow (fs.target c.outputDir) l = true →
        (generateTo c t source fs).2.entryAt? l = none := by
  obtain ⟨hres, hfs⟩ := generateTo_of_ok fs hg
  have hh : FileAction.holds c.outputDir fs = (.ok true, fs) := by
    simp [FileAction.holds, FileSystem.holds, hs]
  have hl := (status_eq_directory_iff.mp hs).1
  have hc : clear c.outputDir fs =
      (.error .invalidPath, fs.removeWhere (isBelow (fs.target c.outputDir))) := by
    refine (FileAction.bind_ok hh).trans ?_
    simp [FileAction.removeTree, FileSystem.removeTree, hs, hl, hn]
  have hw : d.writeTo c.outputDir fs =
      (.error (.file .invalidPath), fs.removeWhere (isBelow (fs.target c.outputDir))) := by
    simp [Documents.writeTo, hp, replace_eq, FileAction.bind_error hc]
  refine ⟨by simp [hres, hw, Except.map], fun l hb => ?_⟩
  have hl : l ≠ [] := by
    rintro rfl
    simp [isBelow] at hb
  rw [hfs, hw, entryAt?_removeWhere fs _ hl, if_pos hb]

/-- A working directory with a file and an output directory from an earlier run. -/
def sampleFiles : FileSystem where
  entries := [(["w"], .directory), (["w", "api.ts"], .file "a"), (["w", "dist"], .directory),
    (["w", "dist", "stale.ts"], .file "b")]
  workingDirectory := ["w"]

theorem isTree_sampleFiles : sampleFiles.IsTree :=
  isTree_of_entries (by decide) (by decide)

def outputConfig (dir : String) : Config := { Config.default with outputDir := ⟨dir⟩ }

theorem sample_all_or_nothing :
    (generateTo (outputConfig "dist") .builtIn sampleSource sampleFiles).1.result.isOk = true ∧
      AllOrNothing (outputConfig "dist") .builtIn sampleSource sampleFiles :=
  ⟨by decide +kernel, generateTo_all_or_nothing isTree_sampleFiles (by decide)
    (replaceable_of_descends isTree_sampleFiles (by decide) (by decide))⟩

/-- A failure that loses a file, for a path with a dot at its end. -/
theorem exists_failure_without_files :
    ¬ ∀ c t source fs, fs.IsTree → ¬ fs.target c.outputDir <+: fs.workingDirectory →
      AllOrNothing c t source fs := by
  intro h
  have h := h (outputConfig "dist/.") .builtIn sampleSource sampleFiles isTree_sampleFiles
    (by decide)
  obtain ⟨d, report, hg⟩ := generate_sampleSource
  obtain ⟨he, hn⟩ := generateTo_of_not_named sampleFiles (c := outputConfig "dist/.") hg
    (by decide) (by decide) (by decide)
  have hs := h.nothing _ he ["w", "dist", "stale.ts"] "b"
  rw [hn _ (by decide)] at hs
  exact absurd (hs.mpr (by decide)) (by simp)

end Run

end ApiTypings
