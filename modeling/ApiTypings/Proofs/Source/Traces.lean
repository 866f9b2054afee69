import Mathlib
import ApiTypings.Proofs.File.Directories
import ApiTypings.Proofs.Source.Confinement

/-! # What a failed save leaves behind

A save that fails before it writes changes nothing. One that fails while it writes leaves what it
has done up to the obstacle: directories that it has made, and files that it has written. So the
files are as before exactly if there was nothing to do up to there.
-/

namespace ApiTypings

namespace Snapshot

open FileSystem

variable {s : Share} {n : Network} {snapshot : Snapshot} {fs fs' fs₁ : FileSystem} {dir : Path}
  {e : Failure}

/-! ## The places of the files -/

theorem writable_join {p : Path} {name : String} (ht : fs.IsTree)
    (hp : fs.Passes (fs.start p) p.parts) (h₀ : '\x00' ∉ p.text.toList)
    (hn : Path.IsEntryName name) : fs.Writable (p.join name) where
  locate := by
    refine locate_eq_ok_iff.mpr
      ⟨Path.text_join_ne_empty hn, by rwa [Path.null_mem_join_iff hn], ?_, rfl⟩
    rwa [start_join hn, Path.parts_join hn, List.dropLast_concat]
  endsInSlash := Path.endsInSlash_join hn
  endsInName := endsInName_join hn
  parent := by
    rw [target_join hn, List.dropLast_concat]
    exact ht.walk hp (ht.start p)

theorem writable_of_mem_files (ht : fs.IsTree)
    (hs : fs.status (dir.join endpointDir) = .ok .directory)
    (hn : ∀ x ∈ snapshot.endpoints, Path.IsEntryName x.1) :
    ∀ x ∈ snapshot.files dir, fs.Writable x.1 := by
  have h₀ := (locate_eq_ok_iff.mp (status_eq_directory_iff.mp hs).1).2.1
  have hp := passes_of_status hs
  have hp' : fs.Passes (fs.start dir) dir.parts := by
    rw [start_join isEntryName_endpointDir, Path.parts_join isEntryName_endpointDir] at hp
    exact hp.initial (List.prefix_append _ _)
  have h₀' := mt (Path.null_mem_join_iff isEntryName_endpointDir).mpr h₀
  intro x hx
  simp only [files, List.mem_cons, List.mem_map] at hx
  rcases hx with rfl | rfl | ⟨y, hy, rfl⟩
  · exact writable_join ht hp' h₀' isEntryName_schemasFile
  · exact writable_join ht hp' h₀' isEntryName_treeFile
  · exact writable_join ht hp h₀ (hn y hy)

theorem text_eq_of_mem_files (h : (download s n).result = .ok snapshot) :
    ∀ x ∈ snapshot.files dir, ∀ y ∈ snapshot.files dir,
      fs.target x.1 = fs.target y.1 → x.2 = y.2 := by
  have hf : ∀ x ∈ snapshot.endpoints, ∃ id, Saved s n id x :=
    fun x hx => (exists_saved_of_download h hx).imp fun _ h => h.2
  have ht : ∀ x ∈ snapshot.endpoints,
      fs.target (endpointPath dir x.1) = fs.target dir ++ [endpointDir, x.1] := fun x hx =>
    (hf x hx).elim fun _ h => target_endpointPath (isEntryName_of_endpointFile h.name)
  have hs : fs.target (dir.join schemasFile) = _ := target_join isEntryName_schemasFile
  have hr : fs.target (dir.join treeFile) = _ := target_join isEntryName_treeFile
  have hne : schemasFile ≠ treeFile := by decide
  -- Only endpoints can share a file, since the other files have names of their own, one level up.
  intro x hx y hy he
  simp only [files, List.mem_cons, List.mem_map] at hx hy
  rcases hx with rfl | rfl | ⟨x, hx, rfl⟩ <;> rcases hy with rfl | rfl | ⟨y, hy, rfl⟩
  · rfl
  · simp [hs, hr, hne] at he
  · simp [hs, ht y hy] at he
  · simp [hs, hr, hne.symm] at he
  · rfl
  · simp [hr, ht y hy] at he
  · simp [hs, ht x hx] at he
  · simp [hr, ht x hx] at he
  · obtain ⟨id, h⟩ := hf x hx
    obtain ⟨id', h'⟩ := hf y hy
    exact h.text_eq h' (by simpa [ht x hx, ht y hy] using he)

/-! ## Obstacles -/

/-- Why a snapshot cannot be written: the directory of the endpoints cannot be made, or there is a
directory where a file has to be. -/
inductive Obstructs (snapshot : Snapshot) (dir : Path) (fs : FileSystem) : FileError → Prop where
  | directory {x : FileError} : (fs.makeDirectories (dir.join endpointDir)).1 = .error x →
      Obstructs snapshot dir fs x
  | file {y : Path × String} : (fs.makeDirectories (dir.join endpointDir)).1 = .ok () →
      y ∈ snapshot.files dir →
      (fs.makeDirectories (dir.join endpointDir)).2.entryAt? (fs.target y.1) = some .directory →
      Obstructs snapshot dir fs .isDirectory

/-- There is nothing to do up to the obstacle: no directory is made, and the files before the first
one whose place is taken have their texts already. -/
structure Idle (snapshot : Snapshot) (dir : Path) (fs : FileSystem) : Prop where
  directories : fs.Agrees (fs.makeDirectories (dir.join endpointDir)).2
  files : (fs.makeDirectories (dir.join endpointDir)).1 = .ok () →
    ∀ x ∈ (snapshot.files dir).takeWhile fs.isFree,
      fs.entryAt? (fs.target x.1) = some (.file x.2)

theorem obstructs_of_directory {x : FileError}
    (h : fs.makeDirectories (dir.join endpointDir) = (.error x, fs₁)) :
    Obstructs snapshot dir fs x ∧ (fs.Agrees fs₁ ↔ Idle snapshot dir fs) := by
  refine ⟨.directory (by rw [h]), ?_⟩
  constructor
  · intro ha
    exact ⟨by rwa [h], by simp [h]⟩
  · intro hi
    simpa [h] using hi.directories

theorem obstructs_of_file (ht : fs.IsTree) (hd : (download s n).result = .ok snapshot)
    (hm : fs.makeDirectories (dir.join endpointDir) = (.ok (), fs₁)) {x : FileError}
    (h : (FileAction.writeEach (snapshot.files dir) fs₁).1 = .error x) :
    Obstructs snapshot dir fs x ∧
      (fs.Agrees (FileAction.writeEach (snapshot.files dir) fs₁).2 ↔ Idle snapshot dir fs) := by
  have hn : ∀ x ∈ snapshot.endpoints, Path.IsEntryName x.1 := fun x hx =>
    (exists_saved_of_download hd hx).elim fun _ h => isEntryName_of_endpointFile h.2.name
  have ha := adds_of_makeDirectories hm
  have htarget : ∀ p, fs₁.target p = fs.target p := target_congr ha.workingDirectory
  have hs := status_of_makeDirectories (endsInName_join isEntryName_endpointDir) hm
  have hwr := writable_of_mem_files (isTree_of_makeDirectories ht hm) hs hn
  constructor
  · obtain ⟨fs', -, h₂⟩ := FileAction.exists_writeEach_takeWhile hwr
    rw [h₂] at h
    split_ifs at h with hf
    obtain rfl := Except.error.inj h
    simp only [not_forall] at hf
    obtain ⟨y, hy, hf⟩ := hf
    refine .file (by rw [hm]) hy ?_
    rw [hm, ← htarget]
    simpa [isFree] using hf
  · rw [ha.agrees_iff (FileAction.touches_writeEach fs₁ _),
      FileAction.agrees_writeEach_iff hwr (text_eq_of_mem_files hd)]
    simp only [htarget]
    constructor
    · rintro ⟨h₁, h₂⟩
      refine ⟨hm ▸ h₁, fun _ x hx => ?_⟩
      rw [← h₁.entry]
      exact h₂ x (h₁.isFree_eq ▸ hx)
    · rintro ⟨h₁, h₂⟩
      rw [hm] at h₁ h₂
      refine ⟨h₁, fun x hx => ?_⟩
      rw [h₁.entry]
      exact h₂ rfl x (h₁.isFree_eq ▸ hx)

/-- A failure to write a snapshot comes from an obstacle, and leaves a trace unless there was nothing
to do. -/
theorem obstructs_of_write (ht : fs.IsTree) (hd : (download s n).result = .ok snapshot)
    {x : FileError} (h : (snapshot.write dir fs).1 = .error x) :
    Obstructs snapshot dir fs x ∧
      (fs.Agrees (snapshot.write dir fs).2 ↔ Idle snapshot dir fs) := by
  rcases hm : fs.makeDirectories (dir.join endpointDir) with ⟨e | _, fs₁⟩
  · rw [write_of_error snapshot hm] at h ⊢
    obtain rfl := Except.error.inj h
    exact obstructs_of_directory hm
  · rw [write_of_ok snapshot hm] at h ⊢
    exact obstructs_of_file ht hd hm h

inductive FailedSave (s : Share) (n : Network) (dir : Path) (fs : FileSystem) (e : Failure) :
    Prop where
  /-- A document could not be had. Nothing was done. -/
  | download : (download s n).result = .error e → (save s n dir fs).2 = fs → FailedSave s n dir fs e
  /-- The documents could not be written. -/
  | write {snapshot : Snapshot} {x : FileError} : (Snapshot.download s n).result = .ok snapshot →
      e = .file x → Obstructs snapshot dir fs x →
      (fs.Agrees (save s n dir fs).2 ↔ Idle snapshot dir fs) → FailedSave s n dir fs e

/-- A save that fails leaves everything as it was, unless it had all documents, met an obstacle among
the files and had done something by then. -/
theorem failedSave_of_error (ht : fs.IsTree) (h : (save s n dir fs).1.result = .error e) :
    FailedSave s n dir fs e := by
  cases hd : (download s n).result with
  | error e' =>
    have hs := save_of_error dir fs hd
    rw [hs] at h
    obtain rfl := Except.error.inj h
    exact .download hd (by rw [hs])
  | ok snapshot =>
    have hs := save_of_ok dir fs hd
    rw [hs] at h
    cases hw : (snapshot.write dir fs).1 with
    | ok _ => simp [hw] at h
    | error x =>
      obtain ⟨ho, ha⟩ := obstructs_of_write ht hd hw
      exact .write hd (by simpa [hw, eq_comm] using h) ho (by rw [hs]; exact ha)

/-- A directory with the name of a file stands in the way. -/
def obstructedFiles : FileSystem where
  entries := [(["snapshot"], .directory), (["snapshot", "data-schemas.json"], .directory)]
  workingDirectory := []

theorem isTree_obstructedFiles : obstructedFiles.IsTree :=
  isTree_of_entries (by decide) (by decide)

theorem obstructed_save :
    (save sampleShare sampleNetwork ⟨"snapshot"⟩ obstructedFiles).1.result =
        .error (.file .isDirectory) ∧
      FailedSave sampleShare sampleNetwork ⟨"snapshot"⟩ obstructedFiles (.file .isDirectory) := by
  have h : (save sampleShare sampleNetwork ⟨"snapshot"⟩ obstructedFiles).1.result =
      .error (.file .isDirectory) := by
    decide +kernel
  exact ⟨h, failedSave_of_error isTree_obstructedFiles h⟩

/-- The directory of the endpoints is there after the failure and was not before. -/
theorem exists_failed_save_with_trace :
    ¬ ∀ s n dir fs e, fs.IsTree → (save s n dir fs).1.result = .error e →
      fs.Agrees (save s n dir fs).2 := by
  intro h
  have he := (h sampleShare sampleNetwork ⟨"snapshot"⟩ obstructedFiles (.file .isDirectory)
    isTree_obstructedFiles (by decide +kernel)).entry ["snapshot", "http-apis"]
  have hd : (save sampleShare sampleNetwork ⟨"snapshot"⟩ obstructedFiles).2.entryAt?
      ["snapshot", "http-apis"] = some .directory := by
    decide +kernel
  rw [hd] at he
  exact absurd he (by decide)

end Snapshot

end ApiTypings
