import Mathlib
import ApiTypings.Proofs.File.Alike

/-! # What changes leave alone

A change that makes directories and writes files touches the locations of these and no other. It
removes nothing, so a chain of such changes touches at most what its links touch.
-/

namespace ApiTypings

namespace FileSystem

variable {fs fs' fs₁ fs₂ : FileSystem} {p : Path} {text : String} {l : Location}

/-- New directories stand at some locations, and files were written at others. Every other entry is
as it was. -/
structure Touches (dirs files : Set Location) (fs fs' : FileSystem) : Prop where
  workingDirectory : fs'.workingDirectory = fs.workingDirectory
  entry : ∀ l, fs'.entryAt? l = fs.entryAt? l ∨
    l ∈ dirs ∧ fs.entryAt? l = none ∧ fs'.entryAt? l = some .directory ∨
    l ∈ files ∧ fs.entryAt? l ≠ some .directory ∧ ∃ text, fs'.entryAt? l = some (.file text)

namespace Touches

variable {dirs dirs' files files' : Set Location}

theorem refl (dirs files : Set Location) (fs : FileSystem) : Touches dirs files fs fs :=
  ⟨rfl, fun _ => .inl rfl⟩

theorem mono (h : Touches dirs files fs fs') (hd : dirs ⊆ dirs') (hf : files ⊆ files') :
    Touches dirs' files' fs fs' :=
  ⟨h.workingDirectory, fun l => (h.entry l).imp_right
    (Or.imp (fun ⟨hl, hn⟩ => ⟨hd hl, hn⟩) fun ⟨hl, hn⟩ => ⟨hf hl, hn⟩)⟩

theorem trans (h : Touches dirs files fs fs₁) (h' : Touches dirs files fs₁ fs₂) :
    Touches dirs files fs fs₂ where
  workingDirectory := h'.workingDirectory.trans h.workingDirectory
  entry l := by
    rcases h'.entry l with he' | ⟨hl, hn, he'⟩ | ⟨hl, hn, he'⟩
    · rw [he']
      exact h.entry l
    · rcases h.entry l with he | ⟨-, -, he⟩ | ⟨-, -, _, he⟩
      · exact .inr (.inl ⟨hl, he ▸ hn, he'⟩)
      · simp [he] at hn
      · simp [he] at hn
    · rcases h.entry l with he | ⟨-, -, he⟩ | ⟨-, hd, -⟩
      · exact .inr (.inr ⟨hl, he ▸ hn, he'⟩)
      · exact absurd he hn
      · exact .inr (.inr ⟨hl, hd, he'⟩)

theorem keeps (h : Touches dirs files fs fs') : fs.Keeps fs' where
  workingDirectory := h.workingDirectory
  directory l hl := by
    rcases h.entry l with he | ⟨-, hn, -⟩ | ⟨-, hn, -⟩
    · rw [he, hl]
    · simp [hl] at hn
    · exact absurd hl hn

theorem entry_eq (h : Touches dirs files fs fs') (hd : l ∉ dirs) (hf : l ∉ files) :
    fs'.entryAt? l = fs.entryAt? l := by
  rcases h.entry l with he | ⟨hl, -⟩ | ⟨hl, -⟩
  · exact he
  · exact absurd hl hd
  · exact absurd hl hf

end Touches

theorem Adds.touches {dirs : Set Location} (h : Adds dirs fs fs') (files : Set Location) :
    Touches dirs files fs fs' :=
  ⟨h.workingDirectory, fun l => (h.entry l).imp_right .inl⟩

/-- Directories are not taken back, so nothing has changed in the end only if nothing changed on the
way. -/
theorem Adds.agrees_iff {dirs files : Set Location} (h : Adds dirs fs fs₁)
    (ht : Touches ∅ files fs₁ fs₂) : fs.Agrees fs₂ ↔ fs.Agrees fs₁ ∧ fs₁.Agrees fs₂ := by
  refine ⟨fun ha => ?_, fun ⟨h₁, h₂⟩ => h₁.trans h₂⟩
  have h₁ : fs.Agrees fs₁ := by
    refine ⟨h.workingDirectory, fun l => ?_⟩
    rcases h.entry l with he | ⟨-, hn, he⟩
    · exact he
    · have hd := ht.keeps.directory l he
      rw [ha.entry, hn] at hd
      cases hd
  exact ⟨h₁, h₁.symm.trans ha⟩

theorem touches_of_write (h : fs.write p text = .ok fs') : Touches ∅ {fs.target p} fs fs' := by
  obtain ⟨-, -, -, he, -, rfl⟩ := write_eq_ok_iff.mp h
  refine ⟨rfl, fun l => ?_⟩
  rw [entryAt?_put_of_ne he]
  split_ifs with hl
  · exact .inr (.inr ⟨hl, hl ▸ he, text, rfl⟩)
  · exact .inl rfl

/-! ## Writing files -/

/-- A file can be written at a path unless a directory stands there. -/
structure Writable (fs : FileSystem) (p : Path) : Prop where
  locate : fs.locate p = .ok (fs.target p)
  endsInSlash : p.endsInSlash = false
  endsInName : endsInName p = true
  parent : fs.entryAt? (fs.target p).dropLast = some .directory

theorem Writable.keeps (h : fs.Writable p) (hk : fs.Keeps fs') : fs'.Writable p := by
  have ht := target_congr hk.workingDirectory p
  exact ⟨ht ▸ hk.locate h.locate, h.endsInSlash, h.endsInName, hk.directory _ (ht ▸ h.parent)⟩

theorem Writable.write_eq_ok (h : fs.Writable p) (hd : fs.entryAt? (fs.target p) ≠ some .directory)
    (text : String) : fs.write p text = .ok (fs.put (fs.target p) (.file text)) :=
  write_eq_ok_iff.mpr ⟨h.locate, h.endsInSlash, h.endsInName, hd, h.parent, rfl⟩

theorem Writable.write_eq_error (h : fs.Writable p)
    (hd : fs.entryAt? (fs.target p) = some .directory) (text : String) :
    fs.write p text = .error .isDirectory := by
  simp [FileSystem.write, h.locate, h.endsInSlash, h.endsInName, hd]

/-- No directory stands where a file is to be written. -/
def isFree (fs : FileSystem) (x : Path × String) : Bool :=
  fs.entryAt? (fs.target x.1) != some .directory

theorem isFree_iff {x : Path × String} :
    fs.isFree x = true ↔ fs.entryAt? (fs.target x.1) ≠ some .directory := by
  simp [isFree]

theorem Agrees.isFree_eq (h : fs.Agrees fs') : fs'.isFree = fs.isFree := by
  funext x
  rw [isFree, isFree, target_congr h.workingDirectory, h.entry]

/-- Writing a file neither frees a place nor takes one. -/
theorem isFree_of_write (h : fs.write p text = .ok fs') : fs'.isFree = fs.isFree := by
  funext x
  have hk := keeps_of_write h
  have ht := touches_of_write h
  rw [isFree, isFree, target_congr hk.workingDirectory]
  rcases ht.entry (fs.target x.1) with he | ⟨hl, -⟩ | ⟨-, hn, _, he⟩
  · rw [he]
  · cases hl
  · rw [he, bne_iff_ne.mpr hn, bne_iff_ne.mpr (by simp)]

end FileSystem

namespace FileAction

open FileSystem

variable {fs fs' fs₁ : FileSystem} {files : List (Path × String)} {l : Location}

def writeEach : List (Path × String) → FileAction Unit
  | [] => pure ()
  | (p, text) :: files => do
    write p text
    writeEach files

theorem writeEach_cons_of_ok {x : Path × String} (h : fs.write x.1 x.2 = .ok fs₁) :
    writeEach (x :: files) fs = writeEach files fs₁ :=
  bind_ok (write_eq_ok_iff.mpr h)

theorem writeEach_cons_of_error {x : Path × String} {e : FileError}
    (h : fs.write x.1 x.2 = .error e) : writeEach (x :: files) fs = (.error e, fs) :=
  bind_error (by simp [write, h])

theorem touches_writeEach (fs : FileSystem) (files : List (Path × String)) :
    Touches ∅ {l | ∃ x ∈ files, l = fs.target x.1} fs (writeEach files fs).2 := by
  induction files generalizing fs with
  | nil => exact .refl _ _ fs
  | cons x files ih =>
    cases h : fs.write x.1 x.2 with
    | error e =>
      rw [writeEach_cons_of_error h]
      exact .refl _ _ fs
    | ok fs₁ =>
      rw [writeEach_cons_of_ok h]
      have ht := touches_of_write h
      refine (ht.mono subset_rfl ?_).trans ((ih fs₁).mono subset_rfl ?_)
      · rintro l rfl
        exact ⟨x, List.mem_cons_self, rfl⟩
      · rintro l ⟨y, hy, rfl⟩
        exact ⟨y, List.mem_cons_of_mem x hy, target_congr ht.workingDirectory y.1⟩

/-- The files up to the first place that is taken are written, and no others. -/
theorem exists_writeEach_takeWhile (hw : ∀ x ∈ files, fs.Writable x.1) :
    ∃ fs', writeEach (files.takeWhile fs.isFree) fs = (.ok (), fs') ∧
      writeEach files fs =
        (if ∀ x ∈ files, fs.isFree x then .ok () else .error .isDirectory, fs') := by
  induction files generalizing fs with
  | nil => exact ⟨fs, rfl, by rw [if_pos (by simp)]; rfl⟩
  | cons x files ih =>
    obtain ⟨hx, hw⟩ := List.forall_mem_cons.mp hw
    by_cases hf : fs.isFree x = true
    · have h := hx.write_eq_ok (isFree_iff.mp hf) x.2
      have hk := isFree_of_write h
      obtain ⟨fs', h₁, h₂⟩ := ih fun y hy => (hw y hy).keeps (keeps_of_write h)
      refine ⟨fs', ?_, ?_⟩
      · rw [List.takeWhile_cons_of_pos hf, writeEach_cons_of_ok h, ← hk, h₁]
      · rw [writeEach_cons_of_ok h, h₂]
        simp only [hk, List.forall_mem_cons, hf, true_and]
    · have h := hx.write_eq_error (by simpa [isFree] using hf) x.2
      refine ⟨fs, ?_, ?_⟩
      · rw [List.takeWhile_cons_of_neg hf]
        rfl
      · rw [writeEach_cons_of_error h, if_neg fun ha => hf (ha x List.mem_cons_self)]

theorem entry_of_writeEach (h : writeEach files fs = (.ok (), fs'))
    (hf : ∀ x ∈ files, ∀ y ∈ files, fs.target x.1 = fs.target y.1 → x.2 = y.2) :
    ∀ x ∈ files, fs'.entryAt? (fs.target x.1) = some (.file x.2) := by
  induction files generalizing fs with
  | nil => simp
  | cons x files ih =>
    obtain ⟨_, fs₁, hw, h⟩ := bind_eq_ok_iff.mp h
    have hw := write_eq_ok_iff.mp hw
    have ht := target_congr (keeps_of_write hw).workingDirectory
    have ih := ih h fun y hy z hz => by
      simpa only [ht] using hf y (List.mem_cons_of_mem x hy) z (List.mem_cons_of_mem x hz)
    simp only [ht] at ih
    refine List.forall_mem_cons.mpr ⟨?_, ih⟩
    -- A file with the same location among the others is written later, with the same text.
    by_cases hx : ∃ y ∈ files, fs.target x.1 = fs.target y.1
    · obtain ⟨y, hy, he⟩ := hx
      rw [he, ih y hy, hf x List.mem_cons_self y (List.mem_cons_of_mem x hy) he]
    · have hn := (touches_writeEach fs₁ files).entry_eq (l := fs.target x.1) (Set.notMem_empty _)
        fun ⟨y, hy, he⟩ => hx ⟨y, hy, he.trans (ht y.1)⟩
      rw [h] at hn
      obtain ⟨-, -, -, he, -, rfl⟩ := FileSystem.write_eq_ok_iff.mp hw
      rw [hn, entryAt?_put_of_ne he, if_pos rfl]

theorem agrees_writeEach_iff (hw : ∀ x ∈ files, fs.Writable x.1)
    (hf : ∀ x ∈ files, ∀ y ∈ files, fs.target x.1 = fs.target y.1 → x.2 = y.2) :
    fs.Agrees (writeEach files fs).2 ↔
      ∀ x ∈ files.takeWhile fs.isFree, fs.entryAt? (fs.target x.1) = some (.file x.2) := by
  obtain ⟨fs', h₁, h₂⟩ := exists_writeEach_takeWhile hw
  have ht := touches_writeEach fs (files.takeWhile fs.isFree)
  have hm : ∀ x ∈ files.takeWhile fs.isFree, x ∈ files := fun x hx =>
    (List.takeWhile_prefix fs.isFree).subset hx
  have he := entry_of_writeEach h₁ fun x hx y hy => hf x (hm x hx) y (hm y hy)
  rw [h₁] at ht
  rw [h₂]
  constructor
  · intro ha x hx
    rw [← ha.entry, he x hx]
  · refine fun hs => ⟨ht.workingDirectory, fun l => ?_⟩
    by_cases hl : ∃ x ∈ files.takeWhile fs.isFree, l = fs.target x.1
    · obtain ⟨x, hx, rfl⟩ := hl
      rw [hs x hx, he x hx]
    · exact ht.entry_eq (Set.notMem_empty l) hl

end FileAction

end ApiTypings
