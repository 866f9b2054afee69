import Mathlib
import ApiTypings.Proofs.File.Changes

/-! # Looking alike

A lookup depends on whether directories stand where its path passes and on the entry that it leads
to, and on nothing else. A change depends on the entries and not on the order in which they are kept,
so changes of file systems that agree end alike.
-/

namespace ApiTypings

/-- What a lookup sees of an entry that its path passes. -/
def Entry.isFile : Entry → Bool
  | .directory => false
  | .file _ => true

namespace FileSystem

variable {fs fs' fs₁ fs₂ : FileSystem} {p q : Path} {text : String} {ps : List String}
  {l : Location} {e : Entry}

/-! ## Lookups -/

/-- Two file systems that look alike to the lookup of a path. -/
structure Alike (fs fs' : FileSystem) (p : Path) : Prop where
  workingDirectory : fs'.workingDirectory = fs.workingDirectory
  passed : ∀ qs, qs <+: p.parts →
    (fs'.entryAt? (walk (fs.start p) qs)).map Entry.isFile =
      (fs.entryAt? (walk (fs.start p) qs)).map Entry.isFile
  target : fs'.entryAt? (fs.target p) = fs.entryAt? (fs.target p)

theorem follow_congr (h : ∀ qs, qs <+: ps →
    (fs'.entryAt? (walk l qs)).map Entry.isFile = (fs.entryAt? (walk l qs)).map Entry.isFile) :
    fs'.follow l ps = fs.follow l ps := by
  induction ps generalizing l with
  | nil => rfl
  | cons s ps ih =>
    have ih := ih (l := step l s) fun qs hq => h (s :: qs) (List.cons_prefix_cons.mpr ⟨rfl, hq⟩)
    rw [follow, follow]
    by_cases h₁ : s = "."
    · simpa [h₁, step] using ih
    by_cases h₂ : s = ".."
    · simpa [h₂, step] using ih
    have hs := step_name h₁ h₂ l
    have hk := h [s] (by simp)
    rw [walk_cons, walk_nil, hs] at hk
    rw [hs] at ih
    rcases he : fs.entryAt? (l ++ [s]) with _ | _ | _ <;>
      rcases he' : fs'.entryAt? (l ++ [s]) with _ | _ | _ <;>
      simp_all [Entry.isFile]

namespace Alike

variable (h : fs.Alike fs' p)

include h

theorem locate : fs'.locate p = fs.locate p := by
  have hf := follow_congr h.passed
  rw [start] at hf
  rw [FileSystem.locate, FileSystem.locate, h.workingDirectory, hf]

theorem status : fs'.status p = fs.status p := by
  rw [FileSystem.status, FileSystem.status, h.locate]
  cases hl : fs.locate p with
  | error e => rfl
  | ok l =>
    obtain rfl := target_eq_of_locate hl
    simp only [h.target]

theorem read : fs'.read p = fs.read p := by
  rw [FileSystem.read, FileSystem.read, h.status]

theorem holds : fs'.holds p = fs.holds p := by
  rw [FileSystem.holds, FileSystem.holds, h.status]

end Alike

/-- The same directories and files, but for what the files at other locations have in them. -/
structure SameAt (l : Location) (fs fs' : FileSystem) : Prop where
  workingDirectory : fs'.workingDirectory = fs.workingDirectory
  kind : ∀ m, (fs'.entryAt? m).map Entry.isFile = (fs.entryAt? m).map Entry.isFile
  entry : fs'.entryAt? l = fs.entryAt? l

theorem SameAt.alike (h : SameAt (fs.target p) fs fs') : fs.Alike fs' p :=
  ⟨h.workingDirectory, fun _ _ => h.kind _, h.entry⟩

/-! ## Changes -/

/-- The same entries, in whatever order they are kept. -/
structure Agrees (fs fs' : FileSystem) : Prop where
  workingDirectory : fs'.workingDirectory = fs.workingDirectory
  entry : ∀ l, fs'.entryAt? l = fs.entryAt? l

namespace Agrees

theorem symm (h : fs.Agrees fs') : fs'.Agrees fs :=
  ⟨h.workingDirectory.symm, fun l => (h.entry l).symm⟩

theorem trans (h : fs.Agrees fs₁) (h' : fs₁.Agrees fs₂) : fs.Agrees fs₂ :=
  ⟨h'.workingDirectory.trans h.workingDirectory, fun l => (h'.entry l).trans (h.entry l)⟩

theorem alike (h : fs.Agrees fs') (p : Path) : fs.Alike fs' p :=
  ⟨h.workingDirectory, fun _ _ => by rw [h.entry], h.entry _⟩

theorem put (h : fs.Agrees fs') (hl : fs.entryAt? l ≠ some .directory) (e : Entry) :
    (fs.put l e).Agrees (fs'.put l e) where
  workingDirectory := h.workingDirectory
  entry m := by
    rw [entryAt?_put_of_ne hl, entryAt?_put_of_ne (by rwa [h.entry]), h.entry]

end Agrees

/-- A change ends alike: with one failure, or with file systems that agree. -/
inductive AgreeOn : Except FileError FileSystem → Except FileError FileSystem → Prop where
  | ok {fs fs' : FileSystem} : fs.Agrees fs' → AgreeOn (.ok fs) (.ok fs')
  | error (e : FileError) : AgreeOn (.error e) (.error e)

namespace Agrees

variable (h : fs.Agrees fs')

include h

theorem create (hl : fs.entryAt? l ≠ some .directory) (e : Entry) :
    AgreeOn (fs.create l e) (fs'.create l e) := by
  unfold FileSystem.create
  rw [h.entry]
  split_ifs
  · exact .ok (h.put hl e)
  · exact .error _

theorem write (p : Path) (text : String) : AgreeOn (fs.write p text) (fs'.write p text) := by
  rw [FileSystem.write, FileSystem.write, (h.alike p).locate]
  cases fs.locate p with
  | error e => exact .error e
  | ok l =>
    simp only [h.entry]
    split_ifs
    · exact .error _
    · rcases hl : fs.entryAt? l with _ | _ | _
      · exact h.create (by simp [hl]) _
      · exact .error _
      · exact h.create (by simp [hl]) _

theorem makeDirectory (p : Path) : AgreeOn (fs.makeDirectory p) (fs'.makeDirectory p) := by
  rw [FileSystem.makeDirectory, FileSystem.makeDirectory, (h.alike p).locate]
  cases fs.locate p with
  | error e => exact .error e
  | ok l =>
    simp only [h.entry]
    split_ifs with hl
    · exact .error _
    · refine h.create ?_ _
      rintro he
      simp [he] at hl

theorem makeOrKeep (p : Path) : AgreeOn (fs.makeOrKeep p) (fs'.makeOrKeep p) := by
  have hm := h.makeDirectory p
  have hd : fs'.isDirectory p = fs.isDirectory p := by
    rw [isDirectory, isDirectory, (h.alike p).status]
  rw [FileSystem.makeOrKeep, FileSystem.makeOrKeep]
  generalize fs.makeDirectory p = x at hm ⊢
  generalize fs'.makeDirectory p = y at hm ⊢
  cases hm with
  | ok h₁ => exact .ok h₁
  | error e =>
    cases e
    case alreadyExists =>
      simp only [hd]
      split_ifs
      · exact .ok h
      · exact .error _
    all_goals exact .error _

end Agrees

end FileSystem

/-! ## Sequences of changes -/

namespace FileAction

open FileSystem

variable {α β : Type} {x : FileAction α} {f : α → FileAction β}

/-- Changes of file systems that agree have one result and leave file systems that agree. -/
def Respects (x : FileAction α) : Prop :=
  ∀ fs fs', fs.Agrees fs' → (x fs').1 = (x fs).1 ∧ (x fs).2.Agrees (x fs').2

theorem Respects.bind (hx : x.Respects) (hf : ∀ a, (f a).Respects) : (x >>= f).Respects := by
  intro fs fs' h
  obtain ⟨h₁, h₂⟩ := hx fs fs' h
  rcases hr : x fs with ⟨e | a, fs₁⟩ <;> rcases hr' : x fs' with ⟨e' | a', fs₁'⟩ <;>
    rw [hr, hr'] at h₁ h₂
  · rw [bind_error hr, bind_error hr']
    exact ⟨by simpa using h₁, h₂⟩
  · cases h₁
  · cases h₁
  · obtain rfl := Except.ok.inj h₁
    rw [bind_ok hr, bind_ok hr']
    exact hf a' fs₁ fs₁' h₂

theorem respects_pure (a : α) : (pure a : FileAction α).Respects := fun _ _ h => ⟨rfl, h⟩

theorem respects_write (p : Path) (text : String) : (write p text).Respects := by
  intro fs fs' h
  have hw := h.write p text
  unfold write
  generalize fs.write p text = x at hw ⊢
  generalize fs'.write p text = y at hw ⊢
  cases hw with
  | ok h₁ => exact ⟨rfl, h₁⟩
  | error e => exact ⟨rfl, h⟩

theorem respects_makeAll (ps : List Path) :
    Respects fun fs => fs.makeAll ps := by
  induction ps with
  | nil => exact fun _ _ h => ⟨rfl, h⟩
  | cons p ps ih =>
    intro fs fs' h
    have hm := h.makeOrKeep p
    simp only [makeAll]
    generalize fs.makeOrKeep p = x at hm ⊢
    generalize fs'.makeOrKeep p = y at hm ⊢
    cases hm with
    | ok h₁ => exact ⟨rfl, h₁⟩
    | error e =>
      cases e
      case notFound =>
        -- The directories outside are made first; what they leave agrees as well.
        obtain ⟨h₁, h₂⟩ := ih fs fs' h
        rcases hq : fs.makeAll ps with ⟨_ | _, fs₁⟩ <;>
          rcases hq' : fs'.makeAll ps with ⟨_ | _, fs₁'⟩ <;> simp only [hq, hq'] at h₁ h₂ ⊢
        · exact ⟨by simpa using h₁, h₂⟩
        · cases h₁
        · cases h₁
        · have hm := h₂.makeOrKeep p
          generalize fs₁.makeOrKeep p = x at hm ⊢
          generalize fs₁'.makeOrKeep p = y at hm ⊢
          cases hm with
          | ok h₃ => exact ⟨rfl, h₃⟩
          | error e => exact ⟨rfl, h₂⟩
      all_goals exact ⟨rfl, h⟩

theorem respects_makeDirectories (p : Path) : (makeDirectories p).Respects :=
  respects_makeAll p.ancestors

theorem Respects.of_ok (hx : x.Respects) {fs fs' fs₁ : FileSystem} {a : α} (h : fs.Agrees fs')
    (hr : x fs = (.ok a, fs₁)) : ∃ fs₁', x fs' = (.ok a, fs₁') ∧ fs₁.Agrees fs₁' := by
  obtain ⟨h₁, h₂⟩ := hx fs fs' h
  rw [hr] at h₁ h₂
  exact ⟨(x fs').2, Prod.ext h₁ rfl, h₂⟩

end FileAction

end ApiTypings
