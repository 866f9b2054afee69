import Mathlib
import ApiTypings.File.System
import ApiTypings.Proofs.Text.Pieces

/-! # Looking paths up

There are no links, so the text of a path alone tells which location it leads to. Whether a lookup
gets there depends on the directories that the path passes through. A lookup that succeeds keeps
its outcome as long as no directory is lost.
-/

namespace ApiTypings

/-! ## Parts of paths -/

namespace Path

structure IsEntryName (s : String) : Prop where
  not_empty : s ≠ ""
  no_slash : '/' ∉ s.toList
  no_null : '\x00' ∉ s.toList
  not_here : s ≠ "."
  not_up : s ≠ ".."

variable {p : Path} {s name : String}

/-- The parts of a text: what stands between slashes, if anything does. -/
def partsOf (cs : List Char) : List String :=
  ((cs.splitOn '/').filter fun s => !s.isEmpty).map String.ofList

theorem parts_eq (p : Path) : p.parts = partsOf p.text.toList := rfl

theorem partsOf_append_slash (cs ds : List Char) :
    partsOf (cs ++ '/' :: ds) = partsOf cs ++ partsOf ds := by
  simp [partsOf, List.splitOn_append_cons_self]

theorem partsOf_eq_singleton {cs : List Char} (hc : cs ≠ []) (hs : '/' ∉ cs) :
    partsOf cs = [String.ofList cs] := by
  simp [partsOf, List.splitOn_eq_singleton hs, hc]

theorem mem_splitOn {c : Char} {cs ds : List Char} (h : ds ∈ cs.splitOn c) : c ∉ ds ∧ ds ⊆ cs := by
  rw [List.splitOn_eq_splitOnP] at h
  obtain ⟨hc, hs⟩ := Text.mem_splitOnP h
  exact ⟨fun hm => by simpa using hc c hm, hs⟩

theorem mem_parts (h : s ∈ p.parts) :
    s ≠ "" ∧ '/' ∉ s.toList ∧ s.toList ⊆ p.text.toList := by
  obtain ⟨cs, hc, rfl⟩ := List.mem_map.mp h
  obtain ⟨hm, he⟩ := List.mem_filter.mp hc
  rw [String.toList_ofList]
  exact ⟨by simpa using he, mem_splitOn hm⟩

theorem exists_of_endsInSlash (h : p.endsInSlash = true) : ∃ cs, p.text.toList = cs ++ ['/'] := by
  obtain ⟨cs, hc⟩ := List.getLast?_eq_some_iff.mp (by simpa [endsInSlash] using h)
  exact ⟨cs, hc⟩

section Join

theorem parts_join (h : IsEntryName name) : (p.join name).parts = p.parts ++ [name] := by
  have hn : partsOf name.toList = [name] := by
    rw [partsOf_eq_singleton (by simpa using h.not_empty) h.no_slash, String.ofList_toList]
  unfold join
  split_ifs with he hs
  · have : p.text = "" := by simpa using he
    rw [parts_eq, parts_eq, this, hn]
    rfl
  · obtain ⟨cs, hc⟩ := exists_of_endsInSlash hs
    have hp : (p.text ++ name).toList = cs ++ '/' :: name.toList := by simp [hc]
    rw [parts_eq, parts_eq, hp, hc, partsOf_append_slash, partsOf_append_slash, hn]
    simp [partsOf]
  · have hp : (p.text ++ "/" ++ name).toList = p.text.toList ++ '/' :: name.toList := by simp
    rw [parts_eq, parts_eq, hp, partsOf_append_slash, hn]

theorem isAbsolute_join (h : IsEntryName name) : (p.join name).isAbsolute = p.isAbsolute := by
  have hh : name.toList.head? ≠ some '/' := fun hh =>
    h.no_slash (List.mem_of_mem_head? (by simp [hh]))
  unfold join
  split_ifs with he hs
  · have : p.text = "" := by simpa using he
    simp [isAbsolute, this, hh]
  · have : p.text.toList ≠ [] := by simpa using he
    simp [isAbsolute, List.head?_append_of_ne_nil _ this]
  · have : p.text.toList ≠ [] := by simpa using he
    simp [isAbsolute, List.head?_append_of_ne_nil _ this]

theorem exists_toList_join (p : Path) (name : String) :
    ∃ cs, (p.join name).text.toList = cs ++ name.toList := by
  unfold join
  split_ifs
  · exact ⟨[], rfl⟩
  · exact ⟨p.text.toList, by simp⟩
  · exact ⟨p.text.toList ++ ['/'], by simp⟩

theorem endsInSlash_join (h : IsEntryName name) : (p.join name).endsInSlash = false := by
  have hn : name.toList ≠ [] := by simpa using h.not_empty
  have hl : name.toList.getLast? ≠ some '/' := fun hl =>
    h.no_slash (List.mem_of_getLast? hl)
  obtain ⟨cs, hc⟩ := exists_toList_join p name
  simp [endsInSlash, hc, List.getLast?_append_of_ne_nil _ hn, hl]

theorem text_join_ne_empty (h : IsEntryName name) : (p.join name).text ≠ "" := by
  obtain ⟨cs, hc⟩ := exists_toList_join p name
  intro he
  simp [he, h.not_empty] at hc

theorem null_mem_join_iff (h : IsEntryName name) :
    '\x00' ∈ (p.join name).text.toList ↔ '\x00' ∈ p.text.toList := by
  unfold join
  split_ifs with he hs
  · have : p.text = "" := by simpa using he
    simp [this, h.no_null]
  · simp [h.no_null]
  · simp [h.no_null]

end Join

theorem getLast?_parts_join (h : IsEntryName name) :
    (p.join name).parts.getLast? = some name := by
  rw [parts_join h, List.getLast?_concat]

end Path

namespace FileSystem

variable {fs fs' : FileSystem} {p : Path} {s name : String} {ps : List String} {l m : Location}

/-! ## Places -/

def step (l : Location) (s : String) : Location :=
  if s = "." then l else if s = ".." then l.dropLast else l ++ [s]

/-- The location that parts lead to, whatever stands there. -/
def walk (l : Location) (ps : List String) : Location := ps.foldl step l

def start (fs : FileSystem) (p : Path) : Location :=
  if p.isAbsolute then [] else fs.workingDirectory

def target (fs : FileSystem) (p : Path) : Location := walk (fs.start p) p.parts

@[simp] theorem walk_nil (l : Location) : walk l [] = l := rfl

@[simp] theorem walk_cons (l : Location) (s : String) (ps : List String) :
    walk l (s :: ps) = walk (step l s) ps := rfl

@[simp] theorem walk_append (l : Location) (ps qs : List String) :
    walk l (ps ++ qs) = walk (walk l ps) qs := List.foldl_append

theorem step_name (h₁ : s ≠ ".") (h₂ : s ≠ "..") (l : Location) : step l s = l ++ [s] := by
  simp [step, h₁, h₂]

theorem prefix_walk (h : ".." ∉ ps) (l : Location) : l <+: walk l ps := by
  induction ps generalizing l with
  | nil => exact List.prefix_refl l
  | cons s ps ih =>
    obtain ⟨hs, h⟩ : s ≠ ".." ∧ ".." ∉ ps := by simpa [eq_comm] using h
    refine List.IsPrefix.trans ?_ (ih h (step l s))
    by_cases h₁ : s = "."
    · simp [step, h₁]
    · simp [step_name h₁ hs]

theorem start_join (h : Path.IsEntryName name) : fs.start (p.join name) = fs.start p := by
  rw [start, start, Path.isAbsolute_join h]

theorem target_join (h : Path.IsEntryName name) :
    fs.target (p.join name) = fs.target p ++ [name] := by
  rw [target, target, start_join h, Path.parts_join h, walk_append, walk_cons, walk_nil,
    step_name h.not_here h.not_up]

theorem start_congr (h : fs'.workingDirectory = fs.workingDirectory) (p : Path) :
    fs'.start p = fs.start p := by
  rw [start, start, h]

theorem target_congr (h : fs'.workingDirectory = fs.workingDirectory) (p : Path) :
    fs'.target p = fs.target p := by
  rw [target, target, start_congr h]

/-! ## Lookups -/

/-- Parts can be passed if every name among them is that of a directory. -/
def Passes (fs : FileSystem) (l : Location) : List String → Prop
  | [] => True
  | s :: rest =>
    (s ≠ "." → s ≠ ".." → fs.entryAt? (l ++ [s]) = some .directory) ∧ fs.Passes (step l s) rest

theorem passes_append {qs : List String} :
    fs.Passes l (ps ++ qs) ↔ fs.Passes l ps ∧ fs.Passes (walk l ps) qs := by
  induction ps generalizing l with
  | nil => simp [Passes]
  | cons s ps ih => simp only [List.cons_append, Passes, ih, walk_cons, and_assoc]

theorem Passes.initial {qs : List String} (h : fs.Passes l ps) (hq : qs <+: ps) :
    fs.Passes l qs := by
  obtain ⟨rs, rfl⟩ := hq
  exact (passes_append.mp h).1

theorem follow_append_singleton_eq_ok_iff :
    fs.follow l (ps ++ [s]) = .ok m ↔ fs.Passes l ps ∧ m = walk l (ps ++ [s]) := by
  induction ps generalizing l with
  | nil =>
    simp only [List.nil_append, follow, Passes, walk_cons, walk_nil, step, true_and]
    split_ifs <;> simp_all [eq_comm]
  | cons t ps ih =>
    have hne : (ps ++ [s]).isEmpty = false := by simp
    rw [List.cons_append, follow, hne, Passes, walk_cons]
    by_cases ht : t = "."
    · simp [ht, step, ih]
    by_cases hu : t = ".."
    · simp [hu, step, ih]
    cases he : fs.entryAt? (l ++ [t]) with
    | none => simp [ht, hu]
    | some e =>
      cases e with
      | directory => simp [ht, hu, step, ih]
      | file _ => simp [ht, hu]

theorem locate_eq_ok_iff :
    fs.locate p = .ok l ↔ p.text ≠ "" ∧ '\x00' ∉ p.text.toList ∧
      fs.Passes (fs.start p) p.parts.dropLast ∧ l = fs.target p := by
  have hf : fs.follow (fs.start p) p.parts = .ok l ↔
      fs.Passes (fs.start p) p.parts.dropLast ∧ l = fs.target p := by
    rcases List.eq_nil_or_concat p.parts with hp | ⟨ps, s, hp⟩
    · simp [target, hp, follow, Passes, eq_comm]
    · rw [target, hp, List.concat_eq_append, follow_append_singleton_eq_ok_iff,
        List.dropLast_concat]
  rw [← hf, locate]
  change (if _ then _ else if _ then _ else fs.follow (fs.start p) p.parts) = _ ↔ _
  by_cases he : p.text = ""
  · simp [he]
  · by_cases hn : '\x00' ∈ p.text.toList <;> simp [he, hn]

theorem target_eq_of_locate (h : fs.locate p = .ok l) : fs.target p = l :=
  (locate_eq_ok_iff.mp h).2.2.2.symm

/-- A path with a slash at its end finds directories only. -/
theorem status_eq_ok_iff {e : Entry} :
    fs.status p = .ok e ↔ fs.locate p = .ok (fs.target p) ∧
      fs.entryAt? (fs.target p) = some e ∧ (p.endsInSlash = true → e = .directory) := by
  rw [status]
  cases hl : fs.locate p with
  | error _ => simp
  | ok l =>
    rw [target_eq_of_locate hl]
    cases he : fs.entryAt? l with
    | none => simp [he]
    | some e' =>
      cases e' with
      | directory => cases e <;> simp [he]
      | file t => cases hs : p.endsInSlash <;> cases e <;> simp [he]

theorem status_eq_directory_iff :
    fs.status p = .ok .directory ↔
      fs.locate p = .ok (fs.target p) ∧ fs.entryAt? (fs.target p) = some .directory := by
  simp [status_eq_ok_iff]

theorem isDirectory_iff : fs.isDirectory p = true ↔ fs.status p = .ok .directory := by
  unfold isDirectory
  split <;> simp_all

theorem read_eq_ok_iff {text : String} : fs.read p = .ok text ↔ fs.status p = .ok (.file text) := by
  rw [read]
  split <;> simp_all

theorem passes_of_status (h : fs.status p = .ok .directory) : fs.Passes (fs.start p) p.parts := by
  obtain ⟨hl, hd⟩ := status_eq_directory_iff.mp h
  obtain ⟨-, -, hp, -⟩ := locate_eq_ok_iff.mp hl
  rcases List.eq_nil_or_concat p.parts with hn | ⟨ps, s, hc⟩
  · rw [hn]
    trivial
  · rw [List.concat_eq_append] at hc
    rw [hc, List.dropLast_concat] at hp
    rw [hc, passes_append]
    refine ⟨hp, fun h₁ h₂ => ?_, trivial⟩
    rwa [target, hc, walk_append, walk_cons, walk_nil, step_name h₁ h₂] at hd

theorem locate_join (h : fs.status p = .ok .directory) (hn : Path.IsEntryName name) :
    fs.locate (p.join name) = .ok (fs.target p ++ [name]) := by
  obtain ⟨-, h₀, -⟩ := locate_eq_ok_iff.mp (status_eq_directory_iff.mp h).1
  refine locate_eq_ok_iff.mpr ⟨Path.text_join_ne_empty hn, ?_, ?_, (target_join hn).symm⟩
  · rwa [Path.null_mem_join_iff hn]
  · rw [start_join hn, Path.parts_join hn, List.dropLast_concat]
    exact passes_of_status h

/-! ## Directories that stay -/

/-- A file system that has all directories of another one. -/
structure Keeps (fs fs' : FileSystem) : Prop where
  workingDirectory : fs'.workingDirectory = fs.workingDirectory
  directory : ∀ l, fs.entryAt? l = some .directory → fs'.entryAt? l = some .directory

theorem Keeps.passes (h : fs.Keeps fs') (hp : fs.Passes l ps) : fs'.Passes l ps := by
  induction ps generalizing l with
  | nil => trivial
  | cons s ps ih => exact ⟨fun h₁ h₂ => h.directory _ (hp.1 h₁ h₂), ih hp.2⟩

theorem Keeps.locate (h : fs.Keeps fs') (hl : fs.locate p = .ok l) : fs'.locate p = .ok l := by
  obtain ⟨he, h₀, hp, rfl⟩ := locate_eq_ok_iff.mp hl
  refine locate_eq_ok_iff.mpr ⟨he, h₀, ?_, (target_congr h.workingDirectory p).symm⟩
  rw [start_congr h.workingDirectory]
  exact h.passes hp

theorem Keeps.status (h : fs.Keeps fs') (hd : fs.status p = .ok .directory) :
    fs'.status p = .ok .directory := by
  obtain ⟨hl, he⟩ := status_eq_directory_iff.mp hd
  rw [status_eq_directory_iff, target_congr h.workingDirectory]
  exact ⟨h.locate hl, h.directory _ he⟩

end FileSystem

end ApiTypings
