import Mathlib
import ApiTypings.Proofs.File.Alike
import ApiTypings.Proofs.File.Frame
import ApiTypings.Proofs.Source.Snapshot

/-! # What a snapshot touches

Whatever a share sends, saving it makes directories on the way to that of the endpoints and writes
the files of the documents; nothing else changes. An endpoint is read from its own file, and an id
that cannot be the name of a file is refused before any file is looked at.
-/

namespace ApiTypings

namespace Snapshot

open FileSystem

variable {s : Share} {n : Network} {fs fs' fs₁ : FileSystem} {dir : Path} {id : String}

/-! ## Files of a snapshot -/

/-- The files of a snapshot with their texts, in the order in which they are written. -/
def files (snapshot : Snapshot) (dir : Path) : List (Path × String) :=
  (dir.join schemasFile, snapshot.schemas) :: (dir.join treeFile, snapshot.tree) ::
    snapshot.endpoints.map fun x => (endpointPath dir x.1, x.2)

theorem writeEndpoints_eq (dir : Path) (xs : List (String × String)) :
    writeEndpoints dir xs =
      FileAction.writeEach (xs.map fun x => (endpointPath dir x.1, x.2)) := by
  induction xs with
  | nil => rfl
  | cons x xs ih =>
    rw [writeEndpoints, ih]
    rfl

theorem write_eq (snapshot : Snapshot) (dir : Path) :
    snapshot.write dir = (FileAction.makeDirectories (dir.join endpointDir) >>= fun _ =>
      FileAction.writeEach (snapshot.files dir)) := by
  rw [write, writeEndpoints_eq]
  rfl

/-- The ids that consist of letters, digits, hyphens and underscores, all of them ASCII. -/
structure IsPlain (id : String) : Prop where
  not_empty : id ≠ ""
  chars : ∀ c ∈ id.toList, c.isAlpha ∨ c.isDigit ∨ c = '-' ∨ c = '_'

theorem isPlainId_iff : isPlainId id = true ↔ IsPlain id := by
  simp only [isPlainId, Bool.and_eq_true, Bool.not_eq_true', List.all_eq_true, Char.isAlphanum,
    Bool.or_eq_true, beq_iff_eq, or_assoc]
  constructor
  · rintro ⟨h, hc⟩
    exact ⟨by simpa using h, hc⟩
  · intro h
    exact ⟨by simpa using h.not_empty, h.chars⟩

theorem endpointFile_of_isPlain (h : IsPlain id) : endpointFile id = .ok (id ++ ".json") :=
  endpointFile_eq_ok_iff.mpr ⟨isPlainId_iff.mpr h, rfl⟩

theorem endpointFile_of_not_isPlain (h : ¬ IsPlain id) :
    endpointFile id = .error (.invalidId id) :=
  if_neg (mt isPlainId_iff.mp h)

def endpointLocation (l : Location) (id : String) : Location := l ++ [endpointDir, id ++ ".json"]

theorem endpointLocation_inj {l : Location} {id' : String} :
    endpointLocation l id = endpointLocation l id' ↔ id = id' := by
  simp [endpointLocation]

theorem target_endpointPath_of_endpointFile {file : String} (h : endpointFile id = .ok file) :
    fs.target (endpointPath dir file) = endpointLocation (fs.target dir) id := by
  rw [target_endpointPath (isEntryName_of_endpointFile h), (endpointFile_eq_ok_iff.mp h).2]
  rfl

/-! ## Saving -/

def Lists (s : Share) (n : Network) (id : String) : Prop :=
  ∃ modules, (s.source n).tree.result = .ok modules ∧ id ∈ (endpointIds modules).value

/-- The locations of the documents of a share in a snapshot. -/
inductive IsDocument (s : Share) (n : Network) (l : Location) : Location → Prop where
  | schemas : IsDocument s n l (l ++ [schemasFile])
  | tree : IsDocument s n l (l ++ [treeFile])
  | endpoint {id : String} : Lists s n id → IsPlain id → IsDocument s n l (endpointLocation l id)

theorem save_of_error {e : Failure} (dir : Path) (fs : FileSystem)
    (h : (download s n).result = .error e) :
    save s n dir fs = (⟨(download s n).events, .error e⟩, fs) := by
  simp [save, h]

theorem save_of_ok {snapshot : Snapshot} (dir : Path) (fs : FileSystem)
    (h : (download s n).result = .ok snapshot) :
    save s n dir fs =
      (⟨(download s n).events, match (snapshot.write dir fs).1 with
        | .ok () => .ok snapshot.endpoints.length
        | .error e => .error (.file e)⟩, (snapshot.write dir fs).2) := by
  rcases hw : snapshot.write dir fs with ⟨e | _, fs'⟩ <;> simp [save, h, hw]

theorem exists_saved_of_download {snapshot : Snapshot}
    (h : (download s n).result = .ok snapshot) {x : String × String} (hx : x ∈ snapshot.endpoints) :
    ∃ id, Lists s n id ∧ Saved s n id x := by
  obtain ⟨-, modules, hf, hm, -, hs⟩ := download_eq_ok h
  obtain ⟨id, hi, hs⟩ := hs x hx
  exact ⟨id, ⟨modules, read_of_fetch hf hm, hi⟩, hs⟩

theorem isDocument_of_mem_files {snapshot : Snapshot}
    (h : (download s n).result = .ok snapshot) {x : Path × String} (hx : x ∈ snapshot.files dir) :
    IsDocument s n (fs.target dir) (fs.target x.1) := by
  simp only [files, List.mem_cons, List.mem_map] at hx
  rcases hx with rfl | rfl | ⟨y, hy, rfl⟩
  · rw [target_join isEntryName_schemasFile]
    exact .schemas
  · rw [target_join isEntryName_treeFile]
    exact .tree
  · obtain ⟨id, hl, hs⟩ := exists_saved_of_download h hy
    rw [target_endpointPath_of_endpointFile hs.name]
    exact .endpoint hl (isPlainId_iff.mp (endpointFile_eq_ok_iff.mp hs.name).1)

theorem write_of_error {e : FileError} (snapshot : Snapshot)
    (h : fs.makeDirectories (dir.join endpointDir) = (.error e, fs₁)) :
    snapshot.write dir fs = (.error e, fs₁) := by
  rw [write_eq]
  exact FileAction.bind_error h

theorem write_of_ok (snapshot : Snapshot)
    (h : fs.makeDirectories (dir.join endpointDir) = (.ok (), fs₁)) :
    snapshot.write dir fs = FileAction.writeEach (snapshot.files dir) fs₁ := by
  rw [write_eq]
  exact FileAction.bind_ok h

theorem touches_write (snapshot : Snapshot) (dir : Path) (fs : FileSystem) :
    Touches (fs.targets (dir.join endpointDir).ancestors)
      {l | ∃ x ∈ snapshot.files dir, l = fs.target x.1} fs (snapshot.write dir fs).2 := by
  rcases h : fs.makeDirectories (dir.join endpointDir) with ⟨e | _, fs₁⟩
  all_goals
    have hd := (adds_of_makeDirectories h).touches
      {l | ∃ x ∈ snapshot.files dir, l = fs.target x.1}
  · rw [write_of_error snapshot h]
    exact hd
  · rw [write_of_ok snapshot h]
    refine hd.trans ((FileAction.touches_writeEach fs₁ _).mono (Set.empty_subset _) ?_)
    rintro l ⟨x, hx, rfl⟩
    exact ⟨x, hx, target_congr hd.workingDirectory x.1⟩

theorem touches_save (s : Share) (n : Network) (dir : Path) (fs : FileSystem) :
    Touches (fs.targets (dir.join endpointDir).ancestors) {l | IsDocument s n (fs.target dir) l}
      fs (save s n dir fs).2 := by
  cases h : (download s n).result with
  | error e =>
    rw [save_of_error dir fs h]
    exact .refl _ _ fs
  | ok snapshot =>
    rw [save_of_ok dir fs h]
    refine (touches_write snapshot dir fs).mono subset_rfl ?_
    rintro l ⟨x, hx, rfl⟩
    exact isDocument_of_mem_files h hx

/-! ## Reading -/

theorem endpoint_of_isPlain (fs : FileSystem) (dir : Path) (h : IsPlain id) :
    (source fs dir).endpoint id =
      Run.ofExcept (read fs Endpoint.decode (endpointPath dir (id ++ ".json"))) := by
  rw [endpointPath, Path.join_join isEntryName_endpointDir]
  simp [source, endpointFile_of_isPlain h, Except.mapError, bind, Except.bind]

theorem endpoint_of_not_isPlain (fs : FileSystem) (dir : Path) (h : ¬ IsPlain id) :
    (source fs dir).endpoint id = Run.fail (.transport (.invalidId id)) := by
  simp [source, endpointFile_of_not_isPlain h, Except.mapError, bind, Except.bind, Run.ofExcept,
    Run.fail]

theorem endpoint_congr (h : IsPlain id)
    (hs : SameAt (endpointLocation (fs.target dir) id) fs fs') :
    (source fs' dir).endpoint id = (source fs dir).endpoint id := by
  rw [← target_endpointPath_of_endpointFile (endpointFile_of_isPlain h)] at hs
  rw [endpoint_of_isPlain fs dir h, endpoint_of_isPlain fs' dir h, read, read, hs.alike.read]

/-- Saving writes the files of the documents and no others: one for each list, and one for each
plain id in the tree, with a location of its own. Reading an endpoint looks into its own file, and
an id that is not plain is refused without a look at the files. -/
theorem snapshot_confined (s : Share) (n : Network) (dir : Path) (fs : FileSystem) :
    Touches (fs.targets (dir.join endpointDir).ancestors) {l | IsDocument s n (fs.target dir) l}
        fs (save s n dir fs).2 ∧
      (∀ id id', endpointLocation (fs.target dir) id = endpointLocation (fs.target dir) id' →
        id = id') ∧
      (∀ id, IsPlain id → ∀ fs', SameAt (endpointLocation (fs.target dir) id) fs fs' →
        (source fs' dir).endpoint id = (source fs dir).endpoint id) ∧
      ∀ id, ¬ IsPlain id → (source fs dir).endpoint id = Run.fail (.transport (.invalidId id)) :=
  ⟨touches_save s n dir fs, fun _ _ => endpointLocation_inj.mp,
    fun _ h _ hs => endpoint_congr h hs, fun _ h => endpoint_of_not_isPlain fs dir h⟩

end Snapshot

end ApiTypings
