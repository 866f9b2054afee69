import Mathlib
import ApiTypings.Proofs.File.Frame
import ApiTypings.Proofs.Generation.Outcome
import ApiTypings.Proofs.Generation.Replacement
import ApiTypings.Proofs.Generation.Skipping
import ApiTypings.Proofs.Source.Confinement

/-! # Repeating a run

Replacing a directory a second time finds it as the first time has left it, and ends the same. So a
run can be repeated if it finds its templates and its snapshot again: if nothing that it looks at on
the way to them is removed with the output directory or made for it.
-/

namespace ApiTypings

open FileSystem

/-! ## Replacing twice -/

theorem FileAction.writeAll_eq (dir : Path) (files : List (String × String)) :
    FileAction.writeAll dir files =
      FileAction.writeEach (files.map fun x => (dir.join x.1, x.2)) := by
  induction files with
  | nil => rfl
  | cons x files ih =>
    rw [FileAction.writeAll, ih]
    rfl

theorem FileAction.respects_writeEach (files : List (Path × String)) :
    (FileAction.writeEach files).Respects := by
  induction files with
  | nil => exact respects_pure ()
  | cons x files ih => exact (respects_write x.1 x.2).bind fun _ => ih

namespace FileSystem

variable {fs fs' fs₁ fs₂ : FileSystem} {p q : Path} {l : Location} {files : Set Location}

/-- What was written below a location is removed with it. -/
theorem Touches.agrees_without (h : Touches ∅ files fs fs') (hl : l ≠ [])
    (hf : ∀ m ∈ files, l <+: m) : (fs.without l).Agrees (fs'.without l) := by
  refine ⟨h.workingDirectory, fun m => ?_⟩
  rw [entryAt?_without hl, entryAt?_without hl]
  split_ifs with hm
  · rfl
  · exact h.entry_eq (Set.notMem_empty m) fun hx => hm (hf m hx)

theorem target_ne_nil (hn : endsInName p = true) : fs.target p ≠ [] := by
  rcases List.eq_nil_or_concat p.parts with hp | ⟨ps, s, hp⟩
  · simp [endsInName, hp] at hn
  · rw [List.concat_eq_append] at hp
    obtain ⟨h₁, h₂⟩ : s ≠ "." ∧ s ≠ ".." := by simpa [endsInName, hp] using hn
    simp [target, hp, step_name h₁ h₂]

/-- A directory that was made and is removed can be made again, and that gives back what was removed,
if nothing was there before. -/
theorem makeDirectories_again (ht : fs.IsTree) (hn : endsInName p = true)
    (h₀ : fs.entryAt? (fs.target p) = none) (h : fs.makeDirectories p = (.ok (), fs₁)) :
    ∃ fs₂, (fs₁.without (fs₁.target p)).makeDirectories p = (.ok (), fs₂) ∧ fs₁.Agrees fs₂ := by
  have ha := adds_of_makeDirectories h
  have hs := status_of_makeDirectories hn h
  have ht₁ := isTree_of_makeDirectories ht h
  have hp : fs₁.target p = fs.target p := target_congr ha.workingDirectory p
  have hw : ¬ fs₁.target p <+: fs₁.workingDirectory := by
    rw [hp, ha.workingDirectory]
    intro hw
    simpa [ht.working] using ht.none_below h₀ hw
  have hl := ne_nil_of_outside hw
  obtain ⟨fs₂, h₂⟩ := exists_makeDirectories_without ht₁ hw hs hn
  have ha₂ := adds_of_makeDirectories h₂
  have hs₂ := status_of_makeDirectories hn h₂
  have ht₂ := isTree_of_makeDirectories (isTree_without ht₁ hw) h₂
  refine ⟨fs₂, h₂, ha₂.workingDirectory, fun m => ?_⟩
  rcases ha₂.entry m with he | ⟨⟨q, hq, rfl⟩, -, he⟩
  · rw [entryAt?_without hl] at he
    split_ifs at he with hm
    · -- What was removed has been made before, and then it has been made again.
      rcases ha.entry m with he₁ | ⟨⟨q, hq, rfl⟩, -, -⟩
      · rw [he, he₁, ht.none_below h₀ (hp ▸ hm)]
      · have hq := entry_of_mem_ancestors ht₂ hs₂ hq
        rw [target_congr (ha₂.workingDirectory.trans ha.workingDirectory), he] at hq
        cases hq
    · exact he
  · rw [he]
    exact (entry_of_mem_ancestors ht₁ hs hq).symm

theorem agrees_without_of_makeDirectories (ht : fs.IsTree) (hn : endsInName p = true)
    (hs : fs.status p = .ok .directory)
    (h : (fs.without (fs.target p)).makeDirectories p = (.ok (), fs₁)) :
    (fs.without (fs.target p)).Agrees (fs₁.without (fs.target p)) := by
  have ha := adds_of_makeDirectories h
  refine ⟨ha.workingDirectory, fun m => ?_⟩
  rw [entryAt?_without (target_ne_nil hn)]
  split_ifs with hm
  · rw [entryAt?_without (target_ne_nil hn), if_pos hm]
  · rcases ha.entry m with he | ⟨⟨q, hq, rfl⟩, he, -⟩
    · exact he
    · have hd : fs.entryAt? ((fs.without (fs.target p)).target q) = some .directory :=
        entry_of_mem_ancestors ht hs hq
      rw [entryAt?_without (target_ne_nil hn), if_neg hm, hd] at he
      cases he

end FileSystem

section Replace

variable {fs fs' fs₁ : FileSystem} {p : Path} {d : Documents} {l : Location}

theorem replace_eq_ok_iff :
    d.replace p fs = (.ok (), fs') ↔ ∃ fs₁ fs₂, clear p fs = (.ok (), fs₁) ∧
      fs₁.makeDirectories p = (.ok (), fs₂) ∧ FileAction.writeAll p d.files fs₂ = (.ok (), fs') := by
  rw [replace_eq]
  constructor
  · intro h
    obtain ⟨_, fs₁, hc, h⟩ := FileAction.bind_eq_ok_iff.mp h
    obtain ⟨_, fs₂, hm, h⟩ := FileAction.bind_eq_ok_iff.mp h
    exact ⟨fs₁, fs₂, hc, hm, h⟩
  · rintro ⟨fs₁, fs₂, hc, hm, hw⟩
    exact FileAction.bind_eq_ok_iff.mpr ⟨(), fs₁, hc,
      FileAction.bind_eq_ok_iff.mpr ⟨(), fs₂, hm, hw⟩⟩

theorem clear_eq_ok (hn : endsInName p = true) (h : clear p fs = (.ok (), fs₁)) :
    fs.status p = .error .notFound ∧ fs₁ = fs ∨
      fs.status p = .ok .directory ∧ fs₁ = fs.without (fs.target p) := by
  rcases clear_cases fun _ => hn with ⟨e, he⟩ | ⟨hs, he⟩ | ⟨hs, he⟩
  · cases h.symm.trans he
  · exact .inl ⟨hs, (Prod.mk.inj (h.symm.trans he)).2⟩
  · exact .inr ⟨hs, (Prod.mk.inj (h.symm.trans he)).2⟩

theorem touches_writeAll (h : FileAction.writeAll p d.files fs = (.ok (), fs')) :
    Touches ∅ {l | ∃ name ∈ documentNames, l = fs.target p ++ [name]} fs fs' := by
  have ht := FileAction.touches_writeEach fs (d.files.map fun x => (p.join x.1, x.2))
  rw [← FileAction.writeAll_eq, h] at ht
  refine ht.mono subset_rfl ?_
  rintro l ⟨y, hy, rfl⟩
  obtain ⟨x, hx, rfl⟩ := List.mem_map.mp hy
  have hx : x.1 ∈ documentNames := List.mem_map_of_mem hx
  exact ⟨x.1, hx, target_join (isEntryName_of_mem hx)⟩

theorem replace_again (ht : fs.IsTree) (hn : endsInName p = true)
    (hm : fs.status p = .error .notFound → fs.entryAt? (fs.target p) ≠ some .directory)
    (h : d.replace p fs = (.ok (), fs')) :
    ∃ fs'', d.replace p fs' = (.ok (), fs'') ∧ fs'.Agrees fs'' := by
  obtain ⟨fs₁, fs₂, hc, hd, hw⟩ := replace_eq_ok_iff.mp h
  have hk := touches_writeAll hw
  have hp : fs'.target p = fs₂.target p := target_congr hk.workingDirectory p
  have hs := status_of_makeDirectories hn hd
  have hc' := clear_of_status (hk.keeps.status hs) hn
  have ha : (fs₂.without (fs₂.target p)).Agrees (fs'.without (fs'.target p)) := by
    rw [hp]
    refine hk.agrees_without (target_ne_nil hn) ?_
    rintro l ⟨name, -, rfl⟩
    exact List.prefix_append _ _
  -- Without the documents, it is about making the directory again.
  obtain ⟨fs₃, hd₃, ha₃⟩ : ∃ fs₃, (fs₂.without (fs₂.target p)).makeDirectories p = (.ok (), fs₃) ∧
      fs₂.Agrees fs₃ := by
    have hx := adds_of_makeDirectories hd
    rcases clear_eq_ok hn hc with ⟨hf, rfl⟩ | ⟨hf, rfl⟩
    · refine makeDirectories_again ht hn ?_ hd
      have hd₂ := (status_eq_directory_iff.mp hs).2
      rw [target_congr hx.workingDirectory] at hd₂
      rcases hx.entry (fs₁.target p) with he | ⟨-, he, -⟩
      · exact absurd (he.symm.trans hd₂) (hm hf)
      · exact he
    · have hy := agrees_without_of_makeDirectories ht hn hf hd
      have hp₂ : fs₂.target p = fs.target p := target_congr hx.workingDirectory p
      rw [hp₂]
      exact (FileAction.respects_makeDirectories p).of_ok hy hd
  obtain ⟨fs₄, hd₄, ha₄⟩ := (FileAction.respects_makeDirectories p).of_ok ha hd₃
  have hr : (FileAction.writeAll p d.files).Respects := by
    rw [FileAction.writeAll_eq]
    exact FileAction.respects_writeEach _
  obtain ⟨fs'', hw', ha'⟩ := hr.of_ok (ha₃.trans ha₄) hw
  exact ⟨fs'', replace_eq_ok_iff.mpr ⟨_, fs₄, hc', hd₄, hw'⟩, ha'⟩

/-- The places where replacing a directory can change something: below the directory, where entries
are removed and documents written, and on the way to it, where directories are made. -/
inductive Overwritten (fs : FileSystem) (p : Path) : Location → Prop where
  | removed {l : Location} : isBelow (fs.target p) l = true → fs.entryAt? l ≠ none →
      Overwritten fs p l
  | document {name : String} : name ∈ documentNames → Overwritten fs p (fs.target p ++ [name])
  | made {q : Path} : q ∈ p.ancestors → fs.entryAt? (fs.target q) = none →
      Overwritten fs p (fs.target q)

theorem overwritten_iff :
    Overwritten fs p l ↔ (isBelow (fs.target p) l = true ∧ fs.entryAt? l ≠ none) ∨
      (∃ name ∈ documentNames, l = fs.target p ++ [name]) ∨
      ∃ q ∈ p.ancestors, l = fs.target q ∧ fs.entryAt? l = none := by
  constructor
  · rintro (⟨hb, he⟩ | ⟨hn⟩ | ⟨hq, he⟩)
    · exact .inl ⟨hb, he⟩
    · exact .inr (.inl ⟨_, hn, rfl⟩)
    · exact .inr (.inr ⟨_, hq, rfl, he⟩)
  · rintro (⟨hb, he⟩ | ⟨name, hn, rfl⟩ | ⟨q, hq, rfl, he⟩)
    · exact .removed hb he
    · exact .document hn
    · exact .made hq he

instance : Decidable (Overwritten fs p l) := decidable_of_iff _ overwritten_iff.symm

theorem workingDirectory_of_replace (hn : endsInName p = true)
    (h : d.replace p fs = (.ok (), fs')) : fs'.workingDirectory = fs.workingDirectory := by
  obtain ⟨fs₁, fs₂, hc, hd, hw⟩ := replace_eq_ok_iff.mp h
  have h₂ := (touches_writeAll hw).workingDirectory.trans (adds_of_makeDirectories hd).workingDirectory
  rcases clear_eq_ok hn hc with ⟨-, rfl⟩ | ⟨-, rfl⟩ <;> exact h₂

theorem entry_of_replace (hn : endsInName p = true) (h : d.replace p fs = (.ok (), fs'))
    (hl : ¬ Overwritten fs p l) : fs'.entryAt? l = fs.entryAt? l := by
  have hw' := workingDirectory_of_replace hn h
  obtain ⟨fs₁, fs₂, hc, hd, hw⟩ := replace_eq_ok_iff.mp h
  have hk := touches_writeAll hw
  have ha := adds_of_makeDirectories hd
  have hp₂ := hk.workingDirectory.symm.trans hw'
  have hp₁ := ha.workingDirectory.symm.trans hp₂
  by_cases hs : fs.status p = .ok .directory ∧ l = fs.target p
  · -- The directory itself has been made again.
    obtain ⟨hs, rfl⟩ := hs
    have hs₂ := hk.keeps.status (status_of_makeDirectories hn hd)
    rw [(status_eq_directory_iff.mp hs).2, ← target_congr hw']
    exact (status_eq_directory_iff.mp hs₂).2
  have h₁ : fs₁.entryAt? l = fs.entryAt? l := by
    rcases clear_eq_ok hn hc with ⟨-, rfl⟩ | ⟨hf, rfl⟩
    · rfl
    · rw [entryAt?_without (target_ne_nil hn)]
      split_ifs with hm
      · by_contra hx
        exact hl (.removed (isBelow_iff.mpr ⟨hm, fun he => hs ⟨hf, he⟩⟩) (Ne.symm hx))
      · rfl
  have h₂ : fs₂.entryAt? l = fs₁.entryAt? l := by
    rcases ha.entry l with he | ⟨⟨q, hq, rfl⟩, he, -⟩
    · exact he
    · rw [target_congr hp₁] at hl h₁ he
      exact absurd (.made hq (h₁.symm.trans he)) hl
  rw [hk.entry_eq (Set.notMem_empty l), h₂, h₁]
  rintro ⟨name, hm, rfl⟩
  rw [target_congr hp₂] at hl
  exact hl (.document hm)

/-- Nothing that a lookup of a path looks at is overwritten. -/
def Spares (fs : FileSystem) (p q : Path) : Prop :=
  ∀ qs ∈ q.parts.inits, ¬ Overwritten fs p (walk (fs.start q) qs)

instance (p q : Path) : Decidable (Spares fs p q) :=
  inferInstanceAs (Decidable (∀ qs ∈ q.parts.inits, ¬ Overwritten fs p (walk (fs.start q) qs)))

theorem Spares.alike {q : Path} (hs : Spares fs p q) (hn : endsInName p = true)
    (h : d.replace p fs = (.ok (), fs')) : fs.Alike fs' q where
  workingDirectory := workingDirectory_of_replace hn h
  passed qs hq := by rw [entry_of_replace hn h (hs qs ((List.mem_inits _ _).mpr hq))]
  target := entry_of_replace hn h (hs q.parts ((List.mem_inits _ _).mpr List.prefix_rfl))

end Replace

/-! ## What a run reads -/

section Read

variable {fs fs' : FileSystem} {dir : Path} {c : Config} {t : Renderer}

/-- The paths at which templates are looked for. -/
def Templates.overridePaths : Option Path → List Path
  | none => []
  | some dir => documentNames.map fun name => dir.join (name ++ ".tera")

theorem Templates.load_congr {dir : Option Path}
    (h : ∀ q ∈ overridePaths dir, fs.Alike fs' q) : load fs' dir = load fs dir := by
  cases dir with
  | none => rfl
  | some dir =>
    have ho : ∀ name ∈ documentNames, ∀ builtIn,
        override fs' dir name builtIn = override fs dir name builtIn := fun name hn builtIn => by
      have h := h _ (List.mem_map_of_mem hn)
      simp only [override, h.holds, h.read]
    simp only [load, ho schemaFile (by decide), ho pathsFile (by decide),
      ho servicesFile (by decide)]

def Snapshot.paths (fs : FileSystem) (dir : Path) : List Path :=
  dir.join schemasFile :: dir.join treeFile ::
    (source fs dir).ids.map fun id => endpointPath dir (id ++ ".json")

theorem Snapshot.read_congr {α : Type} {decode : Json → Decoded α} {q : Path}
    (h : fs.Alike fs' q) : read fs' decode q = read fs decode q := by
  rw [read, read, h.read]

/-- A run on a snapshot depends on its documents alone. -/
theorem Snapshot.generate_of_alike (h : ∀ q ∈ paths fs dir, fs.Alike fs' q)
    {x : Documents × Report} (hg : (generate c t (source fs dir)).result = .ok x) :
    (generate c t (source fs' dir)).result = .ok x := by
  obtain ⟨d, hd, hx⟩ := generate_eq_ok_iff.mp hg
  obtain ⟨schemas, modules, hs, hm, hn, hd, hc⟩ := convert_eq_ok_iff.mp hd
  obtain ⟨h₁, h₂, h₃⟩ := List.forall_mem_cons.mp h |>.imp_right List.forall_mem_cons.mp
  refine generate_eq_ok_iff.mpr ⟨d, convert_eq_ok_iff.mpr ⟨schemas, modules, ?_, ?_, hn, hd,
    hc.congr fun id hi => ?_⟩, hx⟩
  · rw [← hs]
    exact read_congr h₁
  · rw [← hm]
    exact read_congr h₂
  · by_cases hp : IsPlain id
    · have hi : id ∈ (source fs dir).ids := by rwa [Source.ids, hm]
      rw [endpoint_of_isPlain fs dir hp, endpoint_of_isPlain fs' dir hp,
        read_congr (h₃ _ (List.mem_map_of_mem hi))]
    · rw [endpoint_of_not_isPlain fs dir hp, endpoint_of_not_isPlain fs' dir hp]

def Config.inputs (c : Config) (dir : Path) (fs : FileSystem) : List Path :=
  Templates.overridePaths c.templateDir ++ Snapshot.paths fs dir

end Read

/-! ## Runs -/

section Run

variable {rendering : Templates → Renderer} {c : Config} {t : Renderer} {source : Source}
  {fs fs' : FileSystem} {dir : Path} {report : Report}

theorem generateTo_eq_ok_iff :
    (generateTo c t source fs).1.result = .ok report ∧ (generateTo c t source fs).2 = fs' ↔
      ∃ d, (generate c t source).result = .ok (d, report) ∧ c.outputDir.isDedicated = true ∧
        d.replace c.outputDir fs = (.ok (), fs') := by
  rcases hg : (generate c t source).result with e | ⟨d, r⟩
  · simp [generateTo_of_error fs hg]
  · obtain ⟨hr, hf⟩ := generateTo_of_ok fs hg
    rw [hr, hf]
    by_cases hd : c.outputDir.isDedicated = true
    · rcases hx : d.replace c.outputDir fs with ⟨e | _, fs₁⟩ <;>
        simp +contextual [Documents.writeTo, hd, hx, Except.map]
    · simp [Documents.writeTo, hd, Except.map]

/-- A run reads its templates and its snapshot, and replaces its output directory. How templates are
rendered does not matter. -/
inductive Regenerates (rendering : Templates → Renderer) (c : Config) (dir : Path)
    (fs : FileSystem) (report : Report) (fs' : FileSystem) : Prop where
  | run {t : Templates} : Templates.load fs c.templateDir = .ok t →
      (generateTo c (rendering t) (Snapshot.source fs dir) fs).1.result = .ok report →
      (generateTo c (rendering t) (Snapshot.source fs dir) fs).2 = fs' →
      Regenerates rendering c dir fs report fs'

/-- A run that succeeds can be repeated and spares what it reads, if its output directory is given by
name, is not hidden behind something missing, and is apart from what the run reads. -/
theorem regenerates_again (ht : fs.IsTree) (hn : endsInName c.outputDir = true)
    (hm : fs.status c.outputDir = .error .notFound →
      fs.entryAt? (fs.target c.outputDir) ≠ some .directory)
    (hi : ∀ q ∈ c.inputs dir fs, Spares fs c.outputDir q)
    (h : Regenerates rendering c dir fs report fs') :
    (∃ fs'', Regenerates rendering c dir fs' report fs'' ∧ fs'.Agrees fs'') ∧
      ∀ q ∈ c.inputs dir fs, fs'.read q = fs.read q := by
  obtain @⟨t, hl, hr, hf⟩ := h
  obtain ⟨d, hg, hd, hp⟩ := generateTo_eq_ok_iff.mp ⟨hr, hf⟩
  have ha : ∀ q ∈ c.inputs dir fs, fs.Alike fs' q := fun q hq => (hi q hq).alike hn hp
  obtain ⟨ha₁, ha₂⟩ := List.forall_mem_append.mp ha
  obtain ⟨fs'', hp', hs⟩ := replace_again ht hn hm hp
  have hg' := Snapshot.generate_of_alike ha₂ hg
  obtain ⟨hr', hf'⟩ := generateTo_eq_ok_iff.mpr ⟨d, hg', hd, hp'⟩
  exact ⟨⟨fs'', .run ((Templates.load_congr ha₁).trans hl) hr' hf', hs⟩, fun q hq => (ha q hq).read⟩

/-- A working directory with a snapshot, a template and an output directory from an earlier run. -/
def snapshotFiles : FileSystem where
  entries := [(["w"], .directory), (["w", "dist"], .directory),
    (["w", "dist", "stale.ts"], .file "a"), (["w", "templates"], .directory),
    (["w", "templates", "schema.d.ts.tera"], .file "\x7b\x7b declarations \x7d\x7d"),
    (["w", "snap"], .directory), (["w", "snap", "data-schemas.json"], .file "[null,[]]"),
    (["w", "snap", "http-api-tree.json"],
      .file "[null,[[null,null,[[null,\x7b\"id\":1\x7d]]]]]"),
    (["w", "snap", "http-apis"], .directory),
    (["w", "snap", "http-apis", "1.json"],
      .file "[null,\x7b\"path\":\"/users\",\"method\":\"get\",\"responses\":[[\"OK\"]]\x7d]")]
  workingDirectory := ["w"]

theorem isTree_snapshotFiles : snapshotFiles.IsTree := isTree_of_entries (by decide) (by decide)

def overridingConfig (dir : String) : Config :=
  { outputConfig dir with templateDir := some ⟨"templates"⟩ }

def overridingTemplates : Templates :=
  { Templates.builtIn with schema := ⟨[.variable "declarations"]⟩ }

theorem load_snapshotFiles :
    Templates.load snapshotFiles (some ⟨"templates"⟩) = .ok overridingTemplates := by
  decide +kernel

def snapshotFilesAfter (dir : String) : FileSystem :=
  (generateTo (overridingConfig dir) overridingTemplates.renderer
    (Snapshot.source snapshotFiles ⟨"snap"⟩) snapshotFiles).2

theorem sample_regenerates_again :
    Regenerates Templates.renderer (overridingConfig "dist") ⟨"snap"⟩ snapshotFiles ⟨0, 1, []⟩
        (snapshotFilesAfter "dist") ∧
      (∃ fs', Regenerates Templates.renderer (overridingConfig "dist") ⟨"snap"⟩
        (snapshotFilesAfter "dist") ⟨0, 1, []⟩ fs' ∧ (snapshotFilesAfter "dist").Agrees fs') ∧
      ∀ q ∈ (overridingConfig "dist").inputs ⟨"snap"⟩ snapshotFiles,
        (snapshotFilesAfter "dist").read q = snapshotFiles.read q := by
  have h : Regenerates Templates.renderer (overridingConfig "dist") ⟨"snap"⟩ snapshotFiles
      ⟨0, 1, []⟩ (snapshotFilesAfter "dist") :=
    .run load_snapshotFiles (by decide +kernel) rfl
  exact ⟨h, regenerates_again isTree_snapshotFiles (by decide) (by decide) (by decide +kernel) h⟩

/-- A run whose output directory is the snapshot removes what it has read. -/
theorem exists_run_not_repeatable :
    ¬ ∀ c dir fs report fs', fs.IsTree → Regenerates Templates.renderer c dir fs report fs' →
      ∃ fs'', Regenerates Templates.renderer c dir fs' report fs'' ∧ fs'.Agrees fs'' := by
  intro h
  obtain ⟨fs'', ⟨hl, hr, -⟩, -⟩ := h (overridingConfig "snap") ⟨"snap"⟩ snapshotFiles ⟨0, 1, []⟩
    (snapshotFilesAfter "snap") isTree_snapshotFiles
    (.run load_snapshotFiles (by decide +kernel) rfl)
  obtain ⟨_, hg, -⟩ := generateTo_eq_ok_iff.mp ⟨hr, rfl⟩
  obtain ⟨_, hd, -⟩ := generate_eq_ok_iff.mp hg
  obtain ⟨_, _, hs, -⟩ := convert_eq_ok_iff.mp hd
  have he : (Snapshot.source (snapshotFilesAfter "snap") ⟨"snap"⟩).schemas.result.isOk = false := by
    decide +kernel
  rw [hs] at he
  cases he

end Run

end ApiTypings
