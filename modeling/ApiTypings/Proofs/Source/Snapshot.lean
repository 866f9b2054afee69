import Mathlib
import ApiTypings.Source.Snapshot
import ApiTypings.Proofs.File.Changes
import ApiTypings.Proofs.Generation.Sources

/-! # A snapshot in place of a share

A snapshot that was saved has every document that a run asks for, as it was received, whatever the
directory held before. So a run on the snapshot ends like a run on the share.
-/

namespace ApiTypings

namespace Path

theorem text_join_of_ne {p : Path} (name : String) (he : p.text ≠ "") (hs : p.endsInSlash = false) :
    (p.join name).text = p.text ++ "/" ++ name := by
  simp [join, he, hs]

theorem join_join {p : Path} {name inner : String} (h : IsEntryName name) :
    (p.join name).join inner = p.join (name ++ "/" ++ inner) := by
  have ht := text_join_of_ne inner (text_join_ne_empty (p := p) h) (endsInSlash_join h)
  have hj : (p.join (name ++ "/" ++ inner)).text = (p.join name).text ++ "/" ++ inner := by
    unfold join
    split_ifs <;> simp [String.append_assoc]
  exact congrArg Path.mk (ht.trans hj.symm)

end Path

namespace Snapshot

open FileSystem

variable {s : Share} {n : Network} {fs fs' : FileSystem} {dir q : Path} {α : Type}
  {decode : Json → Decoded α} {a : α} {id file text : String} {files : List (String × String)}

/-! ## Names of files -/

theorem isEntryName_schemasFile : Path.IsEntryName schemasFile := by constructor <;> decide

theorem isEntryName_treeFile : Path.IsEntryName treeFile := by constructor <;> decide

theorem isEntryName_endpointDir : Path.IsEntryName endpointDir := by constructor <;> decide

theorem endpointFile_eq_ok_iff :
    endpointFile id = .ok file ↔ isPlainId id = true ∧ file = id ++ ".json" := by
  unfold endpointFile
  split_ifs with h <;> simp [h, eq_comm]

theorem isEntryName_of_endpointFile (h : endpointFile id = .ok file) : Path.IsEntryName file := by
  obtain ⟨hp, rfl⟩ := endpointFile_eq_ok_iff.mp h
  have hc : ∀ c ∈ id.toList, (c.isAlphanum = true ∨ c = '-') ∨ c = '_' := by
    simpa [isPlainId] using (Bool.and_eq_true_iff.mp hp).2
  have hn : ∀ c ∈ (id ++ ".json").toList, c ≠ '/' ∧ c ≠ '\x00' := by
    intro c hm
    rw [String.toList_append, List.mem_append] at hm
    rcases hm with hm | hm
    · rcases hc c hm with (h | rfl) | rfl
      · exact ⟨by rintro rfl; simp at h, by rintro rfl; simp at h⟩
      · decide
      · decide
    · have hm : c = '.' ∨ c = 'j' ∨ c = 's' ∨ c = 'o' ∨ c = 'n' := by simpa using hm
      rcases hm with rfl | rfl | rfl | rfl | rfl <;> decide
  have hl : ∀ t : String, t.toList.getLast? ≠ some 'n' → id ++ ".json" ≠ t := by
    rintro t ht rfl
    simp at ht
  exact ⟨hl "" (by decide), fun h => (hn _ h).1 rfl, fun h => (hn _ h).2 rfl,
    hl "." (by decide), hl ".." (by decide)⟩

theorem endpointFile_injective {id' : String} (h : endpointFile id = .ok file)
    (h' : endpointFile id' = .ok file) : id = id' := by
  obtain ⟨-, rfl⟩ := endpointFile_eq_ok_iff.mp h
  obtain ⟨-, h⟩ := endpointFile_eq_ok_iff.mp h'
  exact String.ext (by simpa using congrArg String.toList h)

/-! ## Documents -/

theorem openEnvelope_eq_ok_iff {origin : String} :
    openEnvelope decode origin text = .ok a ↔ readEnvelope decode text = .ok a := by
  unfold openEnvelope
  split <;> simp_all

theorem read_of_fetch {tail : String} (hf : (s.fetch n tail).result = .ok text)
    (ho : readEnvelope decode text = .ok a) : (s.read n decode tail).result = .ok a := by
  obtain ⟨u, hu, hg⟩ := Run.result_bind_eq_ok_iff.mp hf
  refine Run.result_bind_eq_ok_iff.mpr ⟨u, hu, ?_⟩
  exact Run.result_bind_eq_ok_iff.mpr ⟨text, hg, openEnvelope_eq_ok_iff.mpr ho⟩

theorem read_of_readEnvelope (hr : fs.read q = .ok text) (ho : readEnvelope decode text = .ok a) :
    read fs decode q = .ok a := by
  simp [read, hr, openEnvelope_eq_ok_iff, ho]

/-- A file with the document of an endpoint as it was received. -/
structure Saved (s : Share) (n : Network) (id : String) (x : String × String) : Prop where
  name : endpointFile id = .ok x.1
  text : (s.fetch n (Share.endpointTail id)).result = .ok x.2
  readable : ∃ e, readEnvelope Endpoint.decode x.2 = .ok e

theorem saved_of_downloadEndpoints {ids : List String}
    (h : (downloadEndpoints s n ids).result = .ok files) :
    (∀ id ∈ ids, ∃ x ∈ files, Saved s n id x) ∧ ∀ x ∈ files, ∃ id ∈ ids, Saved s n id x := by
  induction ids generalizing files with
  | nil =>
    obtain rfl := Except.ok.inj h
    simp
  | cons id ids ih =>
    obtain ⟨file, hf, h⟩ := Run.result_bind_eq_ok_iff.mp h
    obtain ⟨body, hb, h⟩ := Run.result_bind_eq_ok_iff.mp h
    obtain ⟨e, he, h⟩ := Run.result_bind_eq_ok_iff.mp h
    obtain ⟨rest, hr, h⟩ := Run.result_bind_eq_ok_iff.mp h
    obtain rfl := Except.ok.inj h
    have hs : Saved s n id (file, body) := by
      refine ⟨?_, hb, e, openEnvelope_eq_ok_iff.mp he⟩
      cases hx : endpointFile id with
      | ok x => simpa [hx, Except.mapError] using hf
      | error x => simp [hx, Except.mapError] at hf
    obtain ⟨hi, hx⟩ := ih hr
    rw [List.forall_mem_cons, List.forall_mem_cons]
    refine ⟨⟨⟨_, List.mem_cons_self, hs⟩, fun id h => ?_⟩,
      ⟨id, List.mem_cons_self, hs⟩, fun x h => ?_⟩
    · obtain ⟨x, hm, hs⟩ := hi id h
      exact ⟨x, List.mem_cons_of_mem _ hm, hs⟩
    · obtain ⟨id, hm, hs⟩ := hx x h
      exact ⟨id, List.mem_cons_of_mem _ hm, hs⟩

/-- Endpoints in one file are one endpoint, and whenever it is fetched its document is the same. -/
theorem Saved.text_eq {id' : String} {x y : String × String} (h : Saved s n id x)
    (h' : Saved s n id' y) (he : x.1 = y.1) : x.2 = y.2 := by
  obtain rfl := endpointFile_injective h.name (he ▸ h'.name)
  exact Except.ok.inj (h.text.symm.trans h'.text)

theorem download_eq_ok {snapshot : Snapshot} (h : (download s n).result = .ok snapshot) :
    (∃ schemas, (s.fetch n Share.schemasTail).result = .ok snapshot.schemas ∧
      readEnvelope decodeSchemas snapshot.schemas = .ok schemas) ∧
    ∃ modules, (s.fetch n Share.treeTail).result = .ok snapshot.tree ∧
      readEnvelope decodeNodes snapshot.tree = .ok modules ∧
      (∀ id ∈ (endpointIds modules).value, ∃ x ∈ snapshot.endpoints, Saved s n id x) ∧
      ∀ x ∈ snapshot.endpoints, ∃ id ∈ (endpointIds modules).value, Saved s n id x := by
  obtain ⟨text, hf, h⟩ := Run.result_bind_eq_ok_iff.mp h
  obtain ⟨schemas, hs, h⟩ := Run.result_bind_eq_ok_iff.mp h
  obtain ⟨text', hf', h⟩ := Run.result_bind_eq_ok_iff.mp h
  obtain ⟨modules, hm, h⟩ := Run.result_bind_eq_ok_iff.mp h
  obtain ⟨ids, hi, h⟩ := Run.result_bind_eq_ok_iff.mp h
  obtain rfl := Except.ok.inj hi
  obtain ⟨files, hd, h⟩ := Run.result_bind_eq_ok_iff.mp h
  obtain rfl := Except.ok.inj h
  exact ⟨⟨schemas, hf, openEnvelope_eq_ok_iff.mp hs⟩,
    modules, hf', openEnvelope_eq_ok_iff.mp hm, saved_of_downloadEndpoints hd⟩

/-! ## Files -/

def endpointPath (dir : Path) (file : String) : Path := (dir.join endpointDir).join file

theorem target_endpointPath (h : Path.IsEntryName file) :
    fs.target (endpointPath dir file) = fs.target dir ++ [endpointDir, file] := by
  rw [endpointPath, target_join h, target_join isEntryName_endpointDir, List.append_assoc]
  rfl

/-- A file stays as it is while the endpoints are written, unless it is written anew with the text
that it has. -/
theorem read_of_writeEndpoints (h : writeEndpoints dir files fs = (.ok (), fs'))
    (hr : fs.read q = .ok text)
    (hq : ∀ x ∈ files, fs.target q = fs.target (endpointPath dir x.1) →
      q = endpointPath dir x.1 ∧ text = x.2) : fs'.read q = .ok text := by
  induction files generalizing fs with
  | nil =>
    obtain rfl := (Prod.mk.inj h).2
    exact hr
  | cons x files ih =>
    obtain ⟨_, fs₁, hw, h⟩ := FileAction.bind_eq_ok_iff.mp h
    have hw := FileAction.write_eq_ok_iff.mp hw
    have ht := target_congr (keeps_of_write hw).workingDirectory
    refine ih h ?_ fun y hy => by simpa only [ht] using hq y (List.mem_cons_of_mem x hy)
    by_cases hx : fs.target q = fs.target (endpointPath dir x.1)
    · obtain ⟨rfl, rfl⟩ := hq x List.mem_cons_self hx
      exact read_of_write hw
    · exact read_of_write_ne hw hr hx

/-- Files with one name have one text, so it does not matter which of them is written last. -/
theorem read_endpoint_of_writeEndpoints (h : writeEndpoints dir files fs = (.ok (), fs'))
    (hn : ∀ x ∈ files, Path.IsEntryName x.1)
    (hf : ∀ x ∈ files, ∀ y ∈ files, x.1 = y.1 → x.2 = y.2) :
    ∀ x ∈ files, fs'.read (endpointPath dir x.1) = .ok x.2 := by
  induction files generalizing fs with
  | nil => simp
  | cons x files ih =>
    obtain ⟨_, fs₁, hw, h⟩ := FileAction.bind_eq_ok_iff.mp h
    have hw := FileAction.write_eq_ok_iff.mp hw
    rw [List.forall_mem_cons]
    refine ⟨read_of_writeEndpoints h (read_of_write hw) fun y hy he => ?_,
      ih h (fun y hy => hn y (List.mem_cons_of_mem x hy)) fun y hy z hz =>
        hf y (List.mem_cons_of_mem x hy) z (List.mem_cons_of_mem x hz)⟩
    have hy := List.mem_cons_of_mem x hy
    rw [target_endpointPath (hn x List.mem_cons_self), target_endpointPath (hn y hy)] at he
    have he : x.1 = y.1 := by simpa using he
    exact ⟨by rw [he], hf x List.mem_cons_self y hy he⟩

theorem read_of_write {snapshot : Snapshot} (h : snapshot.write dir fs = (.ok (), fs'))
    (hn : ∀ x ∈ snapshot.endpoints, Path.IsEntryName x.1)
    (hf : ∀ x ∈ snapshot.endpoints, ∀ y ∈ snapshot.endpoints, x.1 = y.1 → x.2 = y.2) :
    fs'.read (dir.join schemasFile) = .ok snapshot.schemas ∧
      fs'.read (dir.join treeFile) = .ok snapshot.tree ∧
      ∀ x ∈ snapshot.endpoints, fs'.read (endpointPath dir x.1) = .ok x.2 := by
  obtain ⟨_, fs₁, _, h⟩ := FileAction.bind_eq_ok_iff.mp h
  obtain ⟨_, fs₂, hs, h⟩ := FileAction.bind_eq_ok_iff.mp h
  obtain ⟨_, fs₃, ht, h⟩ := FileAction.bind_eq_ok_iff.mp h
  have hs := FileAction.write_eq_ok_iff.mp hs
  have ht := FileAction.write_eq_ok_iff.mp ht
  have hs₃ : fs₃.read (dir.join schemasFile) = .ok snapshot.schemas := by
    refine read_of_write_ne ht (FileSystem.read_of_write hs) ?_
    rw [target_join isEntryName_schemasFile, target_join isEntryName_treeFile]
    simp [schemasFile, treeFile]
  -- The other files stand one level above those of the endpoints.
  have hq : ∀ name text, Path.IsEntryName name → ∀ x ∈ snapshot.endpoints,
      fs₃.target (dir.join name) = fs₃.target (endpointPath dir x.1) →
      dir.join name = endpointPath dir x.1 ∧ text = x.2 := by
    intro name text hname x hx he
    rw [target_join hname, target_endpointPath (hn x hx)] at he
    simp at he
  exact ⟨read_of_writeEndpoints h hs₃ (hq _ _ isEntryName_schemasFile),
    read_of_writeEndpoints h (FileSystem.read_of_write ht) (hq _ _ isEntryName_treeFile),
    read_endpoint_of_writeEndpoints h hn hf⟩

/-! ## Runs -/

theorem save_eq_ok {count : Nat} (h : (save s n dir fs).1.result = .ok count) :
    ∃ snapshot, (download s n).result = .ok snapshot ∧
      snapshot.write dir fs = (.ok (), (save s n dir fs).2) := by
  unfold save at h ⊢
  rcases hd : (download s n).result with e | snapshot
  · simp [hd] at h
  · rcases hw : snapshot.write dir fs with ⟨e | _, fs'⟩
    · simp [hd, hw] at h
    · exact ⟨snapshot, rfl, by simp [hd, hw]⟩

theorem sharesDocuments_of_save {count : Nat} (h : (save s n dir fs).1.result = .ok count) :
    (source (save s n dir fs).2 dir).SharesDocuments (s.source n) := by
  obtain ⟨snapshot, hd, hw⟩ := save_eq_ok h
  obtain ⟨⟨schemas, hs, hs'⟩, modules, hm, hm', hi, hx⟩ := download_eq_ok hd
  obtain ⟨hrs, hrt, hre⟩ := read_of_write hw
    (fun x h => (hx x h).elim fun _ h => isEntryName_of_endpointFile h.2.name)
    (fun x h y h' he => (hx x h).elim fun _ h => (hx y h').elim fun _ h' => h.2.text_eq h'.2 he)
  refine ⟨⟨schemas, read_of_readEnvelope hrs hs', read_of_fetch hs hs'⟩,
    modules, read_of_readEnvelope hrt hm', read_of_fetch hm hm', fun id h => ?_⟩
  obtain ⟨x, hm, h⟩ := hi id h
  obtain ⟨e, he⟩ := h.readable
  refine ⟨e, ?_, read_of_fetch h.text he⟩
  have hr := hre x hm
  rw [endpointPath, Path.join_join isEntryName_endpointDir] at hr
  simpa [source, h.name, Except.mapError, bind, Except.bind] using read_of_readEnvelope hr he

/-- If a snapshot was saved, a run on it ends like a run on the share, and fails at most for want of
a response or because of a template. -/
theorem generate_source_of_save {count : Nat} (h : (save s n dir fs).1.result = .ok count)
    (c : Config) (t : Renderer) :
    (generate c t (source (save s n dir fs).2 dir)).result = (generate c t (s.source n)).result ∧
      ∀ e, (generate c t (s.source n)).result = .error e →
        (∃ m, e = .missingResponse m) ∨ ∃ x, e = .template x := by
  have hs := sharesDocuments_of_save h
  exact ⟨hs.generate_eq, fun e he => hs.isInternal_of_generate (hs.generate_eq.trans he)⟩

/-- A share whose tree lists an endpoint twice. -/
def sampleShare : Share :=
  ⟨⟨"https".toList, some ⟨[], [], "x.cn".toList, none⟩, .segments ["docs".toList, []], none, none⟩⟩

def sampleNetwork : Network := fun u =>
  match u.text with
  | "https://x.cn/docs/data-schemas" => .answered 200 "\x7b\"data\":[]\x7d"
  | "https://x.cn/docs/http-api-tree" => .answered 200
    "[null,[[null,null,[[null,\x7b\"id\":1\x7d],[null,\x7b\"id\":\"1\"\x7d]]]]]"
  | "https://x.cn/docs/http-apis/1" => .answered 200
    "[null,\x7b\"path\":\"/users\",\"method\":\"get\",\"responses\":[[\"OK\"]]\x7d]"
  | _ => .closed

def olderSnapshot : FileSystem where
  entries := [(["snapshot"], .directory), (["snapshot", "http-apis"], .directory),
    (["snapshot", "http-apis", "1.json"], .file "a"),
    (["snapshot", "http-apis", "2.json"], .file "b")]
  workingDirectory := []

theorem sample_source_of_save :
    (save sampleShare sampleNetwork ⟨"snapshot"⟩ olderSnapshot).1.result = .ok 2 ∧
      (generate .default .builtIn
        (source (save sampleShare sampleNetwork ⟨"snapshot"⟩ olderSnapshot).2 ⟨"snapshot"⟩)).result =
        (generate .default .builtIn (sampleShare.source sampleNetwork)).result ∧
      (generate .default .builtIn (sampleShare.source sampleNetwork)).result.isOk = true := by
  have hs : (save sampleShare sampleNetwork ⟨"snapshot"⟩ olderSnapshot).1.result = .ok 2 := by
    decide +kernel
  exact ⟨hs, (generate_source_of_save hs .default .builtIn).1, by decide +kernel⟩

end Snapshot

end ApiTypings
