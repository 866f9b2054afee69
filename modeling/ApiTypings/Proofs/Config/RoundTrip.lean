import Mathlib
import ApiTypings.Config.File
import ApiTypings.Proofs.File.Changes
import ApiTypings.Proofs.Url.Normal
import ApiTypings.Proofs.Yaml.Entries

/-! # Saved configurations

A configuration that was written is read back as it was, whatever its texts are. A text that could
be taken for something else is quoted, and only texts that are plain are ever read as null. The
address in it is in a normal form, which is read as itself.
-/

namespace ApiTypings.Config

open Yaml

/-! ## Members -/

/-- What is read where an optional text was written. -/
def optionalScalar : Option String → Value
  | some s => scalarValue s
  | none => .plain "null"

def flagScalar (b : Bool) : Value := .plain (if b then "true" else "false")

theorem written_optionalValue (s : Option String) :
    Written (optionalValue s) (optionalScalar s) := by
  cases s with
  | none => exact written_plain (by decide +kernel)
  | some s => exact written_writeScalar s

theorem written_flagValue (b : Bool) : Written (flagValue b) (flagScalar b) := by
  cases b <;> exact written_plain (by decide +kernel)

theorem asOptional_optionalScalar (s : Option String) : asOptional (optionalScalar s) = some s := by
  cases s with
  | none => rfl
  | some s =>
    rw [optionalScalar, scalarValue]
    split_ifs with h
    · simp [asOptional, isNull_of_styleOf h]
    · rfl

theorem text?_scalarValue (s : String) : (scalarValue s).text? = some s := by
  unfold scalarValue
  split_ifs <;> rfl

theorem asFlag_flagScalar (b : Bool) : asFlag (flagScalar b) = some b := by
  cases b <;> rfl

/-! ## Configurations -/

/-- What is read where a configuration was written. -/
def scalars (c : Config) : Entries :=
  [("share_id", optionalScalar c.shareId),
    ("base_url", scalarValue c.baseUrl.text),
    ("output_dir", scalarValue c.outputDir.text),
    ("request_import", scalarValue c.requestImport),
    ("success_response", scalarValue c.successResponse),
    ("strict", flagScalar c.strict),
    ("template_dir", optionalScalar (c.templateDir.map Path.text))]

theorem isEntry_entries (c : Config) : List.Forall₂ IsEntry c.entries c.scalars := by
  have hk : ∀ key ∈ members, IsKey key := by
    simp [members, IsKey, Char.isAlpha, Char.isUpper, Char.isLower]
  simp only [members, List.forall_mem_cons] at hk
  obtain ⟨h₁, h₂, h₃, h₄, h₅, h₆, h₇, -⟩ := hk
  exact .cons ⟨h₁, rfl, written_optionalValue _⟩ <| .cons ⟨h₂, rfl, written_writeScalar _⟩ <|
    .cons ⟨h₃, rfl, written_writeScalar _⟩ <| .cons ⟨h₄, rfl, written_writeScalar _⟩ <|
    .cons ⟨h₅, rfl, written_writeScalar _⟩ <| .cons ⟨h₆, rfl, written_flagValue _⟩ <|
    .cons ⟨h₇, rfl, written_optionalValue _⟩ .nil

theorem ofEntries_scalars (c : Config) : ofEntries c.scalars = some c := by
  have hd : (c.scalars.map Prod.fst |>.filter members.contains).Nodup := by
    have hkeys : c.scalars.map Prod.fst = members := rfl
    rw [hkeys]
    decide +kernel
  have ht : ∀ dir : Option Path, dir.map (Path.mk ∘ Path.text) = dir := by
    rintro (_ | dir) <;> rfl
  rw [ofEntries, if_pos hd]
  simp [member, scalars, List.lookup, asOptional_optionalScalar, text?_scalarValue,
    asFlag_flagScalar, BaseUrl.parse?_text, ht]

theorem parse?_text (c : Config) : parse? c.text = some c := by
  have ht : c.text = String.ofList (writeEntries c.entries) := rfl
  rw [parse?, ht, parse_writeEntries c.isEntry_entries, Option.bind_some, c.ofEntries_scalars]

variable {fs : FileSystem} {p : Path}

/-- The text of a configuration has all of it, and so has a file to which it was saved. Its base
address may be any that can be read. -/
theorem load_of_save (c : Config) (fs : FileSystem) (p : Path) :
    parse? c.text = some c ∧ ((c.save p fs).1 = .ok () → load (c.save p fs).2 p = .ok c) ∧
      ∀ text, (BaseUrl.parse? text).map BaseUrl.url = (Url.parse text).toOption := by
  refine ⟨c.parse?_text, fun h => ?_, BaseUrl.map_url_parse?⟩
  have hr : (c.save p fs).2.read p = .ok c.text :=
    FileSystem.read_of_write (FileAction.write_eq_ok_iff.mp (Prod.ext h rfl))
  rw [load, hr]
  simp [c.parse?_text]

/-- Texts that look like null and like a number, an empty one, one with marks in it, and one of
several lines with white space around them. -/
def sampleConfig : Config where
  shareId := some "null"
  baseUrl := defaultBaseUrl
  outputDir := ⟨" first\n\n  second \n\n"⟩
  requestImport := "it's: \"@/request\" #1"
  successResponse := ""
  strict := true
  templateDir := some ⟨"1e3"⟩

def emptyDirectory : FileSystem where
  entries := []
  workingDirectory := []

theorem sampleConfig_load_of_save :
    (sampleConfig.save defaultFile emptyDirectory).1 = .ok () ∧
      load (sampleConfig.save defaultFile emptyDirectory).2 defaultFile = .ok sampleConfig := by
  have hs : (sampleConfig.save defaultFile emptyDirectory).1 = .ok () := by decide +kernel
  exact ⟨hs, (load_of_save sampleConfig emptyDirectory defaultFile).2.1 hs⟩

end ApiTypings.Config
