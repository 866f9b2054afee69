import ApiTypings.Config.Basic
import ApiTypings.Yaml.Mapping
import ApiTypings.Yaml.Scalar

/-! # Written configurations

A configuration is written with all its members, in order. When it is read, members left out
take their defaults and unknown ones are ignored.
-/

namespace ApiTypings.Config

open Yaml

/-! ## Writing -/

def textValue (s : String) : List Char := writeScalar s.toList

def optionalValue : Option String → List Char
  | some s => textValue s
  | none => "null".toList

def flagValue (b : Bool) : List Char := if b then "true".toList else "false".toList

def entries (c : Config) : List (String × List Char) :=
  [("share_id", optionalValue c.shareId),
    ("base_url", textValue c.baseUrl.text),
    ("output_dir", textValue c.outputDir.text),
    ("request_import", textValue c.requestImport),
    ("success_response", textValue c.successResponse),
    ("strict", flagValue c.strict),
    ("template_dir", optionalValue (c.templateDir.map Path.text))]

def text (c : Config) : String :=
  String.ofList (c.entries.flatMap fun (key, value) => writeEntry key value)

/-! ## Reading -/

def members : List String :=
  ["share_id", "base_url", "output_dir", "request_import", "success_response", "strict",
    "template_dir"]

def asOptional : Value → Option (Option String)
  | .plain s => some (if isNull s then none else some s)
  | .quoted s => some (some s)
  | .collection => none

def asFlag : Value → Option Bool
  | .plain s => truthValue? s
  | _ => none

variable {α : Type}

/-- A member, or its default if there is no such entry. -/
def member (es : Entries) (key : String) (default : α) (read : Value → Option α) : Option α :=
  match es.lookup key with
  | some v => read v
  | none => some default

def ofEntries (es : Entries) : Option Config :=
  if (es.map Prod.fst |>.filter members.contains).Nodup then do
    let shareId ← member es "share_id" default.shareId asOptional
    let baseUrl ← member es "base_url" default.baseUrl fun v => v.text?.bind BaseUrl.parse?
    let outputDir ← member es "output_dir" default.outputDir fun v => v.text?.map Path.mk
    let requestImport ← member es "request_import" default.requestImport Value.text?
    let successResponse ← member es "success_response" default.successResponse Value.text?
    let strict ← member es "strict" default.strict asFlag
    let templateDir ← member es "template_dir" default.templateDir fun v =>
      (asOptional v).map (Option.map Path.mk)
    return { shareId, baseUrl, outputDir, requestImport, successResponse, strict, templateDir }
  else none

/-- The configuration in a text, `none` if it is none. -/
def parse? (text : String) : Option Config := (Yaml.parse text).bind ofEntries

end ApiTypings.Config
