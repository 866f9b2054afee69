import ApiTypings.Config.Basic
import ApiTypings.Generation.Convert
import ApiTypings.Template.Documents

/-! # Generated documents

The declarations of a run, made into documents by a renderer, and a report on the run.
-/

namespace ApiTypings

structure Documents where
  schema : String
  paths : String
  services : String
deriving DecidableEq, Repr

structure Report where
  /-- The number of schemas declared. -/
  schemas : Nat
  /-- The number of endpoints in both documents. -/
  endpoints : Nat
  skipped : List SkippedEndpoint
deriving DecidableEq, Repr

namespace Declarations

variable (d : Declarations)

def pathsText : String := String.join (d.types.map TypeScript.EndpointTypes.text)

def functionsText : String := String.join (d.functions.map TypeScript.RequestFunction.text)

def report : Report := ⟨d.schemaCount, d.types.length, d.skipped⟩

def render (t : Renderer) (requestImport : String) : Except TemplateError Documents := do
  let schema ← t.schema d.schemas.text
  let paths ← t.paths d.pathsText
  let services ← t.services d.functionsText requestImport
  return ⟨schema, paths, services⟩

end Declarations

def Config.rules (c : Config) : ConversionRules := ⟨c.successResponse, c.strict⟩

def generate (c : Config) (t : Renderer) (source : Source) : Run (Documents × Report) := do
  let declarations ← convert c.rules source
  let documents ← Run.ofExcept ((declarations.render t c.requestImport).mapError .template)
  return (documents, declarations.report)

end ApiTypings
