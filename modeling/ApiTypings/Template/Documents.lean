import ApiTypings.File.System
import ApiTypings.Template.Reader
import ApiTypings.TypeScript.Literal

/-! # Document templates

A run writes three documents: the types of the schemas, the types of the endpoints, and the
functions. Each has a template, built in or read from a directory. Only loading and rendering
templates depends on the part of the template language that is read: a run works with any renderer.
-/

namespace ApiTypings

structure Templates where
  schema : Template
  paths : Template
  services : Template
deriving DecidableEq, Repr

def schemaFile : String := "schema.d.ts"

def pathsFile : String := "paths.d.ts"

def servicesFile : String := "services.ts"

namespace Templates

/-- A namespace below `Api` around the declarations. -/
def namespaceTemplate (name : String) : Template :=
  ⟨[.text ("declare namespace Api \x7b\n  namespace " ++ name ++ " \x7b\n"),
    .variable "declarations",
    .text "  \x7d\n\x7d\n"]⟩

def builtIn : Templates where
  schema := namespaceTemplate "Schema"
  paths := namespaceTemplate "Paths"
  services :=
    ⟨[.text ("/** Tip: \x60request\x60 is not generated, " ++
        "the consuming project must provide it */\nimport request from \""),
      .variable "request_import",
      .text "\";\n\n",
      .variable "functions"]⟩

/-! ## Templates from a directory -/

inductive LoadError where
  | file (e : FileError)
  | template (e : TemplateError)
deriving DecidableEq, Repr

/-- The template for a document in a directory, or the one built in if there is none. -/
def override (fs : FileSystem) (dir : Path) (file : String) (builtIn : Template) :
    Except LoadError Template :=
  let path := dir.join (file ++ ".tera")
  match fs.holds path with
  | .error e => .error (.file e)
  | .ok false => .ok builtIn
  | .ok true =>
    match fs.read path with
    | .error e => .error (.file e)
    | .ok text => (Template.parse text).mapError .template

def load (fs : FileSystem) : Option Path → Except LoadError Templates
  | none => .ok builtIn
  | some dir => do
    let schema ← override fs dir schemaFile builtIn.schema
    let paths ← override fs dir pathsFile builtIn.paths
    let services ← override fs dir servicesFile builtIn.services
    return ⟨schema, paths, services⟩

/-! ## Rendering -/

variable (t : Templates)

def renderSchema (declarations : String) : Except TemplateError String :=
  t.schema.render [("declarations", declarations)]

def renderPaths (declarations : String) : Except TemplateError String :=
  t.paths.render [("declarations", declarations)]

def renderServices (functions requestImport : String) : Except TemplateError String :=
  t.services.render
    [("functions", functions), ("request_import", TypeScript.escaped requestImport)]

end Templates

/-- What makes the documents of a run out of their bodies. -/
structure Renderer where
  schema (declarations : String) : Except TemplateError String
  paths (declarations : String) : Except TemplateError String
  services (functions requestImport : String) : Except TemplateError String

def Templates.renderer (t : Templates) : Renderer :=
  ⟨t.renderSchema, t.renderPaths, t.renderServices⟩

def Renderer.builtIn : Renderer := Templates.builtIn.renderer

end ApiTypings
