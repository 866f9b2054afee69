/-! # Templates

A template is text with places for variables. Rendering puts the values in and leaves everything
else, also inside the values, as it is. This is the part of the template language that the built-in
templates are written in, with includes, which are not followed: they always fail.
-/

namespace ApiTypings

inductive TemplatePart where
  | text (s : String)
  | variable (name : String)
  /-- The name of another template that should stand here. -/
  | inclusion (name : String)
deriving DecidableEq, Repr

inductive TemplateError where
  | malformed
  | unknownVariable (name : String)
  | missingTemplate (name : String)
deriving DecidableEq, Repr

def TemplateError.message : TemplateError → String
  | .malformed => "malformed template"
  | .unknownVariable name => "unknown variable '" ++ name ++ "'"
  | .missingTemplate name => "missing template '" ++ name ++ "'"

structure Template where
  parts : List TemplatePart
deriving DecidableEq, Repr

abbrev Bindings := List (String × String)

def TemplatePart.render (bindings : Bindings) : TemplatePart → Except TemplateError String
  | .text s => .ok s
  | .variable name =>
    match bindings.lookup name with
    | some value => .ok value
    | none => .error (.unknownVariable name)
  | .inclusion name => .error (.missingTemplate name)

def renderParts (bindings : Bindings) : List TemplatePart → Except TemplateError String
  | [] => .ok ""
  | p :: rest => do
    let s ← p.render bindings
    let t ← renderParts bindings rest
    return s ++ t

def Template.render (t : Template) (bindings : Bindings) : Except TemplateError String :=
  renderParts bindings t.parts

end ApiTypings
