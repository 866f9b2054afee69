import ApiTypings.Proofs.Generation.Conversion
import ApiTypings.Proofs.Template.Reading
import ApiTypings.Proofs.TypeScript.Literals

/-! # Verbatim documents

The built-in templates put fixed text around what they are given and change nothing in it. So the
documents of a run hold its declarations one after the other as they are, whatever characters
stand in them.
-/

namespace ApiTypings

open TypeScript

namespace Templates

/-! ## Sources -/

/-- The lines that open a namespace below `Api`. -/
def namespaceHead (name : String) : String :=
  "declare namespace Api \x7b\n  namespace " ++ name ++ " \x7b\n"

def namespaceTail : String := "  \x7d\n\x7d\n"

/-- The text that a template with one namespace is read from. -/
def namespaceSource (name : String) : String :=
  namespaceHead name ++ "\x7b\x7b declarations \x7d\x7d" ++ namespaceTail

def servicesSource : String :=
  importStart ++ "\"" ++ "\x7b\x7b request_import \x7d\x7d" ++ "\";\n\n" ++
    "\x7b\x7b functions \x7d\x7d"

theorem isWritten_namespaceSource {name : String}
    (h : Template.isPlain (namespaceHead name).toList = true) :
    Template.IsWritten (namespaceTemplate name).parts (namespaceSource name).toList := by
  have hs : (namespaceSource name).toList = (namespaceHead name).toList ++
      (Template.place "declarations".toList ++ namespaceTail.toList) := by
    rw [namespaceSource, String.toList_append, String.toList_append, List.append_assoc]
    rfl
  have hhead : namespaceHead name ≠ "" := fun he =>
    absurd (String.append_eq_empty_iff.mp he).2 (by decide)
  rw [hs]
  exact .placeAfter hhead h (by decide) (.ending (by decide) (by decide))

theorem isWritten_servicesSource :
    Template.IsWritten builtIn.services.parts servicesSource.toList := by
  have hs : servicesSource.toList = (importStart ++ "\"").toList ++
      (Template.place "request_import".toList ++ ("\";\n\n".toList ++
        (Template.place "functions".toList ++ []))) := by
    rw [servicesSource, String.toList_append, String.toList_append, String.toList_append,
      List.append_assoc, List.append_assoc]
    rfl
  rw [hs]
  exact .placeAfter (by decide) (by decide) (by decide)
    (.placeAfter (by decide) (by decide) (by decide) .nil)

/-! ## Rendering -/

theorem render_namespaceTemplate (name declarations : String) :
    (namespaceTemplate name).render [("declarations", declarations)] =
      .ok (namespaceHead name ++ declarations ++ namespaceTail) := by
  have hr : renderParts [("declarations", declarations)] (namespaceTemplate name).parts =
      .ok (namespaceHead name ++ (declarations ++ (namespaceTail ++ ""))) :=
    Template.renderParts_text (Template.renderParts_variable
      (Template.renderParts_text Template.renderParts_nil _) rfl) _
  rwa [String.append_empty, ← String.append_assoc] at hr

end Templates

open Templates

theorem Declarations.render_builtIn (d : Declarations) (requestImport : String) :
    d.render .builtIn requestImport = .ok
      ⟨namespaceHead "Schema" ++ d.schemas.text ++ namespaceTail,
        namespaceHead "Paths" ++ d.pathsText ++ namespaceTail,
        importStart ++ literal requestImport ++ ";\n\n" ++ d.functionsText⟩ :=
  d.render_eq_ok_iff.mpr ⟨render_namespaceTemplate .., render_namespaceTemplate ..,
    renderServices_builtIn ..⟩

/-- The built-in templates are read from their sources and put what they are given, as it is,
between fixed lines. A run with them makes its documents in this way of the texts of its
declarations, and fails only where the conversion fails. -/
theorem documents_verbatim :
    (Template.parse (namespaceSource "Schema") = .ok builtIn.schema ∧
      Template.parse (namespaceSource "Paths") = .ok builtIn.paths ∧
      Template.parse servicesSource = .ok builtIn.services) ∧
    (∀ body, builtIn.renderSchema body = .ok (namespaceHead "Schema" ++ body ++ namespaceTail) ∧
      builtIn.renderPaths body = .ok (namespaceHead "Paths" ++ body ++ namespaceTail)) ∧
    (∀ functions requestImport, builtIn.renderServices functions requestImport =
      .ok (importStart ++ literal requestImport ++ ";\n\n" ++ functions)) ∧
    ∀ c source, generate c .builtIn source = do
      let d ← convert c.rules source
      let aliases := String.join (d.schemas.aliases.map LiteralAlias.text)
      let interfaces := String.join (d.schemas.interfaces.map Interface.text)
      let types := String.join (d.types.map EndpointTypes.text)
      let functions := String.join (d.functions.map RequestFunction.text)
      return (⟨namespaceHead "Schema" ++ (aliases ++ interfaces) ++ namespaceTail,
        namespaceHead "Paths" ++ types ++ namespaceTail,
        importStart ++ literal c.requestImport ++ ";\n\n" ++ functions⟩, d.report) := by
  refine ⟨⟨?_, ?_, ?_⟩, fun body => ⟨?_, ?_⟩, renderServices_builtIn, fun c source => ?_⟩
  · exact Template.parse_of_isWritten (isWritten_namespaceSource (by decide))
  · exact Template.parse_of_isWritten (isWritten_namespaceSource (by decide))
  · exact Template.parse_of_isWritten isWritten_servicesSource
  · exact render_namespaceTemplate "Schema" body
  · exact render_namespaceTemplate "Paths" body
  · refine congrArg (convert c.rules source >>= ·) (funext fun d => ?_)
    rw [d.render_builtIn]
    rfl

end ApiTypings
