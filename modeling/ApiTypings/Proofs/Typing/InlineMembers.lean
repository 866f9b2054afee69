import ApiTypings.Proofs.Typing.Hoisting
import ApiTypings.Proofs.Typing.Members

/-! # Inline members

The properties of an inline body are written as the properties of a schema are, line by line and
with the same marks, behind a wider margin. Only where the interface names an alias do the inline
members spell out its literals.
-/

namespace ApiTypings

namespace TypeScript

/-! ## Lines -/

def Member.lines (m : Member) : List String :=
  ["/** " ++ commentText m.comment ++ " */",
    memberName m.key ++ (if m.optional then "?" else "") ++ ": " ++ m.type.text ++ ";"]

def indented (margin : ℕ) (lines : List String) : String :=
  String.join (lines.map fun line => spaces margin ++ line ++ "\n")

theorem indented_append (margin : ℕ) (lines lines' : List String) :
    indented margin (lines ++ lines') = indented margin lines ++ indented margin lines' := by
  simp [indented]

theorem Member.text_eq (margin : ℕ) (m : Member) : m.text margin = indented margin m.lines := by
  have hend : " */" ++ "\n" = " */\n" := by decide +kernel
  have hend' : ";" ++ "\n" = ";\n" := by decide +kernel
  simp only [Member.text, commentLine, indented, lines, List.map_cons, List.map_nil,
    String.join_cons, String.join_nil, String.append_empty, String.append_assoc, hend, hend']

theorem membersText_eq (margin : ℕ) (ms : List Member) :
    membersText margin ms = indented margin (ms.flatMap Member.lines) := by
  induction ms with
  | nil => rfl
  | cons m ms ih =>
    rw [List.flatMap_cons, indented_append, ← ih, ← Member.text_eq, membersText, membersText,
      List.map_cons, String.join_cons]

theorem Extension.text_of_members {name start : String}
    (h : "      /** " ++ name ++ " */\n      interface " ++ name ++ " \x7b\n" = start)
    (ms : List Member) :
    (Extension.mk none ms).text name =
      start ++ indented 8 (ms.flatMap Member.lines) ++ "      \x7d\n" := by
  rw [Extension.text_none, h, membersText_eq]

end TypeScript

open TypeScript

/-! ## Members beside the members of an interface -/

/-- The members of an interface, the aliases for them and the members in which these aliases are
spelled out, all in one order. Any other member is the same in both. -/
inductive SpelledOut : List Member → List LiteralAlias → List Member → Prop where
  | nil : SpelledOut [] [] []
  | alias {m : Member} {a : LiteralAlias} {ms ms' : List Member} {as : List LiteralAlias} :
      m.type = .alias a.name → SpelledOut ms as ms' →
      SpelledOut (m :: ms) (a :: as) ({ m with type := .literals a.values } :: ms')
  | other {m : Member} {ms ms' : List Member} {as : List LiteralAlias} :
      m.type.aliases = [] → SpelledOut ms as ms' → SpelledOut (m :: ms) as (m :: ms')

/-- A member stands without a mark exactly if its property is not nullable and no list of required
names leaves it out. -/
def Marked (required : Option (List String)) (x : String × Property) (m : Member) : Prop :=
  m.optional = false ↔ x.2.nullable = false ∧ ∀ keys, required = some keys → x.1 ∈ keys

theorem isRequired_iff {required : Option (List String)} {key : String} {p : Property} :
    isRequired required key p = true ↔
      p.nullable = false ∧ ∀ keys, required = some keys → key ∈ keys := by
  cases required <;> simp [isRequired]

section Members

variable (r : Registry) (owner : String) (required : Option (List String))

theorem marked_memberOf (owner : Option String) (x : String × Property) :
    Marked required x (memberOf r owner required x).value := by
  change (!isRequired required x.1 x.2) = false ↔ _
  rw [Bool.not_eq_false', isRequired_iff]

/-- Only literals have another type under an owner. -/
theorem typeOf_of_literals_eq_nil {p : Property} (h : p.literals = []) (key : String)
    (owner : Option String) : typeOf r key owner p = typeOf r key none p := by
  cases p with
  | text n values =>
    obtain rfl : values = [] := h
    rfl
  | object n additional ps required => cases additional <;> simp only [typeOf]
  | _ => simp only [typeOf]

theorem memberOf_of_literals_eq_nil {key : String} {p : Property} (h : p.literals = []) :
    (memberOf r none required (key, p)).value =
      (memberOf r (some owner) required (key, p)).value := by
  change Member.mk _ _ (typeOf r key none p).value _ = Member.mk _ _ (typeOf r key _ p).value _
  rw [typeOf_of_literals_eq_nil r h key (some owner)]

theorem spelledOut_members (ps : Properties) :
    SpelledOut (ps.map fun x => (memberOf r (some owner) required x).value)
      (ps.filterMap (literalAlias? owner))
      (ps.map fun x => (memberOf r none required x).value) := by
  induction ps with
  | nil => exact .nil
  | cons x ps ih =>
    obtain ⟨key, p⟩ := x
    by_cases hp : p.literals = []
    · have ha : literalAlias? owner (key, p) = none := if_pos hp
      rw [List.filterMap_cons_none ha, List.map_cons, List.map_cons,
        memberOf_of_literals_eq_nil r owner required hp]
      exact .other (aliases_memberOf hp r key _ required) ih
    · have ha : literalAlias? owner (key, p) = some _ := if_neg hp
      rw [List.filterMap_cons_some ha]
      cases p with
      | text n values =>
        cases values with
        | nil => exact absurd rfl hp
        | cons v values => exact .alias rfl ih
      | _ => exact absurd rfl hp

end Members

/-! ## Interfaces and inline bodies -/

def Schema.inlineBody (s : Schema) (n : Notes) (additional : Option Property) : Property :=
  .object n additional s.properties s.required

section Documents

variable (r : Registry) (s : Schema) (n : Notes) (additional : Option Property)

theorem Schema.members_interface :
    (s.interface r).value.members =
      s.properties.map fun x => (memberOf r (some s.interfaceName) s.required x).value :=
  Warned.value_each _ _

theorem value_inlineMembers_inlineBody :
    (inlineMembers r (s.inlineBody n additional)).value =
      s.properties.map fun x => (memberOf r none s.required x).value :=
  Warned.value_each _ _

theorem exists_requestType_inlineBody (e : Endpoint) (fields : List Parameter) :
    ∃ params, params.map Member.key = e.pathNames ++ e.queryNames ∧
      (requestType r { e with
        body := some ⟨"application/json", some (s.inlineBody n additional), fields⟩ }).value =
        ⟨none, (inlineMembers r (s.inlineBody n additional)).value ++ params⟩ := by
  refine ⟨(parameterMembers r ((e.parameters.map Parameters.path).getD [])).value ++
    (parameterMembers r ((e.parameters.map Parameters.query).getD [])).value, ?_, ?_⟩
  · rw [List.map_append, keys_parameterMembers, keys_parameterMembers]
    rfl
  · rw [← List.append_assoc]
    cases e.parameters <;>
      simp [requestType, bodyExtension, Body.isJson, extensionOf, extendedSchema,
        Schema.inlineBody, Property.target?]

/-- The members of an interface and of an inline body with its properties are written in the same
lines but for the margin, and but for the aliases of the interface, which are spelled out in the
body as they are declared. In both a member has no mark exactly if its property is not nullable and
the list of required names is missing or has its key. -/
theorem inline_members_spelledOut (e : Endpoint) (fields : List Parameter) :
    ∃ members inline params,
      Hoisted s.properties members s.aliases ∧
      SpelledOut members s.aliases inline ∧
      List.Forall₂ (Marked s.required) s.properties members ∧
      params.map Member.key = e.pathNames ++ e.queryNames ∧
      (s.interface r).value.text = commentLine 4 (s.description.getD "") ++ "    interface " ++
        s.interfaceName ++ " \x7b\n" ++ indented 6 (members.flatMap Member.lines) ++
        "    \x7d\n\n" ∧
      (responseType r (some (s.inlineBody n additional))).value.text =
        "      /** Response */\n      interface Response \x7b\n" ++
          indented 8 (inline.flatMap Member.lines) ++ "      \x7d\n" ∧
      ((requestType r { e with
          body := some ⟨"application/json", some (s.inlineBody n additional), fields⟩ }).value.text
          "Request") =
        "      /** Request */\n      interface Request \x7b\n" ++
          indented 8 ((inline ++ params).flatMap Member.lines) ++ "      \x7d\n" ∧
      ∀ a ∈ s.aliases, a.text = commentLine 4 a.comment ++ "    type " ++ a.name ++ " = " ++
        (TypeExpr.literals a.values).text ++ ";\n\n" := by
  obtain ⟨params, hk, hr⟩ := exists_requestType_inlineBody r s n additional e fields
  refine ⟨(s.interface r).value.members, (inlineMembers r (s.inlineBody n additional)).value,
    params, s.hoisted r, ?_, ?_, hk, ?_, ?_, ?_, fun a _ => rfl⟩
  · rw [s.members_interface, s.aliases_eq, value_inlineMembers_inlineBody]
    exact spelledOut_members r s.interfaceName s.required s.properties
  · rw [s.members_interface, List.forall₂_map_right_iff, List.forall₂_same]
    intro x _
    exact marked_memberOf r s.required _ x
  · exact congrArg (fun lines => commentLine 4 (s.description.getD "") ++ "    interface " ++
      s.interfaceName ++ " \x7b\n" ++ lines ++ "    \x7d\n\n") (membersText_eq 6 _)
  · exact Extension.text_of_members (by decide +kernel) _
  · exact (congrArg (Extension.text "Request") hr).trans
      (Extension.text_of_members (by decide +kernel) _)

end Documents

end ApiTypings
