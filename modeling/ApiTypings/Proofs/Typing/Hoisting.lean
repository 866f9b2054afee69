import ApiTypings.Proofs.Typing.Layers
import ApiTypings.Typing.Schemas

/-! # Aliases for literals

Every property with literals has an alias of its own, and its member has the name of that alias as
its type. No other type mentions an alias. All aliases stand before all interfaces, in the order of
the properties.
-/

namespace ApiTypings

open TypeScript

/-- Properties with their members and with the aliases that belong to them, all in one order: a
property with literals has the next alias, any other has none. -/
inductive Hoisted : Properties → List Member → List LiteralAlias → Prop where
  | nil : Hoisted [] [] []
  | literals {key : String} {p : Property} {m : Member} {a : LiteralAlias} {ps : Properties}
      {ms : List Member} {as : List LiteralAlias} :
      p.literals ≠ [] → a.values = p.literals → m.key = key → m.type = .alias a.name →
      Hoisted ps ms as → Hoisted ((key, p) :: ps) (m :: ms) (a :: as)
  | other {key : String} {p : Property} {m : Member} {ps : Properties} {ms : List Member}
      {as : List LiteralAlias} :
      p.literals = [] → m.key = key → m.type.aliases = [] →
      Hoisted ps ms as → Hoisted ((key, p) :: ps) (m :: ms) as

theorem Hoisted.append {ps ps' : Properties} {ms ms' : List Member} {as as' : List LiteralAlias}
    (h : Hoisted ps ms as) (h' : Hoisted ps' ms' as') :
    Hoisted (ps ++ ps') (ms ++ ms') (as ++ as') := by
  induction h with
  | nil => exact h'
  | literals hp ha hk ht _ ih => exact .literals hp ha hk ht ih
  | other hp hk ht _ ih => exact .other hp hk ht ih

theorem aliases_referenceType (r : Registry) (place target : String) :
    (referenceType r place target).value.aliases = [] := by
  unfold referenceType
  rw [Warned.value_bind]
  cases (resolveReference r place target).value <;> rfl

theorem aliases_memberOf {p : Property} (h : p.literals = []) (r : Registry) (key : String)
    (owner : Option String) (required : Option (List String)) :
    (memberOf r owner required (key, p)).value.type.aliases = [] := by
  change (typeOf r key owner p).value.aliases = []
  rcases typeOf_cases key owner p with ⟨layers, target, hl⟩ | ⟨-, t, ha, ht⟩
  · rw [typeOf_of_leads key r hl, Warned.value_map, aliases_within, aliases_referenceType]
  · rw [ht, Warned.value_pure, ha h]

/-- The alias for a property of an owner, if it has literals. -/
def literalAlias? (owner : String) (x : String × Property) : Option LiteralAlias :=
  if x.2.literals = [] then none
  else some ⟨aliasName owner x.1, x.2.literals, x.2.description.getD ""⟩

theorem Schema.aliases_eq (s : Schema) :
    s.aliases = s.properties.filterMap (literalAlias? s.interfaceName) := by
  refine List.filterMap_congr fun x _ => ?_
  obtain ⟨key, p⟩ := x
  rcases p with ⟨_, _ | _⟩ | _ | _ | _ | _ | _ | _ | _ <;> rfl

/-- The aliases of a list of properties and its members name the same owner. -/
theorem hoisted_members (r : Registry) (owner : String) (required : Option (List String))
    (ps : Properties) :
    Hoisted ps (ps.map fun x => (memberOf r (some owner) required x).value)
      (ps.filterMap (literalAlias? owner)) := by
  induction ps with
  | nil => exact .nil
  | cons x ps ih =>
    obtain ⟨key, p⟩ := x
    by_cases hp : p.literals = []
    · have ha : literalAlias? owner (key, p) = none := if_pos hp
      rw [List.filterMap_cons_none ha]
      exact .other hp rfl (aliases_memberOf hp r key _ required) ih
    · have ha : literalAlias? owner (key, p) = some _ := if_neg hp
      rw [List.filterMap_cons_some ha]
      refine .literals hp rfl rfl ?_ ih
      cases p with
      | text n values => exact if_neg (by simpa [Property.literals] using hp)
      | _ => exact absurd rfl hp

theorem Schema.hoisted (r : Registry) (s : Schema) :
    Hoisted s.properties (s.interface r).value.members s.aliases := by
  have hm : (s.interface r).value.members =
      s.properties.map fun x => (memberOf r (some s.interfaceName) s.required x).value :=
    Warned.value_each _ _
  rw [hm, s.aliases_eq]
  exact hoisted_members r s.interfaceName s.required s.properties

theorem hoisted_flatMap (r : Registry) (schemas : List Schema) :
    Hoisted (schemas.flatMap Schema.properties)
      (schemas.flatMap fun s => (s.interface r).value.members)
      (schemas.flatMap Schema.aliases) := by
  induction schemas with
  | nil => exact .nil
  | cons s schemas ih => exact (s.hoisted r).append ih

/-- The document has all aliases and then all interfaces, one for each schema with a member for each
property. The aliases are those of the properties with literals, one for each in order: the alias
is the union of these literals, the type of the member is its name, and no other member has an
alias anywhere in its type. -/
theorem declareSchemas_hoisted (r : Registry) (schemas : List Schema) :
    let d := (declareSchemas r schemas).value
    d.text = String.join (d.aliases.map fun a => commentLine 4 a.comment ++ "    type " ++ a.name ++
        " = " ++ literalUnion a.values ++ ";\n\n") ++ String.join (d.interfaces.map Interface.text) ∧
      List.Forall₂ (fun s i => i.name = s.interfaceName ∧
        i.members.map Member.key = s.properties.map Prod.fst) schemas d.interfaces ∧
      Hoisted (schemas.flatMap Schema.properties) (d.interfaces.flatMap Interface.members)
        d.aliases := by
  intro d
  have hi : d.interfaces = schemas.map fun s => (s.interface r).value := Warned.value_each _ _
  refine ⟨rfl, ?_, ?_⟩
  · rw [hi, List.forall₂_map_right_iff, List.forall₂_same]
    refine fun s _ => ⟨rfl, ?_⟩
    simp only [Schema.interface, Warned.value_bind, Warned.value_each, Warned.value_pure,
      List.map_map]
    rfl
  · rw [hi, List.flatMap_map]
    exact hoisted_flatMap r schemas

end ApiTypings
