import ApiTypings.Proofs.Typing.Qualification

/-! # Layers of types

The type of a definition is made of arrays and maps around one end. Either the definition leads to a
reference, and the end is the type of that reference, or the type depends on no registry at all.
-/

namespace ApiTypings

open TypeScript

/-! ## Layers -/

inductive Layer where
  | array
  | map
deriving DecidableEq, Repr

def Layer.around : Layer → TypeExpr → TypeExpr
  | .array => .array
  | .map => .map

/-- A type with layers around it, the outermost first. -/
def within (layers : List Layer) (t : TypeExpr) : TypeExpr := layers.foldr Layer.around t

def TypeScript.TypeExpr.aliases : TypeExpr → List String
  | .alias name => [name]
  | .array element => element.aliases
  | .map values => values.aliases
  | _ => []

theorem aliases_within (layers : List Layer) (t : TypeExpr) :
    (within layers t).aliases = t.aliases := by
  induction layers with
  | nil => rfl
  | cons layer layers ih => cases layer <;> exact ih

namespace Property

/-- The literals of a definition, none if it does not list any. -/
def literals : Property → List String
  | .text _ values => values
  | _ => []

/-! ## The way to a reference -/

/-- Items that are an array or a reference. -/
def IsFollowed : Property → Prop
  | .array .. | .reference .. => True
  | _ => False

/-- From an array one comes to its items while these are an array or a reference, and from a map
to its values if these declare a type. A reference is the end. -/
inductive Leads : Property → List Layer → String → Prop where
  | reference (n : Notes) (target : String) : Leads (.reference n target) [] target
  | items {n : Notes} {p : Property} {layers : List Layer} {target : String} :
      p.IsFollowed → Leads p layers target → Leads (.array n (some p)) (.array :: layers) target
  | values {n : Notes} {p : Property} {ps : Properties} {required : Option (List String)}
      {layers : List Layer} {target : String} :
      p.hasType = true → Leads p layers target →
      Leads (.object n (some p) ps required) (.map :: layers) target

theorem itemsReference?_of_isFollowed {p : Property} (h : p.IsFollowed) :
    itemsReference? (some p) = p.lastReference? := by
  cases p with
  | array n items => simp only [itemsReference?, lastReference?]
  | reference n target => simp only [itemsReference?, lastReference?]
  | _ => exact h.elim

theorem Leads.lastReference? {p : Property} {layers : List Layer} {target : String}
    (h : p.Leads layers target) : p.lastReference? = some target := by
  induction h with
  | reference n target => simp only [Property.lastReference?]
  | items hf _ ih => rw [Property.lastReference?, itemsReference?_of_isFollowed hf, ih]
  | values ht _ ih => rw [Property.lastReference?, if_pos ht, ih]

end Property

section Types

variable (key : String)

theorem elementType_of_isFollowed (r : Registry) {p : Property} (h : p.IsFollowed)
    (owner : Option String) : elementType r key (some p) = typeOf r key owner p := by
  cases p with
  | array n items => simp only [elementType, typeOf]
  | reference n target => simp only [elementType, typeOf]
  | _ => exact h.elim

theorem typeOf_of_leads (r : Registry) {p : Property} {layers : List Layer} {target : String}
    (h : p.Leads layers target) (owner : Option String) :
    typeOf r key owner p = within layers <$> referenceType r key target := by
  induction h generalizing owner with
  | reference n target =>
    rw [typeOf]
    exact (id_map _).symm
  | items hf _ ih =>
    rw [typeOf, elementType_of_isFollowed key r hf none, ih, Functor.map_map]
    rfl
  | values ht _ ih =>
    rw [typeOf, if_pos ht, ih, Functor.map_map]
    rfl

/-! ## Types without a reference -/

theorem items_pure_of_not_isFollowed {items : Option Property}
    (h : ∀ p ∈ items, ¬ p.IsFollowed) :
    itemsReference? items = none ∧
      ∃ t : TypeExpr, t.aliases = [] ∧ ∀ r key, elementType r key items = pure t := by
  unfold itemsReference? elementType
  match items with
  | some (.array ..) | some (.reference ..) => exact absurd trivial (h _ rfl)
  | none | some (.text ..) | some (.number _) | some (.integer _) | some (.boolean _)
  | some (.object ..) | some (.unknown _) => exact ⟨rfl, _, rfl, fun _ _ => rfl⟩

/-- A definition that does not lead to a reference has a type that no registry changes. Without an
owner there are no aliases in it. -/
theorem leads_or_pure : ∀ p : Property, (∃ layers target, p.Leads layers target) ∨
    p.lastReference? = none ∧
      ∃ t : TypeExpr, t.aliases = [] ∧ ∀ r key, typeOf r key none p = pure t
  | .array n items => by
    -- Items that are followed have a type as they have on their own, others by their kind alone.
    by_cases hf : ∃ p ∈ items, p.IsFollowed
    · obtain ⟨p, rfl, hf⟩ := hf
      rcases leads_or_pure p with ⟨layers, target, hl⟩ | ⟨hr, t, ha, ht⟩
      · exact .inl ⟨_, _, .items hf hl⟩
      · refine .inr ⟨?_, .array t, ha, fun r key => ?_⟩
        · rw [Property.lastReference?, Property.itemsReference?_of_isFollowed hf, hr]
        · rw [typeOf, elementType_of_isFollowed key r hf none, ht]
          rfl
    · have hn : ∀ p ∈ items, ¬ p.IsFollowed := fun p hp h => hf ⟨p, hp, h⟩
      obtain ⟨hr, t, ha, ht⟩ := items_pure_of_not_isFollowed hn
      refine .inr ⟨?_, .array t, ha, fun r key => ?_⟩
      · rw [Property.lastReference?, hr]
      · rw [typeOf, ht]
        rfl
  | .object n (some values) ps required => by
    by_cases hv : values.hasType = true
    · rcases leads_or_pure values with ⟨layers, target, hl⟩ | ⟨hr, t, ha, ht⟩
      · exact .inl ⟨_, _, .values hv hl⟩
      · refine .inr ⟨?_, .map t, ha, fun r key => ?_⟩
        · rw [Property.lastReference?, if_pos hv, hr]
        · rw [typeOf, if_pos hv, ht]
          rfl
    · refine .inr ⟨?_, .map .object, rfl, fun r key => ?_⟩
      · rw [Property.lastReference?, if_neg hv]
      · rw [typeOf, if_neg hv]
  | .reference n target => .inl ⟨[], target, .reference n target⟩
  | .text _ [] | .text _ (_ :: _) | .number _ | .integer _ | .boolean _ | .object _ none _ _
  | .unknown _ => .inr ⟨rfl, _, rfl, fun _ _ => rfl⟩

theorem typeOf_cases (owner : Option String) (p : Property) :
    (∃ layers target, p.Leads layers target) ∨
      p.lastReference? = none ∧
        ∃ t : TypeExpr, (p.literals = [] → t.aliases = []) ∧ ∀ r, typeOf r key owner p = pure t := by
  have ho : (∃ n values, p = .text n values) ∨ ∀ r, typeOf r key owner p = typeOf r key none p := by
    cases p with
    | text n values => exact .inl ⟨n, values, rfl⟩
    | object n additional ps required =>
      refine .inr fun r => ?_
      cases additional <;> simp only [typeOf]
    | _ => exact .inr fun r => by simp only [typeOf]
  rcases ho with ⟨n, values, rfl⟩ | ho
  · refine .inr ⟨rfl, textType key owner values, fun hv => ?_, fun r => rfl⟩
    obtain rfl : values = [] := hv
    rfl
  · rcases leads_or_pure p with hl | ⟨hr, t, ha, ht⟩
    · exact .inl hl
    · exact .inr ⟨hr, t, fun _ => ha, fun r => by rw [ho, ht]⟩

theorem Property.lastReference?_eq_some_iff {p : Property} {target : String} :
    p.lastReference? = some target ↔ ∃ layers, p.Leads layers target := by
  constructor
  · intro h
    rcases leads_or_pure p with ⟨layers, target', hl⟩ | ⟨hr, -⟩
    · obtain rfl := Option.some.inj (hl.lastReference?.symm.trans h)
      exact ⟨layers, hl⟩
    · rw [hr] at h
      cases h
  · rintro ⟨layers, hl⟩
    exact hl.lastReference?

end Types

end ApiTypings
