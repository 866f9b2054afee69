import Mathlib
import ApiTypings.Decode.Schema
import ApiTypings.Typing.Schemas

/-! # References and declarations

A reference resolves to the name of the last schema with the id in it, while the interface of a
schema is declared under its title. The document therefore declares what a reference resolves to
exactly if the title of some schema makes the same type name, as it does for a schema that has no
title of its own.
-/

namespace ApiTypings

open TypeScript

namespace Registry

theorem entries_foldl_register (schemas : List Schema) (r : Registry) :
    (schemas.foldl (fun r s => r.register s.id s.name) r).entries =
      (schemas.map fun s => (s.id, s.name)).reverse ++ r.entries := by
  induction schemas generalizing r with
  | nil => rfl
  | cons s schemas ih => rw [List.foldl_cons, ih]; simp [register]

theorem entries_ofSchemas (schemas : List Schema) :
    (ofSchemas schemas).entries = (schemas.map fun s => (s.id, s.name)).reverse := by
  rw [ofSchemas, entries_foldl_register]
  exact List.append_nil _

/-- The name for an id is that of the last schema with the id. -/
theorem name?_ofSchemas_eq_some_iff {schemas : List Schema} {id name : String} :
    (ofSchemas schemas).name? id = some name ↔
      ∃ before s after, schemas = before ++ s :: after ∧ s.id = id ∧ s.name = name ∧
        ∀ s' ∈ after, s'.id ≠ id := by
  rw [name?, entries_ofSchemas, ← List.map_reverse, List.lookup_eq_some_iff]
  constructor
  · rintro ⟨l₁, l₂, hl, hn⟩
    obtain ⟨after, rest, hs, rfl, ht⟩ := List.map_eq_append_iff.mp hl
    obtain ⟨s, before, rfl, he, rfl⟩ := List.map_eq_cons_iff.mp ht
    obtain ⟨rfl, rfl⟩ := Prod.mk.inj he
    refine ⟨before.reverse, s, after.reverse, ?_, rfl, rfl, fun s' hs' => ?_⟩
    · simpa using congrArg List.reverse hs
    · have := hn _ (List.mem_map.mpr ⟨s', List.mem_reverse.mp hs', rfl⟩)
      exact fun h => by simp [h] at this
  · rintro ⟨before, s, after, rfl, rfl, rfl, hn⟩
    refine ⟨after.reverse.map fun s => (s.id, s.name), before.reverse.map fun s => (s.id, s.name),
      by simp, fun p hp => ?_⟩
    obtain ⟨s', hs', rfl⟩ := List.mem_map.mp hp
    simpa using (hn s' (List.mem_reverse.mp hs')).symm

end Registry

variable {r : Registry} {schemas : List Schema} {place reference name : String}

theorem value_resolveReference_eq_some_iff :
    (resolveReference r place reference).value = some name ↔
      ∃ n, r.resolve? reference = some n ∧ n ≠ "" ∧ typeName n = name := by
  unfold resolveReference
  cases r.resolve? reference with
  | none => simp
  | some n => by_cases hn : n = "" <;> simp [hn, Option.filter]

def declaredNames (schemas : List Schema) : List String :=
  (declareSchemas (.ofSchemas schemas) schemas).value.interfaces.map Interface.name

@[simp] theorem Schema.name_interface (r : Registry) (s : Schema) :
    (s.interface r).value.name = s.interfaceName := rfl

@[simp] theorem declaredNames_eq (schemas : List Schema) :
    declaredNames schemas = schemas.map Schema.interfaceName := by
  simp [declaredNames, declareSchemas, Function.comp_def]

/-- A schema without a title of its own is declared under its name. -/
theorem SchemaDraft.title_schema {d : SchemaDraft} {s : Schema} (h : d.schema = .ok s)
    (ht : d.definition.title.getD "" = "") : s.title = s.name := by
  unfold SchemaDraft.schema at h
  cases hi : d.id with
  | none => simp [hi, demand, bind, Except.bind] at h
  | some id =>
    simp only [hi, demand, bind, Except.bind, pure, Except.pure, Except.ok.injEq] at h
    subst h
    cases hd : d.definition.title with
    | none => simp
    | some t =>
      have : t = "" := by simpa [hd] using ht
      simp [this, Option.filter]

/-- A reference stands for the last schema with its id. The name it resolves to is declared
exactly if the title of some schema makes the same type name, in particular if the title of that
last schema does or if it has none. -/
theorem resolveReference_declared_iff
    (h : (resolveReference (.ofSchemas schemas) place reference).value = some name) :
    ∃ before s after, schemas = before ++ s :: after ∧ s.id = referenceId reference ∧
      (∀ s' ∈ after, s'.id ≠ referenceId reference) ∧ name = typeName s.name ∧
      (name ∈ declaredNames schemas ↔ ∃ s' ∈ schemas, typeName s'.title = typeName s.name) ∧
      (typeName s.title = typeName s.name → name ∈ declaredNames schemas) ∧
      ∀ d : SchemaDraft, d.schema = .ok s → d.definition.title.getD "" = "" →
        name ∈ declaredNames schemas := by
  obtain ⟨n, hn, -, rfl⟩ := value_resolveReference_eq_some_iff.mp h
  obtain ⟨before, s, after, hs, hi, rfl, ha⟩ := Registry.name?_ofSchemas_eq_some_iff.mp hn
  have hm : s ∈ schemas := hs ▸ List.mem_append_right before List.mem_cons_self
  have hd : typeName s.name ∈ declaredNames schemas ↔
      ∃ s' ∈ schemas, typeName s'.title = typeName s.name := by
    simp [Schema.interfaceName]
  refine ⟨before, s, after, hs, hi, ha, rfl, hd, fun ht => hd.mpr ⟨s, hm, ht⟩, fun d hs ht => ?_⟩
  exact hd.mpr ⟨s, hm, congrArg typeName (SchemaDraft.title_schema hs ht)⟩

/-- Of two schemas with one id the second counts, and its title decides. -/
theorem resolveReference_declared_last :
    let schemas : List Schema :=
      [⟨"s1", "Old", "Old", none, [], none⟩, ⟨"s1", "Page«User»", "PageUser", none, [], none⟩]
    (resolveReference (.ofSchemas schemas) "page" "#/definitions/s1").value = some "PageUser" ∧
      "PageUser" ∈ declaredNames schemas := by
  intro schemas
  have h : (resolveReference (.ofSchemas schemas) "page" "#/definitions/s1").value =
      some "PageUser" := by
    decide +kernel
  obtain ⟨_, _, _, _, _, _, hn, hd, _⟩ := resolveReference_declared_iff h
  refine ⟨h, hd.mpr ⟨⟨"s1", "Page«User»", "PageUser", none, [], none⟩, by simp [schemas], ?_⟩⟩
  exact hn ▸ by decide +kernel

/-- A schema that is declared under a title other than its name leaves a reference to it without
a declaration. -/
theorem exists_reference_not_declared :
    ¬ ∀ (schemas : List Schema) (place reference name : String),
      (resolveReference (.ofSchemas schemas) place reference).value = some name →
        name ∈ declaredNames schemas := by
  intro h
  have hm := h [⟨"s1", "User", "UserDto", none, [], none⟩] "owner" "#/definitions/s1" "User"
    (by decide +kernel)
  revert hm
  decide +kernel

end ApiTypings
