import ApiTypings.Proofs.Decode.Sources
import ApiTypings.Proofs.Typing.InlineMembers

/-! # Names of interface members

A member stands under the key of its property, bare or between quotes. Either way the key can be
read back from the text of the member, so nothing is lost, and since the keys of a schema are
distinct no name is written twice.
-/

namespace ApiTypings

namespace TypeScript

/-! ## Reading a name -/

/-- Read a quoted name up to its closing quote. A character behind a backslash stands for itself. -/
def readQuotedName : List Char → Option (List Char × List Char)
  | [] => none
  | '"' :: rest => some ([], rest)
  | '\\' :: c :: rest => (readQuotedName rest).map fun (s, t) => (c :: s, t)
  | c :: rest => (readQuotedName rest).map fun (s, t) => (c :: s, t)

/-- Read the name of a member at the start of a text: the key and the text behind the name. -/
def readName : List Char → Option (String × List Char)
  | '"' :: rest => (readQuotedName rest).map fun (s, t) => (String.ofList s, t)
  | s =>
    let name := String.ofList (s.takeWhile isNamePart)
    if isIdentifier name then some (name, s.dropWhile isNamePart) else none

theorem readQuotedName_escapeChars (s t : List Char) :
    readQuotedName (escapeChars s ++ '"' :: t) = some (s, t) := by
  induction s with
  | nil => rfl
  | cons c s ih =>
    rw [escapeChars, List.flatMap_cons, List.append_assoc, ← escapeChars]
    by_cases hc : c = '\\' ∨ c = '"'
    · rw [escapeChar, if_pos hc, List.cons_append, List.singleton_append, readQuotedName, ih]
      rfl
    · rw [escapeChar, if_neg hc, List.singleton_append]
      rw [not_or] at hc
      rw [readQuotedName, ih]
      · rfl
      all_goals simp [hc]

theorem head_of_isIdentifier {key : String} (h : isIdentifier key = true) :
    ∃ c s, key.toList = c :: s ∧ c ≠ '"' := by
  cases hs : key.toList with
  | nil => simp [isIdentifier, hs] at h
  | cons c s =>
    refine ⟨c, s, rfl, ?_⟩
    rintro rfl
    simp [isIdentifier, hs, isNameStart, Char.isAlpha] at h

/-- A name is read back as its key, whatever follows that does not go on with the name. -/
theorem readName_memberName (key : String) {t : List Char}
    (ht : ∀ c ∈ t.head?, isNamePart c = false) :
    readName ((memberName key).toList ++ t) = some (key, t) := by
  unfold memberName
  split_ifs with hk
  · obtain ⟨c, s, hs, hc⟩ := head_of_isIdentifier hk
    have hp := isNamePart_of_isIdentifier hk
    have htake : t.takeWhile isNamePart = [] ∧ t.dropWhile isNamePart = t := by
      cases t with
      | nil => exact ⟨rfl, rfl⟩
      | cons d t => simp [ht d rfl]
    have hstop : ∀ rest, key.toList ++ t ≠ '"' :: rest := by
      intro rest he
      rw [hs, List.cons_append] at he
      exact hc (List.cons_eq_cons.mp he).1
    rw [readName, List.takeWhile_append_of_pos hp, List.dropWhile_append_of_pos hp, htake.1,
      htake.2, List.append_nil, String.ofList_toList]
    · exact if_pos hk
    · exact hstop
  · have hl : (literal key).toList ++ t = '"' :: (escapeChars key.toList ++ '"' :: t) := by
      simp [literal, escaped]
    rw [hl, readName, readQuotedName_escapeChars, Option.map_some]
    dsimp only
    rw [String.ofList_toList]

def Member.signature (m : Member) : String :=
  (if m.optional then "?" else "") ++ ": " ++ m.type.text ++ ";\n"

theorem Member.text_eq_signature (indent : ℕ) (m : Member) :
    m.text indent =
      commentLine indent m.comment ++ spaces indent ++ memberName m.key ++ m.signature := by
  simp only [text, signature, String.append_assoc]

theorem Member.readName_text (m : Member) (t : String) :
    readName (memberName m.key ++ m.signature ++ t).toList =
      some (m.key, (m.signature ++ t).toList) := by
  rw [String.append_assoc, String.toList_append]
  refine readName_memberName m.key ?_
  unfold signature
  cases m.optional <;> simp [isNamePart]

end TypeScript

open TypeScript

/-- The members of an interface are written one after the other, and from each of them the key can be
read back at its place: these are the keys of the properties in source order. No two names are
written alike. -/
theorem interface_names_read_back {j : Json} {s : Schema} (h : Schema.decode j = .ok s)
    (r : Registry) :
    let members := (s.interface r).value.members
    (s.interface r).value.text = commentLine 4 (s.description.getD "") ++ "    interface " ++
      s.interfaceName ++ " \x7b\n" ++ String.join (members.map fun m =>
        commentLine 6 m.comment ++ spaces 6 ++ memberName m.key ++ m.signature) ++ "    \x7d\n\n" ∧
    (members.map fun m => readName (memberName m.key).toList) =
      (s.properties.map fun x => some (x.1, [])) ∧
    (∀ m ∈ members, ∀ t, readName (memberName m.key ++ m.signature ++ t).toList =
      some (m.key, (m.signature ++ t).toList)) ∧
    (members.map fun m => memberName m.key).Nodup := by
  intro members
  have hk : members.map Member.key = s.properties.map Prod.fst := by
    rw [show members = _ from s.members_interface r, List.map_map]
    rfl
  refine ⟨?_, ?_, fun m _ t => m.readName_text t, ?_⟩
  · simp only [← Member.text_eq_signature]
    rfl
  · have hread (key : String) : readName (memberName key).toList = some (key, []) := by
      simpa using readName_memberName key (t := []) (by simp)
    simp only [hread]
    have hm := congrArg (List.map fun key => some (key, ([] : List Char))) hk
    rwa [List.map_map, List.map_map] at hm
  · have hn : (members.map Member.key).Nodup := hk ▸ (reflects_schema h).nodup
    have hm := hn.map memberName_injective
    rwa [List.map_map] at hm

/-- Keys that differ only in their quotes and backslashes. -/
def quotedKeys : List String := ["a", "\"a\"", "\\\"a\\\"", "a\n"]

theorem quoted_names_read_back :
    let s : Schema := ⟨"1", "", "", none, quotedKeys.map fun key => (key, .unknown ⟨none, false⟩), none⟩
    Schema.decode (.object [("id", .string "1"), ("jsonSchema", .object [("properties",
        .object (quotedKeys.map fun key => (key, .object [])))])]) = .ok s ∧
      ((s.interface .empty).value.members.map fun m => readName (memberName m.key).toList) =
        (quotedKeys.map fun key => some (key, [])) ∧
      ((s.interface .empty).value.members.map fun m => memberName m.key).Nodup := by
  intro s
  have hs : Schema.decode (.object [("id", .string "1"), ("jsonSchema", .object [("properties",
      .object (quotedKeys.map fun key => (key, .object [])))])]) = .ok s := rfl
  obtain ⟨-, hread, -, hn⟩ := interface_names_read_back hs .empty
  exact ⟨hs, hread, hn⟩

end ApiTypings
