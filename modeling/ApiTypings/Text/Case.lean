import ApiTypings.Text.CaseTable

/-! # Upper and lower case

The full case mappings of Unicode: a letter may become several letters, and a capital sigma at
the end of a word becomes a final sigma.
-/

namespace ApiTypings.Text

def upper (c : Char) : List Char :=
  if c.toNat < 128 then [c.toUpper]
  else match upperSequences.lookup c.toNat with
    | some ns => ns.map Char.ofNat
    | none => [Char.ofNat (mapThrough upperRuns c.toNat)]

def lower (c : Char) : List Char :=
  if c.toNat < 128 then [c.toLower]
  else match lowerSequences.lookup c.toNat with
    | some ns => ns.map Char.ofNat
    | none => [Char.ofNat (mapThrough lowerRuns c.toNat)]

/-- Whether the first character that is not case ignorable is a cased one. -/
def startsCased (s : List Char) : Bool :=
  match s.dropWhile fun c => inRanges caseIgnorableRanges c.toNat with
  | c :: _ => inRanges casedRanges c.toNat
  | [] => false

/-- The lower case of the characters that follow `before`, which is given in reverse. -/
def lowerAfter (before : List Char) : List Char → List Char
  | [] => []
  | c :: rest =>
    (if c = 'Σ' then [if startsCased before && !startsCased rest then 'ς' else 'σ'] else lower c) ++
      lowerAfter (c :: before) rest

def uppercase (s : String) : String :=
  String.ofList (s.toList.flatMap upper)

def lowercase (s : String) : String :=
  String.ofList (lowerAfter [] s.toList)

/-- The first letter in upper case, the others as they are. -/
def capitalize (s : String) : String :=
  match s.toList with
  | [] => ""
  | c :: rest => String.ofList (upper c ++ rest)

end ApiTypings.Text
