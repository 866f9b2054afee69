import ApiTypings.Yaml.Block
import ApiTypings.Yaml.Plain

/-! # Mappings

A document is a mapping from keys to scalars, with one entry a line or between braces. Other
collections are read as values without looking at what is in them.
-/

namespace ApiTypings.Yaml

inductive Value where
  | plain (text : String)
  | quoted (text : String)
  | collection
deriving DecidableEq, Repr

abbrev Entries := List (String × Value)

variable {α : Type}

/-! ## Scalars -/

/-- Whether a plain scalar may start with the first character of a text. -/
def startsPlain : List Char → Bool
  | [] => false
  | c :: rest => !isSpaceOrBreak c && !startsSpecially (c :: rest)

def readScalar (inFlow : Bool) (column : Nat) (s : List Char) : Option (Value × List Char) :=
  match s with
  | '\'' :: rest => (readSingle .empty rest).map fun (t, r) => (.quoted (String.ofList t), r)
  | '"' :: rest => (readDouble .empty rest).map fun (t, r) => (.quoted (String.ofList t), r)
  | s =>
    if startsPlain s then
      let (t, rest) := readPlain inFlow column s
      some (.plain (String.ofList t), rest)
    else none

def Value.text? : Value → Option String
  | .plain t => some t
  | .quoted t => some t
  | .collection => none

/-! ## Between brackets -/

/-- A text without the white space and the comments at its start. -/
def skipSpace (inComment : Bool) : List Char → List Char
  | [] => []
  | c :: rest =>
    if isBreak c then skipSpace false rest
    else if inComment || isBlank c then skipSpace inComment rest
    else if c = '#' then skipSpace true rest
    else c :: rest

mutual

/-- A value inside brackets and what follows it. -/
def readFlow : Nat → List Char → Option (Value × List Char)
  | 0, _ => none
  | fuel + 1, s =>
    match s with
    | '\x7b' :: rest => (readPairs fuel rest).map fun (_, r) => (.collection, r)
    | '[' :: rest => (readItems fuel rest).map fun r => (.collection, r)
    | s => readScalar true 0 s

/-- The entries up to the closing brace and what follows it. -/
def readPairs : Nat → List Char → Option (Entries × List Char)
  | 0, _ => none
  | fuel + 1, s =>
    match skipSpace false s with
    | '\x7d' :: rest => some ([], rest)
    | s => do
      let (key, rest) ← readFlow fuel s
      let (value, rest) ← match skipSpace false rest with
        | ':' :: rest => readPairValue fuel (skipSpace false rest)
        | rest => some (.plain "", rest)
      let entry := (key.text?.map fun k => [(k, value)]).getD []
      match skipSpace false rest with
      | ',' :: rest => (readPairs fuel rest).map fun (es, r) => (entry ++ es, r)
      | '\x7d' :: rest => some (entry, rest)
      | _ => none

/-- The value after a colon; it may be left out. -/
def readPairValue : Nat → List Char → Option (Value × List Char)
  | 0, _ => none
  | fuel + 1, s =>
    match s with
    | ',' :: _ => some (.plain "", s)
    | '\x7d' :: _ => some (.plain "", s)
    | _ => readFlow fuel s

/-- What follows the closing bracket of a list. -/
def readItems : Nat → List Char → Option (List Char)
  | 0, _ => none
  | fuel + 1, s =>
    match skipSpace false s with
    | ']' :: rest => some rest
    | s => do
      let (_, rest) ← readFlow fuel s
      match skipSpace false rest with
      | ',' :: rest => readItems fuel rest
      | ']' :: rest => some rest
      | _ => none

end

/-! ## One entry a line -/

/-- The column of the next text that is no comment, and that text. -/
def nextContent (column : Nat) (inComment : Bool) : List Char → Nat × List Char
  | [] => (column, [])
  | c :: rest =>
    if isBreak c then nextContent 0 false rest
    else if inComment then nextContent column true rest
    else if c = ' ' then nextContent (column + 1) false rest
    else if c = '#' then nextContent column true rest
    else (column, c :: rest)

/-- A key with its colon, all on one line, and what follows. -/
def readKey (s : List Char) : Option (String × List Char) := do
  let (key, rest) ← match s with
    | '\'' :: r => readSingle .empty r
    | '"' :: r => readDouble .empty r
    | s => if startsPlain s then some (plainWords false [] s) else none
  if (s.take (s.length - rest.length)).any isBreak then none
  else match rest.dropWhile isBlank with
    | ':' :: rest => if endsWord rest then some (String.ofList key, rest) else none
    | _ => none

/-- A value below a key at a column, and the text after its last line. -/
def readNode (column : Nat) (s : List Char) : Option (Value × List Char) :=
  match s with
  | '|' :: rest => (readBlock false column rest).map fun (t, r) => (.quoted (String.ofList t), r)
  | '>' :: rest => (readBlock true column rest).map fun (t, r) => (.quoted (String.ofList t), r)
  | s => do
    let (value, rest) ← match s with
      | '\x7b' :: _ => readFlow (s.length + 1) s
      | '[' :: _ => readFlow (s.length + 1) s
      | s => readScalar false column s
    let rest ← endLine rest
    return (value, rest)

/-- A value behind the colon, on the same line or on a deeper one below it. -/
def readValue (column : Nat) (s : List Char) : Option (Value × List Char) :=
  match s.dropWhile isBlank with
  | [] => some (.plain "", [])
  | c :: rest =>
    if c = '#' || isBreak c then
      let (next, below) := nextContent 0 (c = '#') (c :: rest)
      if column < next && !below.isEmpty then readNode column below
      else some (.plain "", c :: rest)
    else readNode column (c :: rest)

/-- The entries whose keys stand at a column, and what follows them. -/
def readEntries (column : Nat) : Nat → List Char → Option (Entries × List Char)
  | 0, _ => none
  | fuel + 1, s =>
    let (next, content) := nextContent 0 false s
    if content.isEmpty || (next = 0 && isMarker content) then some ([], content)
    else if next ≠ column then none
    else do
      let (key, rest) ← readKey content
      let (value, rest) ← readValue column rest
      let (entries, rest) ← readEntries column fuel rest
      return ((key, value) :: entries, rest)

/-! ## Documents -/

/-- After the document only the mark for its end may follow. -/
def endsDocument (s : List Char) : Bool :=
  match nextContent 0 false s with
  | (0, '.' :: '.' :: '.' :: rest) =>
    endsWord rest && (skipSpace false rest).isEmpty
  | (_, content) => content.isEmpty

/-- The content of a document, at its start on a line of its own. -/
def readContent (s : List Char) : Option (Entries × List Char) :=
  let (column, content) := nextContent 0 false s
  match content with
  | '\x7b' :: rest => do
    let (entries, rest) ← readPairs (s.length + 1) rest
    let rest ← endLine rest
    return (entries, rest)
  | _ => readEntries column (s.length + 1) s

def parse (text : String) : Option Entries := do
  let s := match unifyBreaks text.toList with
    | '\uFEFF' :: rest => rest
    | s => s
  if !s.all isReadable then none
  else do
    let (column, content) := nextContent 0 false s
    let (entries, rest) ←
      if column = 0 && isMarker content && "---".toList.isPrefixOf content then
        match (content.drop 3).dropWhile isBlank with
        | '\x7b' :: rest => readContent ('\x7b' :: rest)
        | rest => (endLine rest).bind readContent
      else readContent s
    if endsDocument rest then some entries else none

end ApiTypings.Yaml
