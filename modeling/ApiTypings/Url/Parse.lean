import ApiTypings.Url.Basic

/-! # Reading addresses

An address is read on its own or relative to another one. What is left out is taken from that
other address; the path is read segment by segment, and dots in it are resolved.
-/

namespace ApiTypings.Url

/-! ## Paths -/

def dotForms : List (List Char) := [".".toList, "%2e".toList]

def isDot (s : List Char) : Bool := dotForms.contains (s.map Char.toLower)

def isDoubleDot (s : List Char) : Bool :=
  (dotForms.flatMap fun a => dotForms.map fun b => a ++ b).contains (s.map Char.toLower)

/-- A drive letter, which a file path keeps as its root. -/
def isDrive : List Char → Bool
  | [c, m] => c.isAlpha && (m == ':' || m == '|')
  | _ => false

/-- The path without its last segment. -/
def shorten (scheme : List Char) (path : List (List Char)) : List (List Char) :=
  match path with
  | [d] => if isFile scheme && isDrive d then path else []
  | _ => path.dropLast

/-- The path with the segments read below it. The last segment names no directory, so dots
there leave an empty segment. -/
def readSegments (scheme : List Char) : List (List Char) → List (List Char) → List (List Char)
  | path, [] => path
  | path, s :: rest =>
    if isDoubleDot s then
      let path := shorten scheme path
      readSegments scheme (if rest.isEmpty then path ++ [[]] else path) rest
    else if isDot s then
      readSegments scheme (if rest.isEmpty then path ++ [[]] else path) rest
    else
      let s := match s with
        | [c, '|'] => if isFile scheme && path.isEmpty && c.isAlpha then [c, ':'] else s
        | _ => s
      readSegments scheme (path ++ [encode inPath s]) rest

def isSlash (special : Bool) (c : Char) : Bool := c == '/' || (special && c == '\\')

def splitPath (scheme : List Char) (s : List Char) : List (List Char) :=
  s.splitOnP (isSlash (isSpecial scheme))

/-- The segments of a path after its first slash, below `path`. -/
def readPath (scheme : List Char) (path : List (List Char)) (s : List Char) : UrlPath :=
  .segments (readSegments scheme path (splitPath scheme s))

/-! ## Query and fragment -/

def cutFragment (s : List Char) : List Char × Option (List Char) :=
  match s.dropWhile (· != '#') with
  | _ :: f => (s.takeWhile (· != '#'), some (encode inFragment f))
  | [] => (s, none)

def cutQuery (scheme : List Char) (s : List Char) : List Char × Option (List Char) :=
  match s.dropWhile (· != '?') with
  | _ :: q =>
    (s.takeWhile (· != '?'), some (encode (if isSpecial scheme then inSpecialQuery else inQuery) q))
  | [] => (s, none)

/-! ## Authority -/

/-- The parts of a text around the last sign of a kind. -/
def cutLast (mark : Char) (s : List Char) : Option (List Char × List Char) :=
  match s.reverse.dropWhile (· != mark) with
  | _ :: before => some (before.reverse, (s.reverse.takeWhile (· != mark)).reverse)
  | [] => none

/-- The host and the text of the port. Colons in brackets belong to the host. -/
def cutPort (s : List Char) : List Char × Option (List Char) :=
  go false s
where
  go (inside : Bool) : List Char → List Char × Option (List Char)
    | [] => ([], none)
    | c :: rest =>
      if c = ':' ∧ !inside then ([], some rest)
      else
        let (host, port) := go (if c = '[' then true else if c = ']' then false else inside) rest
        (c :: host, port)

def readPort (scheme : List Char) : Option (List Char) → Except UrlError (Option Nat)
  | none => .ok none
  | some s =>
    if s.isEmpty then .ok none
    else if !s.all Char.isDigit then .error .invalidPort
    else
      let port := s.foldl (fun n c => n * 10 + (c.toNat - '0'.toNat)) 0
      if 65535 < port then .error .invalidPort
      else .ok (if defaultPort? scheme == some (some port) then none else some port)

def readAuthority (scheme : List Char) (s : List Char) : Except UrlError Authority := do
  let (user, hostPort) := match cutLast '@' s with
    | some (user, rest) => (some user, rest)
    | none => (none, s)
  let user := user.getD []
  let username := user.takeWhile (· != ':')
  let password := (user.dropWhile (· != ':')).drop 1
  let (host, port) := cutPort hostPort
  if host.isEmpty && (isSpecial scheme || port.isSome || (cutLast '@' s).isSome) then
    throw .emptyHost
  let host ← hostText (isSpecial scheme) host
  let port ← readPort scheme port
  return ⟨encode inUserinfo username, encode inUserinfo password, host, port⟩

/-- An address after its two slashes. -/
def readHostAndPath (scheme : List Char) (s : List Char) (query fragment : Option (List Char)) :
    Except UrlError Url := do
  let ends := isSlash (isSpecial scheme)
  let authority ← readAuthority scheme (s.takeWhile fun c => !ends c)
  let path := match s.dropWhile fun c => !ends c with
    | _ :: rest => readPath scheme [] rest
    | [] => .segments (if isSpecial scheme then [[]] else [])
  return ⟨scheme, some authority, path, query, fragment⟩

/-! ## Files -/

def localFile : Authority := ⟨[], [], [], none⟩

/-- A path of a file, below the root or below the drive of the base. -/
def readFilePath (base : Option Url) (s : List Char) : UrlPath :=
  let root := match base with
    | some ⟨_, _, .segments (d :: _), _, _⟩ =>
      if isDrive d && !isDrive ((splitPath "file".toList s).headD []) then [d] else []
    | _ => []
  readPath "file".toList root s

def readFile (base : Option Url) (s : List Char) (query fragment : Option (List Char)) :
    Except UrlError Url := do
  let scheme := "file".toList
  match s with
  | a :: rest =>
    if isSlash true a then
      match rest with
      | b :: rest' =>
        if isSlash true b then
          let host := rest'.takeWhile fun c => !isSlash true c
          if isDrive host then
            return ⟨scheme, some localFile, readPath scheme [] rest', query, fragment⟩
          let host ← if host.isEmpty then pure [] else hostText true host
          let host := if host = "localhost".toList then [] else host
          let path := (rest'.dropWhile fun c => !isSlash true c).drop 1
          return ⟨scheme, some { localFile with host }, readPath scheme [] path, query, fragment⟩
      | [] => pure ()
      let authority := (base.bind Url.authority).getD localFile
      return ⟨scheme, some authority, readFilePath base rest, query, fragment⟩
    else
      match base with
      | some ⟨_, authority, .segments path, _, _⟩ =>
        let start := if isDrive ((splitPath scheme s).headD []) then [] else shorten scheme path
        return ⟨scheme, authority, readPath scheme start s, query, fragment⟩
      | _ => return ⟨scheme, some localFile, readPath scheme [] s, query, fragment⟩
  | [] =>
    match base with
    | some b => return { b with query := query <|> b.query, fragment }
    | none => return ⟨scheme, some localFile, .segments [[]], query, fragment⟩

/-! ## Addresses -/

def readScheme (s : List Char) : Option (List Char × List Char) :=
  let name := s.takeWhile fun c => c.isAlphanum || c == '+' || c == '-' || c == '.'
  match name, s.drop name.length with
  | c :: _, ':' :: rest => if c.isAlpha then some (name.map Char.toLower, rest) else none
  | _, _ => none

/-- Read what has no scheme of its own, relative to an address with segments. -/
def readRelative (base : Url) (path : List (List Char)) (s : List Char)
    (query fragment : Option (List Char)) : Except UrlError Url :=
  let slash := isSlash (isSpecial base.scheme)
  let inRoot := fun r => { base with path := readPath base.scheme [] r, query, fragment }
  let beside :=
    { base with path := readPath base.scheme (shorten base.scheme path) s, query, fragment }
  match s with
  | [] => .ok { base with query := query <|> base.query, fragment }
  | [a] => if slash a then .ok (inRoot []) else .ok beside
  | a :: b :: rest =>
    if slash a && slash b then
      let rest := if isSpecial base.scheme then rest.dropWhile slash else rest
      readHostAndPath base.scheme rest query fragment
    else if slash a then .ok (inRoot (b :: rest))
    else .ok beside

def readAfterScheme (base : Option Url) (scheme : List Char) (s : List Char)
    (query fragment : Option (List Char)) : Except UrlError Url :=
  let sameScheme := base.filter fun b => b.scheme == scheme
  if isFile scheme then readFile sameScheme s query fragment
  else if isSpecial scheme then
    let absolute := readHostAndPath scheme (s.dropWhile (isSlash true)) query fragment
    if (s.takeWhile (isSlash true)).length < 2 then
      match sameScheme with
      | some b =>
        match b.path with
        | .segments path => readRelative b path s query fragment
        | .opaqueText _ => absolute
      | none => absolute
    else absolute
  else
    match s with
    | '/' :: '/' :: rest => readHostAndPath scheme rest query fragment
    | '/' :: rest => .ok ⟨scheme, none, readPath scheme [] rest, query, fragment⟩
    | _ => .ok ⟨scheme, none, .opaqueText (encode isControl s), query, fragment⟩

/-- The text without white space at its ends and without tabs and line breaks. -/
def cleaned (s : List Char) : List Char :=
  let outer := fun c : Char => c.toNat ≤ 0x20
  (((s.dropWhile outer).reverse.dropWhile outer).reverse).filter fun c =>
    c != '\t' && c != '\n' && c != '\r'

/-- Read an address, relative to `base` if there is one. -/
def read (base : Option Url) (text : String) : Except UrlError Url :=
  let (s, fragment) := cutFragment (cleaned text.toList)
  match readScheme s with
  | some (scheme, rest) =>
    let (rest, query) := cutQuery scheme rest
    readAfterScheme base scheme rest query fragment
  | none =>
    match base with
    | none => .error .relativeWithoutBase
    | some b =>
      let (rest, query) := cutQuery b.scheme s
      match b.path with
      | .opaqueText _ =>
        if s.isEmpty && fragment.isSome then .ok { b with fragment } else .error .baseCannotBeBase
      | .segments path =>
        if isFile b.scheme then readFile base rest query fragment
        else readRelative b path rest query fragment

def parse (text : String) : Except UrlError Url := read none text

def join (base : Url) (text : String) : Except UrlError Url := read (some base) text

end ApiTypings.Url
