/-! # Paths

A path is kept as the text it was given as. Two views of it matter: its parts, which a lookup
follows one by one, and its components, in which dots that change nothing are left out.
-/

namespace ApiTypings

/-- What a path consists of when it is only read, not looked up. -/
inductive Component where
  | root
  | here
  | up
  | name (s : String)
deriving DecidableEq, Repr

structure Path where
  text : String
deriving DecidableEq, Repr

namespace Path

/-- The texts between slashes. -/
def parts (p : Path) : List String :=
  ((p.text.toList.splitOn '/').filter fun s => !s.isEmpty).map String.ofList

def isAbsolute (p : Path) : Bool := p.text.toList.head? == some '/'

/-- A path with a slash at its end can only name a directory. -/
def endsInSlash (p : Path) : Bool := p.text.toList.getLast? == some '/'

def componentOf? : String → Option Component
  | "." => none
  | ".." => some .up
  | s => some (.name s)

/-- A dot counts only at the start of a relative path. -/
def components (p : Path) : List Component :=
  let start :=
    if p.isAbsolute then [.root]
    else if p.parts.head? = some "." then [.here]
    else []
  start ++ p.parts.filterMap componentOf?

def join (p : Path) (name : String) : Path :=
  if p.text.isEmpty then ⟨name⟩
  else if p.endsInSlash then ⟨p.text ++ name⟩
  else ⟨p.text ++ "/" ++ name⟩

def componentText : Component → String
  | .root => ""
  | .here => "."
  | .up => ".."
  | .name s => s

def ofComponents (cs : List Component) : Path :=
  if cs = [.root] then ⟨"/"⟩ else ⟨"/".intercalate (cs.map componentText)⟩

/-- The path and the paths of the directories it lies in, from the inside to the outside. The
directory where relative paths start and the root are left out. -/
def ancestors (p : Path) : List Path :=
  let cs := p.components
  let outer := (List.range cs.length).reverse.map fun n => cs.take n
  let isInner := fun cs : List Component => !cs.isEmpty && cs != [.root]
  if isInner cs then p :: (outer.filter isInner).map ofComponents else []

def isName : Component → Bool
  | .name _ => true
  | _ => false

/-- Whether the path denotes, as far as its text tells, a directory made for the purpose: it has
a name in it, and if it climbs it ends in a name. -/
def isDedicated (p : Path) : Bool :=
  p.components.any isName &&
    (!p.components.contains .up || (p.components.getLast?.map isName).getD false)

end Path

end ApiTypings
