import ApiTypings.File.Path

/-! # File system

Directories and files, each at a location. Looking a path up follows its parts from the working
directory or from the root; a part other than the last has to be a directory.
-/

namespace ApiTypings

inductive FileError where
  | notFound
  | notDirectory
  | isDirectory
  | alreadyExists
  | invalidPath
deriving DecidableEq, Repr

def FileError.message : FileError → String
  | .notFound => "No such file or directory (os error 2)"
  | .notDirectory => "Not a directory (os error 20)"
  | .isDirectory => "Is a directory (os error 21)"
  | .alreadyExists => "File exists (os error 17)"
  | .invalidPath => "Invalid argument (os error 22)"

/-- The names on the way from the root. -/
abbrev Location := List String

inductive Entry where
  | directory
  | file (text : String)
deriving DecidableEq, Repr

structure FileSystem where
  /-- All entries but the root. The first one for a location counts. -/
  entries : List (Location × Entry)
  /-- Where relative paths start. -/
  workingDirectory : Location
deriving DecidableEq, Repr

namespace FileSystem

def entryAt? (fs : FileSystem) (l : Location) : Option Entry :=
  if l = [] then some .directory else fs.entries.lookup l

def put (fs : FileSystem) (l : Location) (e : Entry) : FileSystem :=
  { fs with entries := (l, e) :: fs.entries.filter fun x => x.1 != l }

def removeWhere (fs : FileSystem) (c : Location → Bool) : FileSystem :=
  { fs with entries := fs.entries.filter fun x => !c x.1 }

@[simp] theorem entryAt?_nil (fs : FileSystem) : fs.entryAt? [] = some .directory := by
  simp [entryAt?]

theorem lookup_filter (c : Location → Bool) (xs : List (Location × Entry)) (m : Location) :
    (xs.filter fun x => c x.1).lookup m = if c m then xs.lookup m else none := by
  induction xs with
  | nil => simp
  | cons x xs ih =>
    obtain ⟨k, e⟩ := x
    by_cases hm : m = k
    · subst hm
      cases h : c m <;> simp [h] at ih ⊢
      exact ih
    · have hne : (m == k) = false := by simp [hm]
      cases h : c k <;> simp [h, hne, ih, List.lookup_cons]

theorem entryAt?_put (fs : FileSystem) {l : Location} (hl : l ≠ []) (e : Entry) (m : Location) :
    (fs.put l e).entryAt? m = if m = l then some e else fs.entryAt? m := by
  unfold entryAt? put
  by_cases h : m = l
  · simp [h, hl]
  · have hne : (m == l) = false := by simp [h]
    simp [h, hne, List.lookup_cons, lookup_filter (· != l)]

theorem entryAt?_removeWhere (fs : FileSystem) (c : Location → Bool) {m : Location}
    (hm : m ≠ []) :
    (fs.removeWhere c).entryAt? m = if c m then none else fs.entryAt? m := by
  unfold entryAt? removeWhere
  cases h : c m <;> simp [hm, h, lookup_filter fun l => !c l]

/-! ## Lookup -/

/-- Follow parts from a directory. Whether the last one exists is left open. -/
def follow (fs : FileSystem) (l : Location) : List String → Except FileError Location
  | [] => .ok l
  | s :: rest =>
    if s = "." then fs.follow l rest
    else if s = ".." then fs.follow l.dropLast rest
    else if rest.isEmpty then .ok (l ++ [s])
    else match fs.entryAt? (l ++ [s]) with
      | some .directory => fs.follow (l ++ [s]) rest
      | some (.file _) => .error .notDirectory
      | none => .error .notFound

/-- A dot at the end of a path follows the part before it, which then has to be a directory. -/
def locate (fs : FileSystem) (p : Path) : Except FileError Location :=
  if p.text.isEmpty then .error .notFound
  else if p.text.toList.contains '\x00' then .error .invalidPath
  else fs.follow (if p.isAbsolute then [] else fs.workingDirectory) p.parts

def status (fs : FileSystem) (p : Path) : Except FileError Entry :=
  match fs.locate p with
  | .error e => .error e
  | .ok l =>
    match fs.entryAt? l with
    | none => .error .notFound
    | some (.file t) => if p.endsInSlash then .error .notDirectory else .ok (.file t)
    | some .directory => .ok .directory

def isDirectory (fs : FileSystem) (p : Path) : Bool :=
  fs.status p matches .ok .directory

/-- Whether a path leads to something; a lookup that fails for another reason is an error. -/
def holds (fs : FileSystem) (p : Path) : Except FileError Bool :=
  match fs.status p with
  | .ok _ => .ok true
  | .error .notFound => .ok false
  | .error e => .error e

def read (fs : FileSystem) (p : Path) : Except FileError String :=
  match fs.status p with
  | .ok (.file text) => .ok text
  | .ok .directory => .error .isDirectory
  | .error e => .error e

/-! ## Changes -/

def endsInName (p : Path) : Bool :=
  match p.parts.getLast? with
  | some s => s != "." && s != ".."
  | none => false

/-- Put a new entry in its directory. -/
def create (fs : FileSystem) (l : Location) (e : Entry) : Except FileError FileSystem :=
  if fs.entryAt? l.dropLast = some .directory then .ok (fs.put l e) else .error .notFound

def write (fs : FileSystem) (p : Path) (text : String) : Except FileError FileSystem :=
  match fs.locate p with
  | .error e => .error e
  | .ok l =>
    if p.endsInSlash || !endsInName p then .error .isDirectory
    else match fs.entryAt? l with
      | some .directory => .error .isDirectory
      | _ => fs.create l (.file text)

def makeDirectory (fs : FileSystem) (p : Path) : Except FileError FileSystem :=
  match fs.locate p with
  | .error e => .error e
  | .ok l =>
    if (fs.entryAt? l).isSome || !endsInName p then .error .alreadyExists
    else fs.create l .directory

def makeOrKeep (fs : FileSystem) (p : Path) : Except FileError FileSystem :=
  match fs.makeDirectory p with
  | .error .alreadyExists => if fs.isDirectory p then .ok fs else .error .alreadyExists
  | r => r

/-- Make directories, each in the one that follows. Those made before a failure remain. -/
def makeAll (fs : FileSystem) : List Path → Except FileError Unit × FileSystem
  | [] => (.ok (), fs)
  | p :: outer =>
    match fs.makeOrKeep p with
    | .ok fs => (.ok (), fs)
    | .error .notFound =>
      match fs.makeAll outer with
      | (.error e, fs) => (.error e, fs)
      | (.ok (), fs) =>
        match fs.makeOrKeep p with
        | .ok fs => (.ok (), fs)
        | .error e => (.error e, fs)
    | .error e => (.error e, fs)

/-- Make a directory and those it lies in. -/
def makeDirectories (fs : FileSystem) (p : Path) : Except FileError Unit × FileSystem :=
  fs.makeAll p.ancestors

def isBelow (l : Location) (inner : Location) : Bool := l.isPrefixOf inner && inner != l

/-- Remove what lies in a directory, and then the directory, which must be given by name. -/
def removeTree (fs : FileSystem) (p : Path) : Except FileError Unit × FileSystem :=
  match fs.status p with
  | .error e => (.error e, fs)
  | .ok (.file _) => (.error .notDirectory, fs)
  | .ok .directory =>
    match fs.locate p with
    | .error e => (.error e, fs)
    | .ok l =>
      if endsInName p then (.ok (), fs.removeWhere fun x => l.isPrefixOf x)
      else (.error .invalidPath, fs.removeWhere (isBelow l))

end FileSystem

/-! ## Sequences of changes -/

/-- A change that may fail. What was done before a failure remains. -/
def FileAction (α : Type) : Type := FileSystem → Except FileError α × FileSystem

namespace FileAction

variable {α β : Type}

protected def pure (a : α) : FileAction α := fun fs => (.ok a, fs)

protected def bind (x : FileAction α) (f : α → FileAction β) : FileAction β := fun fs =>
  match x fs with
  | (.ok a, fs) => f a fs
  | (.error e, fs) => (.error e, fs)

instance : Monad FileAction where
  pure := FileAction.pure
  bind := FileAction.bind

def holds (p : Path) : FileAction Bool := fun fs => (fs.holds p, fs)

def removeTree (p : Path) : FileAction Unit := fun fs => fs.removeTree p

def makeDirectories (p : Path) : FileAction Unit := fun fs => fs.makeDirectories p

def write (p : Path) (text : String) : FileAction Unit := fun fs =>
  match fs.write p text with
  | .ok fs => (.ok (), fs)
  | .error e => (.error e, fs)

end FileAction

end ApiTypings
