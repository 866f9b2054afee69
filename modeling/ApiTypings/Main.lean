import ApiTypings.Command.Execute

/-! # Program

Runs the command in the arguments. The part of the disk that the command can reach is read
first; afterwards what the command changed is written back. No network is linked in, so a request
gets no answer.
-/

namespace ApiTypings.Program

def diskPath (l : Location) : String := "/" ++ "/".intercalate l

def isDirectory (l : Location) : IO Bool :=
  try (← IO.FS.realPath (diskPath l)).isDir
  catch _ => return false

def fileText? (l : Location) : IO (Option String) :=
  try return some (← IO.FS.readFile (diskPath l))
  catch _ => return none

def entryAt? (l : Location) : IO (Option Entry) := do
  if ← isDirectory l then return some .directory
  else return (← fileText? l).map .file

def namesIn (l : Location) : IO (List String) := do
  let entries ← (← IO.FS.realPath (diskPath l)).readDir
  return entries.toList.map (·.fileName)

/-- Read what lies at a location and below it. -/
partial def loadTree (fs : FileSystem) (l : Location) : IO FileSystem := do
  match ← entryAt? l with
  | none => return fs
  | some (.file text) => return fs.put l (.file text)
  | some .directory =>
    let mut fs := fs.put l .directory
    for name in ← namesIn l do
      fs ← loadTree fs (l ++ [name])
    return fs

/-- Read what a path passes through and what it leads to. -/
def loadParts (fs : FileSystem) (l : Location) : List String → IO FileSystem
  | [] => if l.isEmpty then return fs else loadTree fs l
  | "." :: rest => loadParts fs l rest
  | ".." :: rest => loadParts fs l.dropLast rest
  | name :: rest => do
    let l := l ++ [name]
    match ← entryAt? l with
    | none => return fs
    | some e => if rest.isEmpty then loadTree fs l else loadParts (fs.put l e) l rest

def loadPath (fs : FileSystem) (p : Path) : IO FileSystem :=
  loadParts fs (if p.isAbsolute then [] else fs.workingDirectory) p.parts

def namedPaths : Command → List Path
  | .generate o source outputDir _ _ => o.config.toList ++ source.toList ++ outputDir.toList
  | .snapshot o out => o.config.toList ++ [out]
  | .init path _ _ => [path]

/-- The paths that the configuration of a command names. -/
def configuredPaths (fs : FileSystem) : Command → List Path
  | .generate o _ outputDir _ _ =>
    match Command.loadConfig fs o.config with
    | .ok c => [outputDir.getD c.outputDir] ++ c.templateDir.toList
    | .error _ => []
  | _ => []

def load (c : Command) : IO FileSystem := do
  let location := (Path.mk (← IO.currentDir).toString).parts
  let mut fs : FileSystem := ⟨[], location⟩
  for n in List.range location.length do
    fs := fs.put (location.take (n + 1)) .directory
  for p in Config.defaultFile :: namedPaths c do
    fs ← loadPath fs p
  for p in configuredPaths fs c do
    fs ← loadPath fs p
  return fs

/-- Whether an entry is still there, perhaps with another text. -/
def remains : Entry → Option Entry → Bool
  | .directory, some .directory => true
  | .file _, some (.file _) => true
  | _, _ => false

/-- Write back what differs. Removal goes from the inside to the outside. -/
def store (before after : FileSystem) : IO Unit := do
  let byDepth := fun (fs : FileSystem) =>
    fs.entries.mergeSort fun a b => a.1.length ≤ b.1.length
  for (l, e) in (byDepth before).reverse do
    unless remains e (after.entryAt? l) do
      match e with
      | .directory => IO.FS.removeDir (diskPath l)
      | .file _ => IO.FS.removeFile (diskPath l)
  for (l, e) in byDepth after do
    unless before.entryAt? l = some e do
      match e with
      | .directory => IO.FS.createDir (diskPath l)
      | .file text => IO.FS.writeFile (diskPath l) text

def reportFailure (messages : List String) : IO Unit := do
  IO.eprintln ("Error: " ++ "\n\nCaused by:\n    ".intercalate messages)

def run (c : Command) : IO UInt32 := do
  let before ← load c
  let e := c.execute (fun _ => .closed) before
  store before e.files
  for w in Run.warnings (⟨e.events, .ok ()⟩ : Run Unit) do
    IO.eprintln w.message
  match e.output with
  | .ok text =>
    IO.print text
    return 0
  | .error failure =>
    reportFailure failure.messages
    return 1

end ApiTypings.Program

def main (arguments : List String) : IO UInt32 := do
  match ApiTypings.Command.parse arguments with
  | .ok (.run c) => ApiTypings.Program.run c
  | .ok .version =>
    IO.print ApiTypings.Command.versionText
    return 0
  | .ok .help =>
    IO.print ApiTypings.Command.usage
    return 0
  | .error e =>
    IO.eprintln ("error: " ++ e.message)
    return 2
