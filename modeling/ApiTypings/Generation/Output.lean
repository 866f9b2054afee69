import ApiTypings.Generation.Documents

/-! # Output directory

The documents replace whatever the output directory held. A directory that is not made for the
purpose is never cleared.
-/

namespace ApiTypings

/-- Remove what a path leads to, if there is something. -/
def clear (dir : Path) : FileAction Unit := do
  if ← FileAction.holds dir then FileAction.removeTree dir

def Documents.replace (d : Documents) (dir : Path) : FileAction Unit := do
  clear dir
  FileAction.makeDirectories dir
  FileAction.write (dir.join schemaFile) d.schema
  FileAction.write (dir.join pathsFile) d.paths
  FileAction.write (dir.join servicesFile) d.services

/-- Write the documents to a directory made for them. -/
def Documents.writeTo (d : Documents) (dir : Path) (fs : FileSystem) :
    Except Failure Unit × FileSystem :=
  if dir.isDedicated then
    match d.replace dir fs with
    | (.ok (), fs) => (.ok (), fs)
    | (.error e, fs) => (.error (.file e), fs)
  else (.error (.config (.refusedDirectory dir.text)), fs)

def generateTo (c : Config) (t : Renderer) (source : Source) (fs : FileSystem) :
    Run Report × FileSystem :=
  let run := generate c t source
  match run.result with
  | .error e => (⟨run.events, .error e⟩, fs)
  | .ok (documents, report) =>
    let (written, fs) := documents.writeTo c.outputDir fs
    (⟨run.events, written.map fun _ => report⟩, fs)

end ApiTypings
