import ApiTypings.Source.Share
import ApiTypings.Typing.Tree

/-! # Snapshots

A snapshot is a directory with the documents of a share as they were received. It can be read in
place of the share.
-/

namespace ApiTypings

namespace Snapshot

def schemasFile : String := "data-schemas.json"

def treeFile : String := "http-api-tree.json"

def endpointDir : String := "http-apis"

def isPlainId (id : String) : Bool :=
  !id.isEmpty && id.toList.all fun c => c.isAlphanum || c == '-' || c == '_'

def endpointFile (id : String) : Except TransportError String :=
  if isPlainId id then .ok (id ++ ".json") else .error (.invalidId id)

/-! ## Reading -/

variable {α : Type}

def read (fs : FileSystem) (decode : Json → Decoded α) (path : Path) : Except Failure α :=
  match fs.read path with
  | .ok text => openEnvelope decode path.text text
  | .error e => .error (.transport (.unreadable path.text e))

def source (fs : FileSystem) (dir : Path) : Source where
  schemas := Run.ofExcept (read fs decodeSchemas (dir.join schemasFile))
  tree := Run.ofExcept (read fs decodeNodes (dir.join treeFile))
  endpoint id := Run.ofExcept do
    let file ← (endpointFile id).mapError .transport
    read fs Endpoint.decode (dir.join (endpointDir ++ "/" ++ file))

end Snapshot

/-! ## Saving -/

/-- The documents of a share as they were received. -/
structure Snapshot where
  schemas : String
  tree : String
  /-- Names of files and their texts. -/
  endpoints : List (String × String)
deriving DecidableEq, Repr

namespace Snapshot

def downloadEndpoints (s : Share) (n : Network) : List String → Run (List (String × String))
  | [] => pure []
  | id :: rest => do
    let file ← Run.ofExcept ((endpointFile id).mapError .transport)
    let body ← s.fetch n (Share.endpointTail id)
    let _ ← Run.ofExcept (openEnvelope Endpoint.decode file body)
    let files ← downloadEndpoints s n rest
    return (file, body) :: files

/-- Fetch all documents. Each one has to be readable. -/
def download (s : Share) (n : Network) : Run Snapshot := do
  let schemas ← s.fetch n Share.schemasTail
  let _ ← Run.ofExcept (openEnvelope decodeSchemas schemasFile schemas)
  let tree ← s.fetch n Share.treeTail
  let modules ← Run.ofExcept (openEnvelope decodeNodes treeFile tree)
  let ids ← Run.ofWarned (endpointIds modules)
  let endpoints ← downloadEndpoints s n ids
  return ⟨schemas, tree, endpoints⟩

def writeEndpoints (dir : Path) : List (String × String) → FileAction Unit
  | [] => pure ()
  | (file, text) :: rest => do
    FileAction.write ((dir.join endpointDir).join file) text
    writeEndpoints dir rest

def write (s : Snapshot) (dir : Path) : FileAction Unit := do
  FileAction.makeDirectories (dir.join endpointDir)
  FileAction.write (dir.join schemasFile) s.schemas
  FileAction.write (dir.join treeFile) s.tree
  writeEndpoints dir s.endpoints

/-- Save the documents of a share to a directory. The result is the number of endpoints. -/
def save (s : Share) (n : Network) (dir : Path) (fs : FileSystem) : Run Nat × FileSystem :=
  let snapshot := download s n
  match snapshot.result with
  | .error e => (⟨snapshot.events, .error e⟩, fs)
  | .ok files =>
    match files.write dir fs with
    | (.ok (), fs) => (⟨snapshot.events, .ok files.endpoints.length⟩, fs)
    | (.error e, fs) => (⟨snapshot.events, .error (.file e)⟩, fs)

end Snapshot

end ApiTypings
