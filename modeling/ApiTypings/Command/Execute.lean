import ApiTypings.Command.Arguments
import ApiTypings.Generation.Output
import ApiTypings.Source.Snapshot

/-! # Execution

What a command does to files, whom it asks, and what it says in the end.
-/

namespace ApiTypings

inductive CommandFailure where
  /-- What could not be done, and why. -/
  | failed (task : String) (cause : Failure)
  | exists (path : String)
deriving DecidableEq, Repr

/-- The messages from the outermost to the cause. -/
def CommandFailure.messages : CommandFailure → List String
  | .failed task cause => [task, cause.message]
  | .exists path => [path ++ " already exists, pass --force to overwrite"]

structure Execution where
  events : List Event
  /-- What is printed, unless the command fails. -/
  output : Except CommandFailure String
  files : FileSystem

namespace Command

variable {α : Type}

def within (task : String) (r : Except Failure α) : Except CommandFailure α :=
  r.mapError (.failed task)

/-- The configuration in a given file, else in the default file if there is one. -/
def loadConfig (fs : FileSystem) : Option Path → Except CommandFailure Config
  | some p => within ("Failed to load config from " ++ p.text) (Config.load fs p)
  | none =>
    let p := Config.defaultFile
    if (fs.status p).isOk then
      within ("Failed to load config from " ++ p.text) (Config.load fs p)
    else .ok Config.default

def applyOptions (o : SourceOptions) (c : Config) : Config :=
  { c with
    shareId := o.shareId <|> c.shareId
    baseUrl := o.baseUrl.getD c.baseUrl }

def configFor (fs : FileSystem) (o : SourceOptions) : Except CommandFailure Config :=
  (loadConfig fs o.config).map (applyOptions o)

def shareFor (hint : String) (c : Config) : Except CommandFailure Share :=
  within hint ((Share.ofConfig c).mapError .config)

def loadTemplates (fs : FileSystem) (c : Config) : Except CommandFailure Templates :=
  within "Failed to load templates" <| (Templates.load fs c.templateDir).mapError fun
    | .file e => .file e
    | .template e => .template e

/-- All that a generation needs besides the network. -/
structure GenerationPlan where
  config : Config
  templates : Templates
  source : Source

def planGeneration (n : Network) (fs : FileSystem) (o : SourceOptions)
    (dir outputDir : Option Path) (requestImport : Option String) (strict : Bool) :
    Except CommandFailure GenerationPlan := do
  let loaded ← configFor fs o
  let config := { loaded with
    outputDir := outputDir.getD loaded.outputDir
    requestImport := requestImport.getD loaded.requestImport
    strict := loaded.strict || strict }
  let source ← match dir with
    | some dir => pure (Snapshot.source fs dir)
    | none =>
      (shareFor "Pass --share-id, --source or set share_id in the config" config).map
        fun s => s.source n
  let templates ← loadTemplates fs config
  return ⟨config, templates, source⟩

def generatedMessage (c : Config) (r : Report) : String :=
  "✅ Generated " ++ toString r.schemas ++ " schemas and " ++ toString r.endpoints ++
    " endpoints in: " ++ c.outputDir.text ++ "\n"

def executeGenerate (n : Network) (fs : FileSystem) (o : SourceOptions)
    (dir outputDir : Option Path) (requestImport : Option String) (strict : Bool) :
    Execution :=
  match planGeneration n fs o dir outputDir requestImport strict with
  | .error e => ⟨[], .error e, fs⟩
  | .ok plan =>
    let (run, fs) := generateTo plan.config plan.templates.renderer plan.source fs
    ⟨run.events, (within "Generation failed" run.result).map (generatedMessage plan.config), fs⟩

def executeSnapshot (n : Network) (fs : FileSystem) (o : SourceOptions) (out : Path) :
    Execution :=
  let share := (configFor fs o).bind (shareFor "Pass --share-id or set share_id in the config")
  match share with
  | .error e => ⟨[], .error e, fs⟩
  | .ok share =>
    let (run, fs) := Snapshot.save share n out fs
    ⟨run.events,
      (within ("Failed to save snapshot to " ++ out.text) run.result).map fun count =>
        "✅ Saved " ++ toString count ++ " endpoints to: " ++ out.text ++ "\n",
      fs⟩

def executeInit (fs : FileSystem) (path : Path) (shareId : Option String) (force : Bool) :
    Execution :=
  if (fs.status path).isOk && !force then ⟨[], .error (.exists path.text), fs⟩
  else
    let (saved, fs) := ({ Config.default with shareId } : Config).save path fs
    ⟨[], (within ("Failed to write " ++ path.text) (saved.mapError .file)).map fun _ =>
        "✅ Wrote " ++ path.text ++ "\n",
      fs⟩

def execute (n : Network) (fs : FileSystem) : Command → Execution
  | .generate o source outputDir requestImport strict =>
    executeGenerate n fs o source outputDir requestImport strict
  | .snapshot o out => executeSnapshot n fs o out
  | .init path shareId force => executeInit fs path shareId force

end Command

end ApiTypings
