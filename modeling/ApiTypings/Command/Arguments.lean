import ApiTypings.Config.File

/-! # Arguments

A command with its options. An option is given as `--name value` or `--name=value`, at most
once; a switch has no value.
-/

namespace ApiTypings

structure SourceOptions where
  config : Option Path
  shareId : Option String
  baseUrl : Option BaseUrl

inductive Command where
  | generate (options : SourceOptions) (snapshot outputDir : Option Path)
      (requestImport : Option String) (strict : Bool)
  | snapshot (options : SourceOptions) (out : Path)
  | init (path : Path) (shareId : Option String) (force : Bool)

inductive Invocation where
  | run (c : Command)
  | version
  | help

inductive ArgumentError where
  | missingCommand
  | unknownCommand (name : String)
  | unexpected (argument : String)
  | missingValue (option : String)
  | unexpectedValue (switch : String)
  | repeated (option : String)
  | invalidValue (option : String)
  | missingOption (option : String)
deriving DecidableEq, Repr

def ArgumentError.message : ArgumentError → String
  | .missingCommand => "a command is required"
  | .unknownCommand name => "unrecognized command '" ++ name ++ "'"
  | .unexpected argument => "unexpected argument '" ++ argument ++ "'"
  | .missingValue option => "a value is required for '--" ++ option ++ "'"
  | .unexpectedValue switch => "unexpected value for '--" ++ switch ++ "'"
  | .repeated option => "'--" ++ option ++ "' cannot be used multiple times"
  | .invalidValue option => "invalid value for '--" ++ option ++ "'"
  | .missingOption option => "'--" ++ option ++ "' is required"

namespace Command

def versionText : String := "foxtype 0.1.0\n"

def usage : String :=
  "Usage: foxtype <COMMAND>\n\n" ++
  "Commands:\n" ++
  "  generate  Generate schema.d.ts, paths.d.ts and services.ts from a shared doc\n" ++
  "  snapshot  Download all documents of a shared doc into a snapshot directory\n" ++
  "  init      Write a config file with default values\n"

/-! ## Options as given -/

/-- The options and the switches that a command knows. -/
structure Signature where
  options : List String
  switches : List String

/-- Options with their values and switches without. -/
abbrev Given := List (String × Option String)

def isOption (argument : String) : Bool :=
  match argument.toList with
  | ['-'] => false
  | '-' :: _ => true
  | _ => false

/-- The name of an option with its dashes removed, and a value after an equals sign. -/
def splitOption (argument : String) : Option (String × Option String) :=
  match argument.toList with
  | '-' :: '-' :: rest =>
    let name := String.ofList (rest.takeWhile (· != '='))
    match rest.dropWhile (· != '=') with
    | _ :: value => some (name, some (String.ofList value))
    | [] => some (name, none)
  | _ => none

/-- Collect options, `none` if help was asked for. -/
def collect (s : Signature) : List String → Given → Except ArgumentError (Option Given)
  | [], given => .ok (some given)
  | ["--"], given => .ok (some given)
  | a :: rest, given =>
    if a = "--help" ∨ a = "-h" then .ok none
    else match splitOption a with
      | none => .error (.unexpected a)
      | some (name, value) =>
        if s.switches.contains name then
          if value.isSome then .error (.unexpectedValue name)
          else if (given.lookup name).isSome then .error (.repeated name)
          else collect s rest ((name, none) :: given)
        else if s.options.contains name then
          if (given.lookup name).isSome then .error (.repeated name)
          else match value, rest with
            | some v, rest => collect s rest ((name, some v) :: given)
            | none, v :: rest =>
              if isOption v then .error (.missingValue name)
              else collect s rest ((name, some v) :: given)
            | none, [] => .error (.missingValue name)
        else .error (.unexpected a)

/-! ## Values -/

variable {α : Type}

def text (given : Given) (name : String) : Option String := (given.lookup name).join

def switch (given : Given) (name : String) : Bool := (given.lookup name).isSome

def path (given : Given) (name : String) : Except ArgumentError (Option Path) :=
  match text given name with
  | some "" => .error (.missingValue name)
  | some s => .ok (some ⟨s⟩)
  | none => .ok none

def address (given : Given) (name : String) : Except ArgumentError (Option BaseUrl) :=
  match text given name with
  | some s =>
    match BaseUrl.parse? s with
    | some u => .ok (some u)
    | none => .error (.invalidValue name)
  | none => .ok none

/-! ## Commands -/

def sourceOptions (given : Given) : Except ArgumentError SourceOptions := do
  let config ← path given "config"
  let baseUrl ← address given "base-url"
  return ⟨config, text given "share-id", baseUrl⟩

def generateSignature : Signature :=
  ⟨["config", "share-id", "base-url", "source", "output-dir", "request-import"], ["strict"]⟩

def readGenerate (given : Given) : Except ArgumentError Command := do
  let options ← sourceOptions given
  let source ← path given "source"
  let outputDir ← path given "output-dir"
  return .generate options source outputDir (text given "request-import") (switch given "strict")

def snapshotSignature : Signature := ⟨["config", "share-id", "base-url", "out"], []⟩

def readSnapshot (given : Given) : Except ArgumentError Command := do
  let options ← sourceOptions given
  match ← path given "out" with
  | some out => return .snapshot options out
  | none => .error (.missingOption "out")

def initSignature : Signature := ⟨["path", "share-id"], ["force"]⟩

def readInit (given : Given) : Except ArgumentError Command := do
  let p ← path given "path"
  return .init (p.getD Config.defaultFile) (text given "share-id") (switch given "force")

def invoke (s : Signature) (read : Given → Except ArgumentError Command)
    (arguments : List String) : Except ArgumentError Invocation := do
  match ← collect s arguments [] with
  | some given => return .run (← read given)
  | none => return .help

def parse : List String → Except ArgumentError Invocation
  | [] => .error .missingCommand
  | "--version" :: _ => .ok .version
  | "-V" :: _ => .ok .version
  | "--help" :: _ => .ok .help
  | "-h" :: _ => .ok .help
  | "help" :: _ => .ok .help
  | "generate" :: rest => invoke generateSignature readGenerate rest
  | "snapshot" :: rest => invoke snapshotSignature readSnapshot rest
  | "init" :: rest => invoke initSignature readInit rest
  | a :: _ => .error (if isOption a then .unexpected a else .unknownCommand a)

end Command

end ApiTypings
