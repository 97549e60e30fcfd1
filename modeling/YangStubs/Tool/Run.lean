import YangStubs.Tool.Config
import YangStubs.Tool.LogFilter

/-! # Runs of the tool

A run reads modules and a configuration from files, makes models of the modules and writes them in a format,
to files or to the standard output.  What is to be written is worked out first; that part says which files
it looks at, so that they can be fetched before.
-/

namespace YangStubs.Tool

open YangStubs.Backend (BackendError)
open YangStubs.Emit (Format Identifier)
open YangStubs.Model (Module)
open YangStubs.Schema
open YangStubs.Text

inductive RunError where
  | read (path : String) (cause : FileError)
  | write (path : String) (cause : FileError)
  /-- A module lies in the network, which is out of reach. -/
  | fetch (address : String)
  | config (path : String)
  | schema (error : SchemaError)
  | backend (error : BackendError)
  /-- A reserved word stands in the place of a name, which breaks the run off. -/
  | reserved (identifier : Identifier)
  deriving DecidableEq, Repr

namespace RunError

def message : RunError → String
  | .read path _ => "failed to read " ++ path
  | .write path _ => "failed to write " ++ path
  | .fetch address => "failed to fetch " ++ address
  | .config path => "invalid configuration in " ++ path
  | .schema error => error.message
  | .backend error => error.message
  | .reserved identifier => "expected identifier, found keyword `" ++ identifier.text ++ "`"

def causes : RunError → List String
  | .read _ cause | .write _ cause => [cause.message]
  | .schema (.importFailed _ cause) =>
    match cause with
    | .unreadable file => [cause.message, file.message]
    | _ => [cause.message]
  | _ => []

def report (error : RunError) : Event :=
  ⟨.error, .tool, joinTexts ": " (error.message :: error.causes)⟩

def reports : RunError → Log
  | .reserved _ => []
  | error => [error.report]

def exitCode : RunError → Nat
  | .reserved _ => 101
  | _ => 1

end RunError

/-! ## What is to be done -/

structure Output where
  fileName : String
  /-- The text, or the identifier for which there is none. -/
  text : Except Identifier String
  /-- What was reported while it was put into words. -/
  log : Log

inductive Work where
  | listing (names : List String)
  /-- To write modules, into a directory if there is one. -/
  | writing (directory : Option String) (outputs : List Output)

structure Plan where
  work : Except RunError Work
  log : Log
  wanted : List String

def loadConfig (options : Options) (files : FileTree) : Except RunError Config :=
  match options.config with
  | none => .ok (Config.initial.merge options)
  | some path =>
    match files.read path with
    | .error cause => .error (.read path cause)
    | .ok text =>
      match Config.parse? text with
      | some config => .ok (config.merge options)
      | none => .error (.config path)

def isAddress (input : String) : Bool :=
  startsWith "http://".toList input.toList || startsWith "https://".toList input.toList

def readInputs (files : FileTree) : List String → Except RunError (List String) × Log
  | [] => (.ok [], [])
  | input :: rest =>
    if isAddress input then
      (.error (.fetch input), [⟨.debug, .tool, "fetching " ++ input⟩])
    else
      match files.read input with
      | .error cause => (.error (.read input cause), [])
      | .ok text =>
        let (texts, log) := readInputs files rest
        (texts.map (text :: ·), log)

def outputsOf (format : Format) (backend : Backend) (models : List Module) : List Output :=
  models.map fun m =>
    let (text, log) := format.emit m backend
    ⟨format.fileName m.name, text, log⟩

def planWriting (options : Options) (config : Config) (backend : Backend) (files : FileTree) : Plan :=
  match readInputs files options.inputs with
  | (.error e, log) => ⟨.error e, log, options.inputs⟩
  | (.ok texts, log) =>
    let outcome := resolveTexts texts [.search config.searchPaths] files
    let wanted :=
      options.inputs ++ outcome.questions.flatMap fun q => q.topic.possiblePaths config.searchPaths
    let before := log ++ outcome.log
    match outcome.result with
    | .error e => ⟨.error (.schema e), before, wanted⟩
    | .ok schema =>
      let (models, built) := Module.buildAll schema backend (schema.modules.map (·.2))
      ⟨.ok (.writing config.outputPath (outputsOf options.format backend models)), before ++ built,
       wanted⟩

def plan (options : Options) (files : FileTree) : Plan :=
  let wanted := options.config.toList
  match loadConfig options files with
  | .error e => ⟨.error e, [], wanted⟩
  | .ok config =>
    match Backend.Registry.builtin with
    | .error e => ⟨.error (.backend e), [], wanted⟩
    | .ok (registry, log) =>
      if options.listBackends then ⟨.ok (.listing registry.names), log, wanted⟩
      else
        let name := options.backend.getD options.format.defaultBackend
        match registry.select name config.typePatterns with
        | .error e => ⟨.error (.backend e), log, wanted⟩
        | .ok (backend, _) =>
          let rest := planWriting options config backend files
          { rest with log := log ++ rest.log, wanted := wanted ++ rest.wanted }

/-! ## Doing it -/

structure Result where
  files : FileTree
  stdout : String
  log : Log
  error : Option RunError

/-- Writes a file into a directory, which is made if it is missing. -/
def writeInto (directory name text : String) (files : FileTree) : Except FileError FileTree := do
  let files ← files.makeDirectory directory
  files.write (FileTree.join directory name) text

def wrote (path : String) : Event :=
  ⟨.info, .tool, "wrote " ++ path⟩

def writeOutputs (directory : Option String) : List Output → Result → Result
  | [], result => result
  | output :: rest, result =>
    let result := { result with log := result.log ++ output.log }
    match output.text, directory with
    | .error identifier, _ => { result with error := some (.reserved identifier) }
    | .ok text, none => writeOutputs directory rest { result with stdout := result.stdout ++ text }
    | .ok text, some directoryPath =>
      let path := FileTree.join directoryPath output.fileName
      match writeInto directoryPath output.fileName text result.files with
      | .error cause => { result with error := some (.write path cause) }
      | .ok files => writeOutputs directory rest { result with files, log := result.log ++ [wrote path] }

def perform (p : Plan) (files : FileTree) : Result :=
  match p.work with
  | .error e => ⟨files, "", p.log, some e⟩
  | .ok (.listing names) => ⟨files, String.join (names.map (· ++ "\n")), p.log, none⟩
  | .ok (.writing directory outputs) => writeOutputs directory outputs ⟨files, "", p.log, none⟩

def run (options : Options) (files : FileTree) : Result :=
  perform (plan options files) files

/-! ## The process -/

def versionText : String :=
  "knit 0.1.0\n"

def helpText : String :=
  "Generates code stubs from YANG modules\n\nUsage: knit [OPTIONS] <INPUTS>...\n"

def eventText (event : Event) : String :=
  event.level.label ++ " " ++ event.origin.path ++ ": " ++ event.message

structure Exit where
  code : Nat
  files : FileTree
  stdout : String
  stderr : List String

/-- Calls the tool with arguments and a log filter from the environment. -/
def invoke (arguments : List String) (environment : Option String) (files : FileTree) : Exit :=
  match Options.parse arguments with
  | .error .displayHelp => ⟨0, files, helpText, []⟩
  | .error .displayVersion => ⟨0, files, versionText, []⟩
  | .error _ => ⟨2, files, "", []⟩
  | .ok options =>
    let filter := LogFilter.choose options.logFilter environment
    let result := run options files
    let events := result.log ++ result.error.elim [] RunError.reports
    let shown := (events.filter filter.shows).map eventText
    let printed := (options.logFilter.elim [] LogFilter.complaints) ++ shown
    { code := result.error.elim 0 RunError.exitCode
      files := result.files
      stdout := result.stdout
      stderr := (lines ((String.join (printed.map (· ++ "\n"))).toList)).map String.ofList }

end YangStubs.Tool
