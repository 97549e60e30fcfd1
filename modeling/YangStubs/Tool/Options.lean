import YangStubs.Emit.Format

/-! # Command line options

Arguments are read from left to right.  The value of an option that stands apart from it is looked at only
when the next argument is, so that an unknown option is reported before a bad value right in front of it.
-/

namespace YangStubs.Tool

open YangStubs.Emit (Format)
open YangStubs.Text

inductive UsageError where
  | missingRequiredArgument
  | invalidValue
  | unknownArgument
  | argumentConflict
  | tooManyValues
  | displayHelp
  | displayVersion
  deriving DecidableEq, Repr

structure Options where
  inputs : List String
  searchPaths : List String
  /-- The name of the backend, if one is chosen. -/
  backend : Option String
  format : Format
  outputPath : Option String
  config : Option String
  /-- Whether the backends are to be listed, and nothing else is to be done. -/
  listBackends : Bool
  logFilter : Option String
  deriving DecidableEq, Repr

def Options.initial : Options :=
  ⟨[], [], none, .tree, none, none, false, none⟩

inductive ValueOption where
  | searchPath
  | backend
  | format
  | outputPath
  | config
  | logFilter
  deriving DecidableEq, Repr

inductive Switch where
  | listBackends
  | help
  | version
  deriving DecidableEq, Repr

def longOption? : String → Option (ValueOption ⊕ Switch)
  | "path" => some (.inl .searchPath)
  | "wool" => some (.inl .backend)
  | "format" => some (.inl .format)
  | "output-path" => some (.inl .outputPath)
  | "config" => some (.inl .config)
  | "log-level" => some (.inl .logFilter)
  | "list-wools" => some (.inr .listBackends)
  | "help" => some (.inr .help)
  | "version" => some (.inr .version)
  | _ => none

def shortOption? : Char → Option (ValueOption ⊕ Switch)
  | 'p' => some (.inl .searchPath)
  | 'w' => some (.inl .backend)
  | 'f' => some (.inl .format)
  | 'o' => some (.inl .outputPath)
  | 'c' => some (.inl .config)
  | 'h' => some (.inr .help)
  | 'V' => some (.inr .version)
  | _ => none

inductive Argument where
  /-- Two dashes: only inputs follow. -/
  | escape
  | long (name : String) (value : Option String)
  | short (letter : Char) (rest : List Char)
  | plain (text : String)
  deriving DecidableEq, Repr

/-- Tells arguments apart by their dashes.  A single dash is plain. -/
def Argument.ofText (text : String) : Argument :=
  match text.toList with
  | ['-', '-'] => .escape
  | '-' :: '-' :: cs =>
    match cutAt? '=' cs with
    | some (name, value) => .long (String.ofList name) (some (String.ofList value))
    | none => .long (String.ofList cs) none
  | '-' :: letter :: rest => .short letter rest
  | _ => .plain text

structure ArgumentState where
  options : Options
  /-- The options that have been given a value. -/
  given : List ValueOption
  /-- The last option, with its value if that has been read. -/
  pending : Option (ValueOption × Option String)

def checkedPath (value : String) : Except UsageError String :=
  if value.isEmpty then .error .invalidValue else .ok value

def ArgumentState.accept (state : ArgumentState) (option : ValueOption) (value : String) :
    Except UsageError ArgumentState := do
  if option != .searchPath && state.given.contains option then throw .argumentConflict
  let options := state.options
  let options ← match option with
    | .searchPath => do
      let path ← checkedPath value
      pure { options with searchPaths := options.searchPaths ++ [path] }
    | .backend => pure { options with backend := some value }
    | .format =>
      match value with
      | "tree" => pure { options with format := .tree }
      | "rust" => pure { options with format := .rust }
      | _ => throw .invalidValue
    | .outputPath => do
      let path ← checkedPath value
      pure { options with outputPath := some path }
    | .config => do
      let path ← checkedPath value
      pure { options with config := some path }
    | .logFilter => pure { options with logFilter := some value }
  return { state with options, given := option :: state.given }

def ArgumentState.settle (state : ArgumentState) : Except UsageError ArgumentState :=
  match state.pending with
  | none => .ok state
  | some (_, none) => .error .invalidValue
  | some (option, some value) => { state with pending := none }.accept option value

/-- Reads an option with a value, which may stand in the same argument. -/
def ArgumentState.readOption (state : ArgumentState) (option : ValueOption) (value : Option String) :
    Except UsageError ArgumentState := do
  let state ← state.settle
  match value with
  | some value => state.accept option value
  | none => return { state with pending := some (option, none) }

def ArgumentState.readSwitch (state : ArgumentState) (switch : Switch) : Except UsageError ArgumentState := do
  let state ← state.settle
  match switch with
  | .help => throw .displayHelp
  | .version => throw .displayVersion
  | .listBackends =>
    if state.options.listBackends then throw .argumentConflict
    else return { state with options := { state.options with listBackends := true } }

/-- The value behind the letter of an option; an equals sign in front of it is not part of it. -/
def attachedValue : List Char → Option String
  | [] => none
  | '=' :: rest => some (String.ofList rest)
  | rest => some (String.ofList rest)

def ArgumentState.readInput (state : ArgumentState) (text : String) : Except UsageError ArgumentState := do
  let state ← state.settle
  return { state with options := { state.options with inputs := state.options.inputs ++ [text] } }

def ArgumentState.read (state : ArgumentState) (argument : Argument) : Except UsageError ArgumentState :=
  match argument with
  | .escape => .ok state
  | .long name value =>
    match longOption? name, value with
    | some (.inl option), _ => state.readOption option value
    | some (.inr switch), none => state.readSwitch switch
    | some (.inr _), some _ => .error .tooManyValues
    | none, _ => .error .unknownArgument
  | .short letter rest =>
    match shortOption? letter with
    | some (.inl option) => state.readOption option (attachedValue rest)
    | some (.inr switch) => state.readSwitch switch
    | none => .error .unknownArgument
  | .plain text =>
    match state.pending with
    | some (option, none) => .ok { state with pending := some (option, some text) }
    | _ => state.readInput text

def ArgumentState.readInputs (state : ArgumentState) :
    List String → Except UsageError ArgumentState
  | [] => .ok state
  | text :: rest => do
    let state ← state.readInput text
    state.readInputs rest

def ArgumentState.readAll (state : ArgumentState) : List String → Except UsageError ArgumentState
  | [] => .ok state
  | text :: rest =>
    match Argument.ofText text with
    | .escape => state.readInputs rest
    | argument => do
      let state ← state.read argument
      state.readAll rest

/-- Reads the arguments of a run.  There has to be an input, unless the backends are to be listed. -/
def Options.parse (arguments : List String) : Except UsageError Options := do
  let state ← ArgumentState.readAll ⟨.initial, [], none⟩ arguments
  let state ← state.settle
  if state.options.inputs.isEmpty && !state.options.listBackends then
    throw .missingRequiredArgument
  return state.options

end YangStubs.Tool
