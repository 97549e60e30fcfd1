import YangStubs.Tool.Run

/-! # The command line program

Fetches the files that a run looks at, works the run out, and does what is to be done.
-/

namespace YangStubs.Tool

def entryAt (path : String) : IO (Option Entry) := do
  let place := (← IO.currentDir) / path
  if ← place.isDir then return some .directory
  try
    let bytes ← IO.FS.readBinFile place
    match String.fromUTF8? bytes with
    | some content => return some (.text content)
    | none => return some .binary
  catch _ => return none

/-- Works a run out, with more and more files at hand, until it looks at no further ones. -/
partial def workOut (options : Options) (fetched : List String) (files : FileTree) : IO Plan := do
  let worked := plan options files
  let missing := (worked.wanted.filter fun path => !fetched.contains path).eraseDups
  if missing.isEmpty then return worked
  let mut files := files
  for path in missing do
    if let some entry ← entryAt path then
      files := files.add path entry
  workOut options (fetched ++ missing) files

def printEvents (filter : LogFilter) (log : Log) : IO Unit := do
  for event in log do
    if filter.shows event then
      IO.eprintln (eventText event)

def writeOne (filter : LogFilter) (directory : Option String) (fileName text : String) : IO (Option String) := do
  match directory with
  | none =>
    IO.print text
    return none
  | some directory =>
    let path := FileTree.join directory fileName
    try
      IO.FS.createDirAll directory
      IO.FS.writeFile path text
      printEvents filter [wrote path]
      return none
    catch e => return some ("failed to write " ++ path ++ ": " ++ toString e)

def writeAll (filter : LogFilter) (directory : Option String) : List Output → IO UInt32
  | [] => return 0
  | output :: rest => do
    printEvents filter output.log
    match output.text with
    | .error identifier =>
      IO.eprintln (RunError.reserved identifier).message
      return 101
    | .ok text =>
      match ← writeOne filter directory output.fileName text with
      | none => writeAll filter directory rest
      | some message =>
        printEvents filter [⟨.error, .tool, message⟩]
        return 1

def execute (options : Options) : IO UInt32 := do
  let filter := LogFilter.choose options.logFilter (← IO.getEnv "RUST_LOG")
  for complaint in options.logFilter.elim [] LogFilter.complaints do
    IO.eprintln complaint
  let worked ← workOut options [] ⟨[]⟩
  printEvents filter worked.log
  match worked.work with
  | .error e =>
    printEvents filter [e.report]
    return 1
  | .ok (.listing names) =>
    for name in names do
      IO.println name
    return 0
  | .ok (.writing directory outputs) => writeAll filter directory outputs

end YangStubs.Tool

open YangStubs.Tool in
def main (arguments : List String) : IO UInt32 := do
  match Options.parse arguments with
  | .ok options => execute options
  | .error .displayHelp =>
    IO.print helpText
    return 0
  | .error .displayVersion =>
    IO.print versionText
    return 0
  | .error _ =>
    IO.eprint helpText
    return 2
