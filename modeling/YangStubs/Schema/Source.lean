import YangStubs.Log
import YangStubs.Schema.Error
import YangStubs.Schema.Statement

/-! # Sources of modules

Imported modules come from sources: a catalogue lists modules by name, a search path is a list of
directories, and any other rule will do that has texts for finitely many names.
-/

namespace YangStubs.Schema

inductive Source where
  /-- Answers by module name; other names are not dealt with. -/
  | catalogue (answers : List (String × Except SourceError String))
  /-- Directories, tried in order. -/
  | search (directories : List String)
  /-- Answers by a rule of its own, with a text for none but the listed names. -/
  | rule (names : List String) (answer : Import → Except SourceError String)
      (listed : ∀ i text, answer i = .ok text → i.name ∈ names)

/-- The file names under which an import may be found, the one with the revision first. -/
def Import.fileNames (i : Import) : List String :=
  (i.revision.map fun revision => i.name ++ "@" ++ revision ++ ".yin").toList ++ [i.name ++ ".yin"]

def Import.possiblePaths (i : Import) (directories : List String) : List String :=
  directories.flatMap fun directory => i.fileNames.map (FileTree.join directory)

namespace Source

def ask (source : Source) (files : FileTree) (i : Import) : Except SourceError String × Log :=
  match source with
  | .catalogue answers => ((answers.lookup i.name).getD (.error .unsupported), [])
  | .search directories =>
    match (i.possiblePaths directories).find? files.isFile with
    | none => (.error .notFound, [])
    | some path =>
      ((files.read path).mapError .unreadable,
       [⟨.debug, .searching, "resolved import " ++ i.name ++ " to " ++ path⟩])
  | .rule _ answer _ => (answer i, [])

def capacity (source : Source) (files : FileTree) : Nat :=
  match source with
  | .catalogue answers => answers.length
  | .search _ => files.entries.length
  | .rule names _ _ => names.length

end Source

end YangStubs.Schema
