import YangStubs.FileTree
import YangStubs.Text.Quoted

/-! # What can go wrong with a schema -/

namespace YangStubs.Schema

open YangStubs.Text (quoted)

inductive SourceError where
  /-- The source does not deal with such a module. -/
  | unsupported
  | notFound
  | unreadable (cause : FileError)
  deriving DecidableEq, Repr

def SourceError.message : SourceError → String
  | .unsupported => "the resolver does not support the import"
  | .notFound => "the module could not be found"
  | .unreadable _ => "the module failed to load"

inductive SchemaError where
  | malformed
  | notAModule (name : String)
  | missingArgument (keyword home : String)
  | duplicateModule (name : String)
  | importFailed (name : String) (cause : SourceError)
  | unknownQualifier (qualifier home : String)
  | unknownGrouping (name home : String)
  | augmentTarget (path home : String)
  | unsupported (keyword home : String)
  deriving DecidableEq, Repr

def SchemaError.message : SchemaError → String
  | .malformed => "malformed XML"
  | .notAModule name => "root element <" ++ name ++ "> is not a YIN module"
  | .missingArgument keyword home =>
    "`" ++ keyword ++ "` statement in module " ++ home ++ " is missing its argument"
  | .duplicateModule name => "module " ++ name ++ " is loaded twice"
  | .importFailed name cause => "failed to import module " ++ name ++ ": " ++ cause.message
  | .unknownQualifier qualifier home =>
    "prefix " ++ quoted qualifier ++ " is not declared in module " ++ home
  | .unknownGrouping name home =>
    "grouping " ++ quoted name ++ " used in module " ++ home ++ " is not defined"
  | .augmentTarget path home =>
    "augment target " ++ quoted path ++ " in module " ++ home ++ " does not exist"
  | .unsupported keyword home =>
    "`" ++ keyword ++ "` statements are not supported (module " ++ home ++ ")"

end YangStubs.Schema
