import YangStubs.Pattern.Reader
import YangStubs.Text.Quoted

/-! # Type patterns

A backend maps built-in types to types of its own by patterns on their names.  The pattern is anchored at
both ends before it is read.
-/

namespace YangStubs.Backend

open YangStubs.Pattern
open YangStubs.Text (quoted)

inductive BackendError where
  | badPattern (pattern : String)
  | duplicate (name : String)
  | unknownParent (name : String)
  | unknown (name : String)
  deriving DecidableEq, Repr

def BackendError.message : BackendError → String
  | .badPattern pattern => "invalid type pattern " ++ quoted pattern
  | .duplicate name => "a wool named " ++ quoted name ++ " is already registered"
  | .unknownParent name => "parent wool " ++ quoted name ++ " is not registered"
  | .unknown name => "no wool named " ++ quoted name

/-- A pattern on the names of built-in types, and the type that they map to. -/
structure TypePattern where
  text : String
  regex : Regex
  dataType : String
  deriving Repr

def anchored (pattern : String) : String :=
  "^(?:" ++ pattern ++ ")$"

def TypePattern.compile (pattern dataType : String) : Except BackendError TypePattern :=
  match Regex.parse? (anchored pattern) with
  | some regex => .ok ⟨anchored pattern, regex, dataType⟩
  | none => .error (.badPattern pattern)

def TypePattern.isMatch (pattern : TypePattern) (builtin : String) : Bool :=
  pattern.regex.matchesIn builtin.toList

end YangStubs.Backend
