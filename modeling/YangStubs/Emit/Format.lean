import YangStubs.Backend.Builtin
import YangStubs.Emit.Outline
import YangStubs.Emit.Stubs

/-! # Output formats -/

namespace YangStubs.Emit

open YangStubs.Model
open YangStubs.Text
open YangStubs.View (ModuleItems)

inductive Format where
  | tree
  | rust
  deriving DecidableEq, Repr

namespace Format

def defaultBackend : Format → String
  | .tree => Backend.defaultName
  | .rust => Backend.rustName

def fileName (format : Format) (moduleName : String) : String :=
  match format with
  | .tree => moduleName ++ ".txt"
  | .rust =>
    String.ofList (replaceChar '.' '_' (replaceChar '-' '_' moduleName.toList)) ++ ".rs"

def generate (format : Format) (m : Module) (backend : Backend) : String × Log :=
  match format with
  | .tree => (outline m, [])
  | .rust =>
    let (view, viewLog) := ModuleItems.ofModule m backend
    let (file, log) := (stubFile backend.naming view).run []
    (file.text, viewLog ++ log)

/-- The identifier that cannot be a name in what a model would be written as, if there is one. -/
def misused? (format : Format) (m : Module) (backend : Backend) : Option Identifier :=
  match format with
  | .tree => none
  | .rust => ((stubFile backend.naming (ModuleItems.ofModule m backend).1).run []).1.misused?

/-- Writes a model in a format.  Stubs are read back item by item before they are laid out, so nothing comes
    of a model with a reserved word in the place of a name. -/
def emit (format : Format) (m : Module) (backend : Backend) : Except Identifier String × Log :=
  let (text, log) := format.generate m backend
  (match format.misused? m backend with
   | some identifier => .error identifier
   | none => .ok text, log)

end Format

end YangStubs.Emit
