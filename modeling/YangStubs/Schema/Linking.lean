import YangStubs.Schema.Library

/-! # Linking references to definitions

A `uses` statement is linked to its grouping, and a `type` statement to its typedef.  A qualified name is
looked up at the top level of the module that the qualifier stands for, any other name in the scopes
around the statement, innermost first.
-/

namespace YangStubs.Schema

open YangStubs.Text (quoted)

/-- The modules by name, and for each the modules that its qualifiers stand for. -/
structure Directory where
  modules : List (String × Statement)
  /-- Per module, its qualifiers; of two equal ones the later counts. -/
  qualifiers : List (String × List (String × String))

/-- The qualifiers that a module declares: its own and those of its imports. -/
def declaredQualifiers (name : String) (top : Statement) : List (String × String) :=
  ((top.argOf? "prefix").map fun qualifier => (qualifier, name)).toList ++
    top.imports.filterMap fun i => i.qualifier.map fun qualifier => (qualifier, i.name)

def Library.directory (library : Library) : Directory :=
  let modules := library.modules.filterMap fun (name, id) =>
    (library.moduleStatement? id).map fun top => (name, top)
  ⟨modules, modules.map fun (name, top) => (name, declaredQualifiers name top)⟩

namespace Directory

/-- The module that a qualifier stands for in the module `home`; without a qualifier, `home` itself. -/
def moduleFor? (directory : Directory) (home : String) : Option String → Option String
  | none => some home
  | some qualifier => do
    let declared ← directory.qualifiers.lookup home
    declared.reverse.lookup qualifier

/-- The first definition of that keyword and name among the statements of a scope. -/
def definedIn? (scope : List Statement) (keyword name : String) : Option Statement :=
  scope.find? fun s => s.keyword == keyword && s.name == name

/-- The definition that a name in the module `home` refers to, given the scopes around the reference,
    innermost first. -/
def find? (directory : Directory) (home : String) (scopes : List (List Statement))
    (keyword name : String) : Except SchemaError (Option Statement) :=
  let (qualifier, localName) := splitQualifier name
  match directory.moduleFor? home qualifier with
  | none => .error (.unknownQualifier (qualifier.getD "") home)
  | some target =>
    if target == home then .ok (scopes.findSome? fun scope => definedIn? scope keyword localName)
    else .ok ((directory.modules.lookup target).bind fun top => definedIn? top.subs keyword localName)

end Directory

/-- A computation that reports events and may fail; what has been reported stays either way. -/
abbrev Logged (α : Type) := ExceptT SchemaError (StateM Log) α

def reportResolving (level : Level) (message : String) : Logged Unit :=
  modify (· ++ [⟨level, .resolving, message⟩])

/-- The links of a statement with these scopes around it: its grouping and its typedef. -/
def linksOf (directory : Directory) (scopes : List (List Statement)) (keyword : String)
    (name home : String) : Logged (Option Nat × Option Nat) :=
  if keyword == "uses" then do
    match directory.find? home scopes "grouping" name with
    | .error e => throw e
    | .ok none => throw (.unknownGrouping name home)
    | .ok (some definition) => return (some definition.id, none)
  else if keyword == "type" && !isBuiltinType name then do
    match directory.find? home scopes "typedef" name with
    | .error e =>
      reportResolving .warn e.message
      return (none, none)
    | .ok none =>
      reportResolving .warn ("unknown type " ++ quoted name ++ " in module " ++ home)
      return (none, none)
    | .ok (some definition) => return (none, some definition.id)
  else return (none, none)

mutual
def link (directory : Directory) (scopes : List (List Statement)) : Statement → Logged Statement
  | ⟨id, keyword, arg, home, origin, _, _, subs⟩ => do
    let (grouping, typedef) ← linksOf directory scopes keyword (arg.getD keyword) home
    let linked ← linkAll directory (subs :: scopes) subs
    return ⟨id, keyword, arg, home, origin, grouping, typedef, linked⟩

def linkAll (directory : Directory) (scopes : List (List Statement)) :
    List Statement → Logged (List Statement)
  | [] => return []
  | s :: rest => do
    let first ← link directory scopes s
    let others ← linkAll directory scopes rest
    return first :: others
end

end YangStubs.Schema
