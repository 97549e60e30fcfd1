import YangStubs.Schema.Reading
import YangStubs.Schema.Source

/-! # Libraries of modules

A library collects modules.  Texts are added one by one; the modules they import are then loaded from
sources, each name once, in the order in which the import statements come up.
-/

namespace YangStubs.Schema

open YangStubs.Markup

structure Library where
  /-- Everything that has been read, in order, refused modules included. -/
  forest : List Statement
  /-- The modules in load order, by name, with the number of their statement. -/
  modules : List (String × Nat)
  attempted : List String
  deriving Repr

namespace Library

def empty : Library :=
  ⟨[], [], []⟩

def next (library : Library) : Nat :=
  Statement.sizeOfAll library.forest + 1

def contains (library : Library) (name : String) : Bool :=
  (library.modules.lookup name).isSome

/-- What comes of adding a module: the library, the log, and the module's number. -/
structure Added where
  library : Library
  log : Log
  result : Except SchemaError Nat

def addElement (library : Library) (root : Element) : Added :=
  match moduleName root.tag with
  | .error e => ⟨library, [], .error e⟩
  | .ok name =>
    let id := library.next
    let log : Log := [⟨.debug, .reading, "reading module " ++ name⟩]
    let reading := readElement name id root
    let library := { library with forest := library.forest ++ reading.statements }
    match reading.error with
    | some e => ⟨library, log, .error e⟩
    | none =>
      if library.contains name then ⟨library, log, .error (.duplicateModule name)⟩
      else ⟨{ library with modules := library.modules ++ [(name, id)] }, log, .ok id⟩

def add (library : Library) (text : String) : Added :=
  match Element.parse? text with
  | none => ⟨library, [], .error .malformed⟩
  | some root => library.addElement root

def moduleStatement? (library : Library) (id : Nat) : Option Statement :=
  library.forest.find? (·.id == id)

end Library

structure Question where
  source : Nat
  topic : Import
  deriving DecidableEq, Repr

structure Loading where
  library : Library
  log : Log
  questions : List Question
  error : Option SchemaError

namespace Loading

def accept (loading : Loading) (i : Import) (text : String) : Loading :=
  let added := loading.library.add text
  let loading := { loading with library := added.library, log := loading.log ++ added.log }
  match added.result with
  | .error e => { loading with error := some e }
  | .ok id =>
    let name := (added.library.moduleStatement? id).elim "" (·.name)
    if name == i.name then loading
    else
      { loading with
        log := loading.log ++
          [⟨.warn, .loading, "import of " ++ i.name ++ " loaded a module named " ++ name⟩] }

/-- Asks the sources in order, the first of them at `position`.  `failure` is what a failing import is
    blamed on so far. -/
def askFrom (files : FileTree) (i : Import) (failure : SourceError) (position : Nat)
    (loading : Loading) : List Source → Loading
  | [] => { loading with error := some (.importFailed i.name failure) }
  | source :: sources =>
    let (answer, log) := source.ask files i
    let loading :=
      { loading with log := loading.log ++ log, questions := loading.questions ++ [⟨position, i⟩] }
    match answer with
    | .ok text => loading.accept i text
    | .error .unsupported => askFrom files i failure (position + 1) loading sources
    | .error e => askFrom files i e (position + 1) loading sources

/-- Loads the modules of some imports that are neither loaded nor have been asked for. -/
def loadImports (sources : List Source) (files : FileTree) (loading : Loading) :
    List Import → Loading
  | [] => loading
  | i :: rest =>
    match loading.error with
    | some _ => loading
    | none =>
      if loading.library.contains i.name || loading.library.attempted.contains i.name then
        loadImports sources files loading rest
      else
        let library :=
          { loading.library with attempted := loading.library.attempted ++ [i.name] }
        loadImports sources files (askFrom files i .unsupported 0 { loading with library } sources) rest

/-- Loads the imports of the modules from `position` on.  Newly loaded modules come last and are visited
    too; the bound is on the number of modules. -/
def loadFrom (sources : List Source) (files : FileTree) : Nat → Nat → Loading → Loading
  | 0, _, loading => loading
  | bound + 1, position, loading =>
    match loading.error with
    | some _ => loading
    | none =>
      match loading.library.modules[position]? with
      | none => loading
      | some (_, id) =>
        let imports := ((loading.library.moduleStatement? id).map (·.imports)).getD []
        loadFrom sources files bound (position + 1) (loadImports sources files loading imports)

end Loading

/-- Loads all missing imports.  A source gives each module at most once, which bounds the number of
    modules. -/
def Library.loadAll (library : Library) (sources : List Source) (files : FileTree) : Loading :=
  let bound := library.modules.length + (sources.map (·.capacity files)).foldl (· + ·) 0 + 1
  Loading.loadFrom sources files bound 0 ⟨library, [], [], none⟩

end YangStubs.Schema
