import YangStubs.Schema.DataPath

/-! # Resolved schemas

The result of loading and resolving modules: the statements with their links, the schema trees, and the
targets of leafrefs.
-/

namespace YangStubs.Schema

open YangStubs.Text (quoted)

structure Resolved where
  forest : List Statement
  made : List Made
  modules : SchemaTrees
  groupings : List SchemaNode
  augments : List SchemaNode
  /-- The leafs that leafref types refer to, by the numbers of both. -/
  targets : List (Nat × Nat)

def statementsOf (forest : List Statement) (made : List Made) : List Statement.Placed :=
  Statement.listingOfAll none none forest ++ made.flatMap fun m => m.statement.listing (some m.parent)

/-- The leafref type with a path that a statement may be, with its leaf and the path. -/
def leafref? (s : Statement.Placed) : Option (Statement × Statement × String) := do
  guard (s.statement.keyword == "type" && s.statement.arg == some "leafref")
  let leaf ← s.around
  guard (isLeafKeyword leaf.keyword)
  let path ← s.statement.argOf? "path"
  return (s.statement, leaf, path)

def linkLeafrefs (directory : Directory) (trees : SchemaTrees) (groupings : List SchemaNode) :
    List (Statement × Statement × String) → List (Nat × Nat) × Log
  | [] => ([], [])
  | (type, leaf, path) :: rest =>
    let (targets, log) := linkLeafrefs directory trees groupings rest
    let position := (locateIn? leaf.id [] (trees.map (·.2) ++ groupings)).getD ⟨⟨leaf, [], none⟩, []⟩
    match leafrefTarget? directory trees position path with
    | some target => ((type.id, target.id) :: targets, log)
    | none =>
      (targets,
       ⟨.debug, .resolving,
        "leafref path " ++ quoted path ++ " of " ++ quoted leaf.name ++ " does not resolve"⟩ :: log)

structure Resolution where
  result : Except SchemaError Resolved
  log : Log

def Library.link (library : Library) : Resolution :=
  let directory := library.directory
  let (linked, log) := (linkAll directory [] library.forest).run.run []
  match linked with
  | .error e => ⟨.error e, log⟩
  | .ok forest =>
    let (expansion, growth) :=
      (expandForest forest (library.modules.map (·.2))).run ⟨library.next, [], log⟩
    let trees := (library.modules.map (·.1)).zip expansion.modules
    let (augmented, growth) := (augmentAll directory trees expansion.augments).run growth
    match augmented with
    | .error e => ⟨.error e, growth.log⟩
    | .ok trees =>
      let (targets, log) :=
        linkLeafrefs directory trees expansion.groupings ((statementsOf forest growth.made).filterMap leafref?)
      ⟨.ok ⟨forest, growth.made, trees, expansion.groupings, expansion.augments, targets⟩,
       growth.log ++ log⟩

/-- What comes of loading and resolving: the questions to sources besides. -/
structure Outcome where
  result : Except SchemaError Resolved
  log : Log
  questions : List Question

/-- Loads the missing imports of a library, then resolves it. -/
def Library.resolve (library : Library) (sources : List Source) (files : FileTree) : Outcome :=
  let loading := library.loadAll sources files
  match loading.error with
  | some e => ⟨.error e, loading.log, loading.questions⟩
  | none =>
    let resolution := loading.library.link
    ⟨resolution.result, loading.log ++ resolution.log, loading.questions⟩

/-- Adds texts in order, up to the first that is refused. -/
def Library.addAll (library : Library) : List String → Library.Added
  | [] => ⟨library, [], .ok 0⟩
  | text :: rest =>
    let added := library.add text
    match added.result with
    | .error _ => added
    | .ok _ =>
      let others := added.library.addAll rest
      { others with log := added.log ++ others.log }

def resolveTexts (texts : List String) (sources : List Source) (files : FileTree) : Outcome :=
  let added := Library.empty.addAll texts
  match added.result with
  | .error e => ⟨.error e, added.log, []⟩
  | .ok _ =>
    let outcome := added.library.resolve sources files
    { outcome with log := added.log ++ outcome.log }

end YangStubs.Schema
