import YangStubs.Model.Build

/-! # Models of modules

The model of a module: its tree of nodes, the groupings and typedefs beside it, and how to find nodes.
-/

namespace YangStubs.Model

open YangStubs.Schema
open YangStubs.Text

structure Module where
  name : String
  root : Node
  definitions : List Node
  ledger : List LedgerEntry
  /-- The typedefs that are referred to, each behind those that were noted while it was made. -/
  derived : List DerivedType

/-! ## Making a model -/

def makeUnreferenced (shop : Workshop) (make : Maker) (keyword : String) :
    List Statement → Builder Unit
  | [] => return ()
  | statement :: rest => do
    match shop.definition? statement.id with
    | none => pure ()
    | some definition =>
      if (entered? keyword definition.key (← get).ledger).isNone then
        report .debug .modules ("wrapping unreferenced " ++ keyword ++ " " ++ quoted definition.key)
        discard <| makeDefinition shop make [] keyword definition
    makeUnreferenced shop make keyword rest

def buildRoot (shop : Workshop) (make : Maker) (tree : SchemaNode) : Builder Node := do
  report .info .modules ("wrapping module " ++ tree.name ++ " with wool " ++ shop.backend.name)
  let constructor := (shop.backend.lookup? "module").getD .module
  let root ← construct shop make [] none constructor tree
  makeUnreferenced shop make "grouping" (tree.statement.subsWith "grouping")
  makeUnreferenced shop make "typedef" (tree.statement.subsWith "typedef")
  return root

def Module.build (schema : Resolved) (backend : Backend) (tree : SchemaNode) : Module × Log :=
  let shop : Workshop := ⟨schema, backend, definitionsOf schema, ⟨1, tree.name⟩⟩
  let (root, progress) :=
    (buildRoot shop (makeWithin shop (jumpBound schema)) tree).run ⟨1, [], [], [], []⟩
  (⟨tree.name, root, progress.definitions, progress.ledger, progress.derived⟩, progress.log)

def Module.buildAll (schema : Resolved) (backend : Backend) : List SchemaNode → List Module × Log
  | [] => ([], [])
  | tree :: rest =>
    let first := Module.build schema backend tree
    let others := Module.buildAll schema backend rest
    (first.1 :: others.1, first.2 ++ others.2)

/-! ## Finding nodes -/

namespace Module

def insertNode (node : Node) : List Node → List Node
  | [] => [node]
  | other :: rest => if node.id < other.id then node :: other :: rest else other :: insertNode node rest

def listing (m : Module) : List Node :=
  Node.listingOfAll (m.root :: m.definitions)

def nodes (m : Module) : List Node :=
  m.listing.foldr insertNode []

def node? (m : Module) (id : Nat) : Option Node :=
  m.listing.find? (·.id == id)

def lookup? (m : Module) (keyword key : String) : Option Nat :=
  (entered? keyword key m.ledger).map (·.node)

/-- The child or used grouping of a node by name. -/
def child? (m : Module) (id : Nat) (name : String) : Option Nat :=
  (m.node? id).bind (·.child? name)

def pathFrom? (m : Module) : Nat → List String → Option Nat
  | id, [] => some id
  | id, name :: rest => (m.child? id name).bind fun child => m.pathFrom? child rest

def path? (m : Module) (names : List String) : Option Nat :=
  m.pathFrom? m.root.id names

def topWithin (m : Module) : Nat → Nat → Nat
  | 0, id => id
  | bound + 1, id =>
    match (m.node? id).bind (·.parent) with
    | none => id
    | some parent => m.topWithin bound parent

/-- The outermost node above a node; parents have smaller numbers. -/
def top (m : Module) (id : Nat) : Nat :=
  m.topWithin id id

def ledgerKeywords (m : Module) : List String :=
  (m.ledger.map (·.keyword)).eraseDups

def ledgerOf (m : Module) (keyword : String) : List (String × Nat) :=
  (m.ledger.filter (·.keyword == keyword)).map fun e => (e.key, e.node)

end Module

end YangStubs.Model
