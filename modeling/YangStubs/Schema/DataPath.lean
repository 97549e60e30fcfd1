import YangStubs.Schema.Augmentation

/-! # Data paths

A leafref names its target by a path through data nodes: `..` goes up, a name goes down.  Choices and
cases are no part of such paths; predicates in brackets are ignored.
-/

namespace YangStubs.Schema

open YangStubs.Text

/-- The characters outside of brackets, given how many brackets are open. -/
def outsideBrackets (depth : Nat) : List Char → List Char
  | [] => []
  | '[' :: rest => outsideBrackets (depth + 1) rest
  | ']' :: rest => outsideBrackets (depth - 1) rest
  | c :: rest => if depth == 0 then c :: outsideBrackets depth rest else outsideBrackets depth rest

def withoutPredicates (path : List Char) : List Char :=
  outsideBrackets 0 path

/-- A node in a schema tree with the nodes above it, nearest first. -/
structure Position where
  node : SchemaNode
  above : List SchemaNode
  deriving Repr

namespace Position

def up? (position : Position) : Option Position :=
  match position.above.dropWhile fun node => isSeenThrough node.keyword with
  | [] => none
  | node :: above => some ⟨node, above⟩

end Position

mutual
/-- The first data node of that name that a node is or, if it is a choice or a case, contains. -/
def SchemaNode.dataNode? (name : String) (above : List SchemaNode) : SchemaNode → Option Position
  | ⟨statement, children, augment⟩ =>
    let node : SchemaNode := ⟨statement, children, augment⟩
    if isSeenThrough statement.keyword then dataNodeIn? name (node :: above) children
    else if statement.name == name then some ⟨node, above⟩
    else none

def dataNodeIn? (name : String) (above : List SchemaNode) : List SchemaNode → Option Position
  | [] => none
  | node :: rest =>
    match node.dataNode? name above with
    | some position => some position
    | none => dataNodeIn? name above rest
end

def Position.down? (position : Position) (name : String) : Option Position :=
  dataNodeIn? name (position.node :: position.above) position.node.children

mutual
def SchemaNode.locate? (id : Nat) (above : List SchemaNode) : SchemaNode → Option Position
  | ⟨statement, children, augment⟩ =>
    let node : SchemaNode := ⟨statement, children, augment⟩
    if statement.id == id then some ⟨node, above⟩ else locateIn? id (node :: above) children

def locateIn? (id : Nat) (above : List SchemaNode) : List SchemaNode → Option Position
  | [] => none
  | node :: rest =>
    match node.locate? id above with
    | some position => some position
    | none => locateIn? id above rest
end

inductive Step where
  | up
  | down (qualifier : Option String) (name : String)
  deriving DecidableEq, Repr

/-- A data path: from the root of a module, or from a leaf. -/
structure DataPath where
  absolute : Bool
  steps : List Step
  deriving DecidableEq, Repr

def stepOf (segment : List Char) : Step :=
  if segment == ['.', '.'] then .up
  else
    let (qualifier, name) := splitQualifier (String.ofList segment)
    .down qualifier name

/-- Reads a data path; predicates and white space around segments are dropped. -/
def DataPath.ofString (path : String) : DataPath :=
  let path := trim (withoutPredicates path.toList)
  let segments := ((splitBy (· == '/') path).map trim).filter (!·.isEmpty)
  ⟨path.head? == some '/', segments.map stepOf⟩

/-- Follows steps in the schema trees from a position, or from outside of all modules. -/
def follow? (directory : Directory) (trees : SchemaTrees) (home : String) :
    Option Position → List Step → Option (Option Position)
  | position, [] => some position
  | none, .up :: _ => none
  | some position, .up :: rest => do
    let position ← position.up?
    follow? directory trees home (some position) rest
  | some position, .down _ name :: rest => do
    let position ← position.down? name
    follow? directory trees home (some position) rest
  | none, .down qualifier name :: rest => do
    let tree ← trees.lookup (← directory.moduleFor? home qualifier)
    let position ← Position.down? ⟨tree, []⟩ name
    follow? directory trees home (some position) rest

def leafrefTarget? (directory : Directory) (trees : SchemaTrees) (leaf : Position) (path : String) :
    Option SchemaNode := do
  let path := DataPath.ofString path
  let start := if path.absolute then none else some leaf
  let position ← (← follow? directory trees leaf.node.statement.home start path.steps)
  guard (isLeafKeyword position.node.keyword)
  return position.node

end YangStubs.Schema
