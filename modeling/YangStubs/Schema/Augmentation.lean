import YangStubs.Schema.Expansion

/-! # Augments

An augment adds its nodes to the node that its path leads to.  The target may itself come from another
augment, so the augments are gone through in rounds until none is left; a round without progress means
that the first augment left has no target.
-/

namespace YangStubs.Schema

open YangStubs.Text

namespace SchemaNode

def child? (node : SchemaNode) (name : String) : Option SchemaNode :=
  node.children.find? (·.name == name)

/-- The node that a path of names leads to, by first children. -/
def at? : List String → SchemaNode → Option SchemaNode
  | [], node => some node
  | name :: rest, node => (node.child? name).bind (at? rest)

/-- Changes the first node that satisfies `p`. -/
def updateFirst (p : SchemaNode → Bool) (f : SchemaNode → SchemaNode) :
    List SchemaNode → List SchemaNode
  | [] => []
  | node :: rest => if p node then f node :: rest else node :: updateFirst p f rest

def attachAt : List String → List SchemaNode → SchemaNode → SchemaNode
  | [], new, node => { node with children := node.children ++ new }
  | name :: rest, new, node =>
    { node with children := updateFirst (·.name == name) (attachAt rest new) node.children }

end SchemaNode

def pathSegments (path : String) : List String :=
  (wordsBy (· == '/') path.toList).map String.ofList

/-- The module and the names that the path of an augment leads through.  Only the first qualifier
    counts. -/
def augmentPath? (directory : Directory) (augment : Statement) : Option (String × List String) :=
  match pathSegments augment.name with
  | [] => none
  | first :: rest =>
    let (qualifier, name) := splitQualifier first
    (directory.moduleFor? augment.home qualifier).map fun home =>
      (home, name :: rest.map fun segment => (splitQualifier segment).2)

/-- The modules' schema trees by name, in load order. -/
abbrev SchemaTrees := List (String × SchemaNode)

namespace SchemaTrees

def at? (trees : SchemaTrees) (path : String × List String) : Option SchemaNode :=
  (trees.lookup path.1).bind (SchemaNode.at? path.2)

def attachAt (trees : SchemaTrees) (path : String × List String) (new : List SchemaNode) :
    SchemaTrees :=
  trees.map fun (name, tree) =>
    if name == path.1 then (name, tree.attachAt path.2 new) else (name, tree)

end SchemaTrees

/-- The nodes of an augment as they are placed at the target. -/
def graft (augment : Nat) (target : Site) : List SchemaNode → StateM Growth (List SchemaNode)
  | [] => return []
  | node :: rest => do
    let placed ← placeAt target { node with augment := some augment }
    let others ← graft augment target rest
    return placed :: others

/-- Tries the augments in order; answers the trees and the augments that have no target yet. -/
def augmentRound (directory : Directory) :
    SchemaTrees → List SchemaNode → StateM Growth (SchemaTrees × List SchemaNode)
  | trees, [] => return (trees, [])
  | trees, augment :: rest => do
    let found := (augmentPath? directory augment.statement).bind fun path =>
      (trees.at? path).map fun target => (path, target)
    match found with
    | some (path, target) =>
      reportGrowth .debug ("augmenting " ++ quoted augment.name ++ " from module " ++ augment.statement.home)
      let new ← graft augment.id target.statement.site augment.children
      augmentRound directory (trees.attachAt path new) rest
    | none =>
      let (trees, left) ← augmentRound directory trees rest
      return (trees, augment :: left)

/-- Goes through the augments until none is left.  The bound is on the number of rounds; each round but
    the last leaves fewer augments. -/
def augmentRounds (directory : Directory) :
    Nat → SchemaTrees → List SchemaNode → StateM Growth (SchemaTrees × List SchemaNode)
  | _, trees, [] => return (trees, [])
  | 0, trees, pending => return (trees, pending)
  | bound + 1, trees, pending => do
    let (trees, left) ← augmentRound directory trees pending
    if left.length == pending.length then return (trees, left)
    else augmentRounds directory bound trees left

/-- Applies the augments to the schema trees; fails at the first one that is left without a target. -/
def augmentAll (directory : Directory) (trees : SchemaTrees) (augments : List SchemaNode) :
    StateM Growth (Except SchemaError SchemaTrees) := do
  let (trees, left) ← augmentRounds directory augments.length trees augments
  match left with
  | [] => return .ok trees
  | augment :: _ => return .error (.augmentTarget augment.name augment.statement.home)

end YangStubs.Schema
