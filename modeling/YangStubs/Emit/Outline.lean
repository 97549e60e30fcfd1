import YangStubs.Model.Module

/-! # Outlines of models

A model as indented text, one line for each node, for a look at what it holds.
-/

namespace YangStubs.Emit

open YangStubs.Model
open YangStubs.Text

def indentation (depth : Nat) : String :=
  String.ofList (List.replicate (2 * depth) ' ')

def nameOf (nodes : List Node) (id : Nat) : String :=
  ((nodes.find? (·.id == id)).map Node.name).getD ""

def typeWords (nodes : List Node) (typing : Typing) : String :=
  let kindOf (id : Option Nat) : Option Kind :=
    (id.bind fun id => nodes.find? (·.id == id)).map Node.kind
  match kindOf typing.enumeration, kindOf typing.union, typing.path with
  | some (.enumeration enums), _, _ =>
    "enumeration \x7b" ++ joinTexts ", " (enums.map (nameOf nodes)) ++ "\x7d"
  | _, some (.union members), _ =>
    let label (m : MemberType) : String :=
      match m with
      | .builtin dataType => dataType
      | .typedef id => nameOf nodes id
    "union \x7b" ++ joinTexts " | " (members.map fun m => label m.2) ++ "\x7d"
  | _, _, some path =>
    match typing.reference.bind fun id => nodes.find? (·.id == id) with
    | some target => "leafref " ++ path ++ " -> " ++ target.key
    | none => "leafref " ++ path ++ " (unresolved)"
  | _, _, none => typing.dataType.getD "<unresolved>"

def keysWords : Kind → String
  | .list keys => if keys.isEmpty then "" else " [key " ++ joinTexts " " keys ++ "]"
  | _ => ""

def nodeLine (nodes : List Node) (depth : Nat) (node : Node) : String :=
  indentation depth ++ node.keyword ++ " " ++ node.name ++
    (node.typing.elim "" fun typing => ": " ++ typeWords nodes typing) ++ keysWords node.kind ++
    (if node.mandatory then " (mandatory)" else "") ++
    (if node.isAugmented then " (augmented)" else "")

mutual
/-- The lines below a node: its children, then the groupings that it uses. -/
def linesBelow (nodes : List Node) (depth : Nat) : Node → List String
  | ⟨_, _, _, _, _, _, _, _, _, _, _, members, _, owned⟩ =>
    match members with
    | none => []
    | some members =>
      linesAmong nodes depth members.children owned ++
        members.uses.map fun (name, _) => indentation depth ++ "uses " ++ name

def linesAmong (nodes : List Node) (depth : Nat) (children : List (String × Nat)) :
    List Node → List String
  | [] => []
  | node :: rest =>
    let here :=
      if children.any (·.2 == node.id) then
        nodeLine nodes depth node :: linesBelow nodes (depth + 1) node
      else []
    here ++ linesAmong nodes depth children rest
end

def definitionLines (m : Module) (keyword : String) : List String :=
  let nodes := m.listing
  let definitions := (m.ledgerOf keyword).filterMap fun (_, id) =>
    (nodes.find? (·.id == id)).filter (·.parent == some m.root.id)
  if definitions.isEmpty then []
  else
    "" :: (keyword ++ "s:") :: definitions.flatMap fun node => nodeLine nodes 1 node :: linesBelow nodes 2 node

def outline (m : Module) : String :=
  joinTexts "\n"
    (("module: " ++ m.name) :: linesBelow m.listing 1 m.root ++ definitionLines m "grouping" ++
      definitionLines m "typedef" ++ [""])

end YangStubs.Emit
