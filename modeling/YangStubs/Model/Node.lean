import YangStubs.Backend.Basic
import YangStubs.Schema.Statement
import YangStubs.Text.CharClass

/-! # Model nodes

A model node stands for a statement as a target sees it.  Nodes are numbered in the order of their
creation and own the nodes made below them, so that a model is a tree.  Groupings and typedefs are shared:
they stand beside the tree and are referred to by number.
-/

namespace YangStubs.Model

open YangStubs.Schema
open YangStubs.Text
open YangStubs.Backend (Constructor CustomPart)

inductive MemberType where
  | builtin (dataType : String)
  | typedef (node : Nat)
  deriving DecidableEq, Repr

inductive Kind where
  | module (qualifier space : Option String)
  | container
  | grouping
  | list (keys : List String)
  | choice
  | case
  | rpc
  | input
  | output
  | notification
  | leaf
  | leafList
  | typedef
  | enumeration (enums : List Nat)
  | enum (value : Option Int)
  | union (members : List (String × MemberType))
  | custom
  deriving DecidableEq, Repr

/-- The nodes that a node brings together, by name. -/
structure Members where
  children : List (String × Nat)
  uses : List (String × Nat)
  deriving DecidableEq, Repr

structure Typing where
  dataType : Option String
  isBuiltin : Bool
  builtin : Option String
  typedef : Option Nat
  enumeration : Option Nat
  union : Option Nat
  /-- The node made for the leaf that a leafref points to. -/
  reference : Option Nat
  path : Option String
  default : Option String
  mandatory : Bool
  deriving DecidableEq, Repr

inductive TypeForm where
  | builtin
  | enumeration
  | union
  | leafref
  | typedefRef
  | unresolved
  deriving DecidableEq, Repr

def Typing.form (typing : Typing) : TypeForm :=
  match typing.builtin with
  | some "enumeration" => .enumeration
  | some "union" => .union
  | some "leafref" => .leafref
  | some _ => .builtin
  | none => if typing.typedef.isSome then .typedefRef else .unresolved

/-- A node with all that was made below it. -/
structure Node where
  id : Nat
  statement : Nat
  /-- The node below which it was made; only the node of the module has none. -/
  parent : Option Nat
  keyword : String
  name : String
  home : String
  /-- The name under which nodes of its keyword find it. -/
  key : String
  description : Option String
  config : Option Bool
  /-- Whether some of its members come from an augment. -/
  isAugmented : Bool
  kind : Kind
  members : Option Members
  typing : Option Typing
  /-- The nodes made right below it, in the order of their numbers. -/
  owned : List Node
  deriving Repr

namespace Node

mutual
def listing : Node → List Node
  | ⟨id, statement, parent, keyword, name, home, key, description, config, isAugmented, kind,
      members, typing, owned⟩ =>
    ⟨id, statement, parent, keyword, name, home, key, description, config, isAugmented, kind,
      members, typing, owned⟩ :: listingOfAll owned

def listingOfAll : List Node → List Node
  | [] => []
  | node :: rest => node.listing ++ listingOfAll rest
end

mutual
/-- The node that says of which type a node is: for a leafref with a target that of the target. -/
def referent : Node → Node
  | ⟨id, statement, parent, keyword, name, home, key, description, config, isAugmented, kind,
      members, typing, owned⟩ =>
    let node : Node :=
      ⟨id, statement, parent, keyword, name, home, key, description, config, isAugmented, kind, members, typing, owned⟩
    match typing.bind (·.reference) with
    | none => node
    | some target => (referentIn? target owned).getD node

/-- The same for the node with a number among several. -/
def referentIn? (target : Nat) : List Node → Option Node
  | [] => none
  | node :: rest => if node.id == target then some node.referent else referentIn? target rest
end

def child? (node : Node) (name : String) : Option Nat :=
  node.members.bind fun m => (m.children.lookup name).or (m.uses.lookup name)

def default? (node : Node) : Option String :=
  node.typing.bind (·.default)

def mandatory (node : Node) : Bool :=
  node.typing.any (·.mandatory)

end Node

/-! ## Kinds of statements -/

def readDigits (digits : List Char) : Option Nat :=
  if digits.isEmpty || !digits.all isAsciiDigit then none
  else some (digits.foldl (fun n c => 10 * n + (c.toNat - '0'.toNat)) 0)

/-- The value of an enum: an integer of 64 bits, with or without a sign. -/
def readEnumValue (text : String) : Option Int := do
  let value ← match text.toList with
    | '-' :: digits => (readDigits digits).map fun n => -(n : Int)
    | '+' :: digits => (readDigits digits).map fun n => (n : Int)
    | digits => (readDigits digits).map fun n => (n : Int)
  guard (-9223372036854775808 ≤ value && value ≤ 9223372036854775807)
  return value

def kindOf (constructor : Constructor) (statement : Statement) : Kind :=
  match constructor with
  | .module => .module (statement.argOf? "prefix") (statement.argOf? "namespace")
  | .container => .container
  | .grouping => .grouping
  | .list =>
    .list (((statement.argOf? "key").elim [] fun keys => wordsBy isBlank keys.toList).map String.ofList)
  | .choice => .choice
  | .case => .case
  | .rpc => .rpc
  | .input => .input
  | .output => .output
  | .notification => .notification
  | .leaf => .leaf
  | .leafList => .leafList
  | .typedef => .typedef
  | .enum => .enum ((statement.argOf? "value").bind readEnumValue)
  | .custom _ => .custom

def partOf : Constructor → CustomPart
  | .leaf | .leafList | .typedef => .typing
  | .enum => .nothing
  | .custom part => part
  | _ => .members

end YangStubs.Model
