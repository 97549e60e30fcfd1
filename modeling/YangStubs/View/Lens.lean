import YangStubs.Model.Module
import YangStubs.View.Item

/-! # Items of nodes

How the nodes of a model look through a backend: the names of things, the types of fields, and the items
that nodes give rise to.  What belongs to another module is imported.
-/

namespace YangStubs.View

open YangStubs.Model
open YangStubs.Naming (Scheme)
open YangStubs.Text

structure Lens where
  home : String
  nodes : List Node
  backend : Backend
  naming : Scheme

def Lens.ofModule (m : Module) (backend : Backend) : Lens :=
  ⟨m.name, m.listing, backend, backend.naming⟩

/-- A value with the imports that it needs. -/
structure Needing (α : Type) where
  value : α
  imports : List String

/-- Several values with the imports that they need. -/
def Needing.all {α : Type} (parts : List (Needing α)) : Needing (List α) :=
  ⟨parts.map (·.value), parts.flatMap (·.imports)⟩

namespace Lens

def node? (lens : Lens) (id : Nat) : Option Node :=
  lens.nodes.find? (·.id == id)

/-! ## Names -/

/-- The class name of the node around an inline type, if that is not the module.  Messages are named after
    their procedure. -/
def ownerName? (lens : Lens) (node : Node) : Option String := do
  let parent ← node.parent.bind lens.node?
  match parent.kind with
  | .module _ _ => none
  | .input | .output =>
    let rpc ← parent.parent.bind lens.node?
    return lens.naming.className rpc.name ++ lens.naming.className parent.name
  | _ => return lens.naming.className parent.name

def itemName (lens : Lens) (node : Node) : String :=
  match node.kind with
  | .leaf | .leafList => lens.naming.inlineName (lens.ownerName? node) node.name
  | _ => lens.naming.className node.name

/-- The name of what a node defines, imported if it is in another module. -/
def reference (lens : Lens) (node : Node) : Needing String :=
  let name := lens.itemName node
  ⟨name, if node.home != lens.home then [lens.naming.importPath node.home name] else []⟩

def builtin (lens : Lens) (name : String) : String :=
  (lens.backend.mapping? name).getD name

/-! ## Types -/

/-- The type of a node, without looking behind references. -/
def ownType (lens : Lens) (node : Node) : Needing String :=
  match node.typing with
  | none => ⟨lens.builtin "string", []⟩
  | some typing =>
    match typing.form with
    | .builtin => ⟨typing.dataType.getD (lens.builtin "string"), []⟩
    | .enumeration | .union => lens.reference node
    | .leafref => ⟨typing.dataType.getD (lens.builtin "leafref"), []⟩
    | .typedefRef =>
      match typing.typedef.bind lens.node? with
      | some typedef => lens.reference typedef
      | none => ⟨lens.builtin "string", []⟩
    | .unresolved => ⟨lens.builtin "string", []⟩

/-- The type of a node; a leafref has the type of its target. -/
def typeName (lens : Lens) (node : Node) : Needing String :=
  lens.ownType node.referent

/-! ## Fields -/

def fieldItem (lens : Lens) (node : Node) (typeName : String) (isList isClass optional : Bool) :
    FieldItem :=
  { name := lens.naming.variableName node.name
    schemaName := node.name
    typeName
    isList
    isClass
    mandatory := node.mandatory && !optional
    default := node.default?
    description := node.description }

def field (lens : Lens) (optional : Bool) (node : Node) : List (Needing FieldItem) :=
  let typed (type : Needing String) (isList isClass : Bool) : List (Needing FieldItem) :=
    [⟨lens.fieldItem node type.value isList isClass optional, type.imports⟩]
  match node.kind with
  | .leaf => typed (lens.typeName node) false false
  | .leafList => typed (lens.typeName node) true false
  | .container => typed (lens.reference node) false true
  | .list _ => typed (lens.reference node) true true
  | _ => []

mutual
/-- The fields below a node.  What is in a choice is optional. -/
def fields (lens : Lens) (optional : Bool) : Node → List (Needing FieldItem)
  | ⟨_, _, _, _, _, _, _, _, _, _, _, members, _, owned⟩ =>
    lens.fieldsAmong optional ((members.map (·.children)).getD []) owned

def fieldsAmong (lens : Lens) (optional : Bool) (children : List (String × Nat)) :
    List Node → List (Needing FieldItem)
  | [] => []
  | node :: rest =>
    let here :=
      if children.any (·.2 == node.id) then
        if node.kind == .choice || node.kind == .case then lens.fields true node
        else lens.field optional node
      else []
    here ++ lens.fieldsAmong optional children rest
end

def fieldList (lens : Lens) (node : Node) : Needing (List FieldItem) :=
  .all (lens.fields false node)

/-! ## Items -/

def classOf (lens : Lens) (node : Node) : ClassItem :=
  let fields := lens.fieldList node
  let bases := Needing.all
    ((((node.members.map (·.uses)).getD []).filterMap fun (_, id) => lens.node? id).map lens.reference)
  { name := lens.naming.className node.name
    schemaName := node.name
    keyword := node.keyword
    description := node.description
    fields := fields.value
    bases := bases.value
    imports := sortedSet (fields.imports ++ bases.imports)
    isAugmented := node.isAugmented }

def rpcOf (lens : Lens) (node : Node) : RpcItem :=
  let message (name : String) : Needing (List FieldItem) :=
    match (node.child? name).bind lens.node? with
    | some child => lens.fieldList child
    | none => ⟨[], []⟩
  let input := message "input"
  let output := message "output"
  { name := lens.naming.className node.name
    schemaName := node.name
    description := node.description
    input := input.value
    output := output.value
    imports := sortedSet (input.imports ++ output.imports) }

def variant (lens : Lens) (value : Node) : Variant :=
  { name := lens.naming.variantName value.name
    schemaName := value.name
    value := match value.kind with
      | .enum number => number
      | _ => none
    description := value.description }

def enumOf (lens : Lens) (node : Node) (enums : List Nat) : EnumItem :=
  { name := lens.itemName node
    schemaName := node.name
    description := node.description
    variants := (enums.filterMap lens.node?).map lens.variant }

def member (lens : Lens) (name : String) (m : MemberType) : Needing Member :=
  let type : Needing String :=
    match m with
    | .builtin dataType => ⟨dataType, []⟩
    | .typedef id =>
      match lens.node? id with
      | some typedef => lens.reference typedef
      | none => ⟨lens.builtin "string", []⟩
  ⟨⟨lens.naming.className name, type.value⟩, type.imports⟩

def unionOf (lens : Lens) (node : Node) (members : List (String × MemberType)) : UnionItem :=
  let members := Needing.all (members.map fun (name, m) => lens.member name m)
  { name := lens.itemName node
    schemaName := node.name
    description := node.description
    members := members.value
    imports := sortedSet members.imports }

def aliasOf (lens : Lens) (node : Node) : AliasItem :=
  let type := lens.typeName node
  { name := lens.itemName node
    schemaName := node.name
    description := node.description
    typeName := type.value
    imports := sortedSet type.imports }

end Lens

end YangStubs.View
