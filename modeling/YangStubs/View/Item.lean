import YangStubs.Text.LineDiff

/-! # Items of a view

What a target module is made of: classes, enums, unions, aliases and remote procedures, under the names
that the target gives them.  Two items of a kind are compared by an outline of their structure.
-/

namespace YangStubs.View

structure FieldItem where
  name : String
  schemaName : String
  typeName : String
  isList : Bool
  isClass : Bool
  mandatory : Bool
  default : Option String
  description : Option String
  deriving DecidableEq, Repr

/-- A class: the fields of a container, list, grouping, case or notification. -/
structure ClassItem where
  name : String
  schemaName : String
  keyword : String
  description : Option String
  fields : List FieldItem
  bases : List String
  imports : List String
  isAugmented : Bool
  deriving DecidableEq, Repr

structure Variant where
  name : String
  schemaName : String
  value : Option Int
  description : Option String
  deriving DecidableEq, Repr

structure EnumItem where
  name : String
  schemaName : String
  description : Option String
  variants : List Variant
  deriving DecidableEq, Repr

structure Member where
  name : String
  typeName : String
  deriving DecidableEq, Repr

structure UnionItem where
  name : String
  schemaName : String
  description : Option String
  members : List Member
  imports : List String
  deriving DecidableEq, Repr

structure AliasItem where
  name : String
  schemaName : String
  description : Option String
  typeName : String
  imports : List String
  deriving DecidableEq, Repr

structure RpcItem where
  name : String
  schemaName : String
  description : Option String
  input : List FieldItem
  output : List FieldItem
  imports : List String
  deriving DecidableEq, Repr

/-! ## Kinds and outlines -/

inductive ItemKind where
  | classes
  | enums
  | unions
  | aliases
  | rpcs
  deriving DecidableEq, Repr

def ItemKind.label : ItemKind → String
  | .classes => "class"
  | .enums => "enum"
  | .unions => "union"
  | .aliases => "typedef"
  | .rpcs => "rpc"

class Item (α : Type) where
  kind : ItemKind
  name : α → String
  /-- The structure as text; items of one structure are interchangeable. -/
  outline : α → String

def fieldLines (members : List FieldItem) : String :=
  String.join (members.map fun v =>
    v.schemaName ++ ": " ++ v.typeName ++ (if v.isList then "[]" else "") ++ "\n")

instance : Item ClassItem where
  kind := .classes
  name := ClassItem.name
  outline c := String.join (c.bases.map fun b => "uses " ++ b ++ "\n") ++ fieldLines c.fields

instance : Item EnumItem where
  kind := .enums
  name := EnumItem.name
  outline e := String.join (e.variants.map fun v => v.schemaName ++ "\n")

instance : Item UnionItem where
  kind := .unions
  name := UnionItem.name
  outline u := String.join (u.members.map fun m => m.typeName ++ "\n")

instance : Item AliasItem where
  kind := .aliases
  name := AliasItem.name
  outline a := a.typeName ++ "\n"

instance : Item RpcItem where
  kind := .rpcs
  name := RpcItem.name
  outline r := "input\n" ++ fieldLines r.input ++ "output\n" ++ fieldLines r.output

end YangStubs.View
