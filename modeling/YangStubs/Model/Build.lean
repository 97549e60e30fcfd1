import YangStubs.Model.Node
import YangStubs.Schema.Record

/-! # Building a model

The nodes of a module are made from its schema tree.  A grouping or typedef is made once, when it is first
referred to, and found again through the ledger: under its keyword and a key that names the statement it is
defined in.  A node is entered before anything below it is made, so that a definition which refers to
itself finds the node that is being made.

Making a node walks down the schema tree; groupings, typedefs and leafref targets are elsewhere in it.
These jumps are bounded: a definition is made only once, and a leafref target not inside itself.
-/

namespace YangStubs.Model

open YangStubs.Schema
open YangStubs.Text
open YangStubs.Backend (Constructor)

/-! ## What is at hand -/

structure Definition where
  scope : String
  node : SchemaNode

/-- The key of a definition, the same for every use. -/
def Definition.key (definition : Definition) : String :=
  definition.scope ++ "/" ++ definition.node.name

/-- A node below which others are made. -/
structure Place where
  id : Nat
  key : String
  deriving DecidableEq, Repr

def Node.place (node : Node) : Place :=
  ⟨node.id, node.key⟩

structure Workshop where
  schema : Resolved
  backend : Backend
  definitions : List Definition
  top : Place

/-- Whether statements with a keyword are known by where they are defined. -/
def isShared (keyword : String) : Bool :=
  keyword == "grouping" || keyword == "typedef"

/-- Whether nodes of a keyword are not entered into the ledger. -/
def isUnlisted (keyword : String) : Bool :=
  ["enum", "input", "output", "type"].contains keyword

/-- The schema node of a statement; groupings and targets have nodes below them. -/
def schemaNode (schema : Resolved) (statement : Statement) : SchemaNode :=
  ((locateIn? statement.id [] (schema.modules.map (·.2) ++ schema.groupings)).map (·.node)).getD ⟨statement, [], none⟩

def definitionsOf (schema : Resolved) : List Definition :=
  (Statement.listingOfAll none none schema.forest).filterMap fun s =>
    if isShared s.statement.keyword then
      some ⟨(s.around.map (·.name)).getD "", schemaNode schema s.statement⟩
    else none

namespace Workshop

def definition? (shop : Workshop) (id : Nat) : Option Definition :=
  shop.definitions.find? (·.node.id == id)

def augmentUses (shop : Workshop) (augment : Nat) : List Statement :=
  ((shop.schema.augments.find? (·.id == augment)).map (·.statement.subsWith "uses")).getD []

def dataType (shop : Workshop) (builtin : String) : String :=
  (shop.backend.mapping? builtin).getD builtin

end Workshop

/-! ## What grows -/

structure LedgerEntry where
  keyword : String
  key : String
  name : String
  node : Nat
  deriving DecidableEq, Repr

structure DerivedType where
  name : String
  key : String
  node : Nat
  deriving DecidableEq, Repr

structure Progress where
  next : Nat
  ledger : List LedgerEntry
  derived : List DerivedType
  definitions : List Node
  log : Log

abbrev Builder := StateM Progress

def entered? (keyword key : String) (ledger : List LedgerEntry) : Option LedgerEntry :=
  ledger.find? fun e => e.keyword == keyword && e.key == key

def report (level : Level) (origin : Origin) (message : String) : Builder Unit :=
  modify fun p => { p with log := p.log ++ [⟨level, origin, message⟩] }

/-- Enters a node into the ledger; the first node of a key stays. -/
def register (node : Node) : Builder Unit := do
  match entered? node.keyword node.key (← get).ledger with
  | some entry =>
    report .debug .nodes
      (node.keyword ++ " " ++ quoted node.key ++ " is already registered, keeping <Node #" ++
        toString entry.node ++ ">")
  | none =>
    modify fun p => { p with ledger := p.ledger ++ [⟨node.keyword, node.key, node.name, node.id⟩] }

/-- Notes that a typedef is referred to; the first typedef of a name stays. -/
def noteTypedef (name key : String) (node : Nat) : Builder Unit := do
  match (← get).derived.find? (·.name == name) with
  | some first =>
    if first.node != node then
      report .warn .nodes
        ("typedefs " ++ quoted first.key ++ " and " ++ quoted key ++ " share the name " ++
          quoted name ++ ", keeping the first")
  | none => modify fun p => { p with derived := p.derived ++ [⟨name, key, node⟩] }

/-! ## Making nodes -/

/-- The description of a statement; `none` in any case of letters is not one. -/
def descriptionOf (statement : Statement) : Option String :=
  (statement.argOf? "description").filter fun text => lowerAscii text.toList != "none".toList

def configOf (statement : Statement) : Option Bool :=
  match statement.argOf? "config" with
  | some "true" => some true
  | some "false" => some false
  | _ => none

/-- The key of a node: definitions are known by the statement they are defined in, other nodes by their
    path. -/
def keyOf (shop : Workshop) (parent : Option Place) (statement : Statement) : String :=
  match parent with
  | none => statement.name
  | some parent =>
    if isShared statement.keyword then
      ((shop.definition? statement.id).map (·.scope)).getD "" ++ "/" ++ statement.name
    else parent.key ++ "/" ++ statement.name

def create (shop : Workshop) (parent : Option Place) (kind : Kind) (statement : Statement) : Builder Node := do
  let id ← modifyGet fun p => (p.next, { p with next := p.next + 1 })
  let node : Node :=
    { id
      statement := statement.id
      parent := parent.map (·.id)
      keyword := statement.keyword
      name := statement.name
      home := statement.home
      key := keyOf shop parent statement
      description := descriptionOf statement
      config := configOf statement
      isAugmented := false
      kind
      members := none
      typing := none
      owned := [] }
  if parent.isSome && !isUnlisted statement.keyword then register node
  return node

/-- Makes a node of a schema node for a keyword below a place, unless the backend has no constructor for
    the keyword; the first argument are the leafref targets that are being made. -/
abbrev Maker := List Nat → String → SchemaNode → Place → Builder (Option Node)

def makeDefinition (shop : Workshop) (make : Maker) (busy : List Nat) (keyword : String)
    (definition : Definition) : Builder (Option Nat) := do
  match ← make busy keyword definition.node shop.top with
  | none => return none
  | some node =>
    modify fun p => { p with definitions := p.definitions ++ [node] }
    return some node.id

/-- A definition that is referred to, with its name: the one that has been made, or a new one. -/
def refer (shop : Workshop) (make : Maker) (busy : List Nat) (keyword : String)
    (definition : Definition) : Builder (Option (String × Nat)) := do
  match entered? keyword definition.key (← get).ledger with
  | some entry => return some (entry.name, entry.node)
  | none =>
    let made ← makeDefinition shop make busy keyword definition
    return made.map fun id => (definition.node.name, id)

def groupingsOf (shop : Workshop) (make : Maker) (busy : List Nat) :
    List Statement → Builder (List (String × Nat))
  | [] => return []
  | uses :: rest => do
    let used ← match uses.grouping.bind shop.definition? with
      | some grouping => refer shop make busy "grouping" grouping
      | none => pure none
    let others ← groupingsOf shop make busy rest
    return used.toList ++ others

/-- The typedef that a type refers to, with its name.  The key is that of the node with the type. -/
def typedefOf (shop : Workshop) (make : Maker) (busy : List Nat) (key : String)
    (type : Statement) : Builder (Option (String × Nat)) := do
  match type.typedef.bind shop.definition? with
  | none =>
    report .warn .typing ("unknown type " ++ quoted type.name ++ " of " ++ quoted key)
    return none
  | some typedef =>
    match ← refer shop make busy "typedef" typedef with
    | none => return none
    | some (name, node) =>
      noteTypedef typedef.node.name typedef.key node
      return some (name, node)

/-- Sets the value of a name in a list of named values: in place if the name is there. -/
def putNamed {α : Type} (name : String) (value : α) : List (String × α) → List (String × α)
  | [] => [(name, value)]
  | (other, old) :: rest =>
    if other == name then (name, value) :: rest else (other, old) :: putNamed name value rest

/-- Named values with one value for each name: the last one, in the place of the first. -/
def lastOfEach {α : Type} (entries : List (String × α)) : List (String × α) :=
  entries.foldl (fun kept (name, value) => putNamed name value kept) []

/-- Named values with one value for each name: the first one. -/
def firstOfEach {α : Type} (entries : List (String × α)) : List (String × α) :=
  entries.foldl (fun kept (name, value) => if kept.any (·.1 == name) then kept else kept ++ [(name, value)]) []

/-! ## Types -/

def makeEnums (make : Maker) (busy : List Nat) (place : Place) :
    List Statement → Builder (List Node)
  | [] => return []
  | value :: rest => do
    let node ← make busy "enum" ⟨value, [], none⟩ place
    let others ← makeEnums make busy place rest
    return node.toList ++ others

def makeEnumeration (shop : Workshop) (make : Maker) (busy : List Nat) (place : Place)
    (type : Statement) : Builder Node := do
  let node ← create shop (some place) (.enumeration []) type
  let enums ← makeEnums make busy node.place (type.subsWith "enum")
  return { node with kind := .enumeration (enums.map (·.id)), owned := enums }

def unionMembers (shop : Workshop) (make : Maker) (busy : List Nat) (key : String) :
    List Statement → Builder (List (String × MemberType))
  | [] => return []
  | type :: rest => do
    let member ←
      if isBuiltinType type.name then
        pure (some (type.name, MemberType.builtin (shop.dataType type.name)))
      else do
        let typedef ← typedefOf shop make busy key type
        pure (typedef.map fun (name, node) => (name, MemberType.typedef node))
    let others ← unionMembers shop make busy key rest
    return member.toList ++ others

def makeUnion (shop : Workshop) (make : Maker) (busy : List Nat) (place : Place)
    (type : Statement) : Builder Node := do
  let node ← create shop (some place) (.union []) type
  let members ← unionMembers shop make busy node.key (type.subsWith "type")
  return { node with kind := .union (lastOfEach members) }

/-- Makes a node for the leaf that a leafref points to, unless that leaf is being made. -/
def makeReference (shop : Workshop) (make : Maker) (busy : List Nat) (place : Place)
    (type : Statement) : Builder (Option Node) := do
  match (shop.schema.targets.lookup type.id).bind shop.schema.statement? with
  | none => return none
  | some target =>
    if busy.contains target.id then
      report .debug .nodes ("leafref cycle through " ++ quoted target.name ++ ", not wrapping the target again")
      return none
    else make (target.id :: busy) target.keyword (schemaNode shop.schema target) place

def makeType (shop : Workshop) (make : Maker) (busy : List Nat) (node : Node)
    (statement type : Statement) : Builder Node := do
  let typing : Typing :=
    { dataType := none
      isBuiltin := false
      builtin := none
      typedef := none
      enumeration := none
      union := none
      reference := none
      path := none
      default := statement.argOf? "default"
      mandatory := statement.argOf? "mandatory" == some "true" }
  if isBuiltinType type.name then
    let typing := { typing with
      dataType := some (shop.dataType type.name), isBuiltin := true, builtin := some type.name }
    match type.name with
    | "enumeration" =>
      let enumeration ← makeEnumeration shop make busy node.place type
      return { node with
        typing := some { typing with enumeration := some enumeration.id }, owned := [enumeration] }
    | "union" =>
      let union ← makeUnion shop make busy node.place type
      return { node with typing := some { typing with union := some union.id }, owned := [union] }
    | "leafref" =>
      let reference ← makeReference shop make busy node.place type
      return { node with
        typing := some { typing with
          path := type.argOf? "path", reference := reference.map (·.id) }
        owned := reference.toList }
    | _ => return { node with typing := some typing }
  else
    let typedef ← typedefOf shop make busy node.key type
    return { node with
      typing := some { typing with
        typedef := typedef.map (·.2), dataType := typedef.map (·.1) } }

def makeTyping (shop : Workshop) (make : Maker) (busy : List Nat) (node : Node)
    (statement : Statement) : Builder Node :=
  match statement.sub? "type" with
  | none => return node
  | some type => makeType shop make busy node statement type

/-! ## Members -/

def reportNoConstructor (keyword name : String) : Builder Unit :=
  report .debug .nodes ("no wrapper for yang statement " ++ keyword ++ " (" ++ name ++ ")")

mutual
def construct (shop : Workshop) (make : Maker) (busy : List Nat) (parent : Option Place)
    (constructor : Constructor) : SchemaNode → Builder Node
  | ⟨statement, children, _⟩ => do
    let node ← create shop parent (kindOf constructor statement) statement
    match partOf constructor with
    | .nothing => return node
    | .typing => makeTyping shop make busy node statement
    | .members =>
      let owned ← constructAll shop make busy node.place children
      let augments := (children.filterMap (·.augment)).eraseDups
      let uses ← groupingsOf shop make busy
        (statement.subsWith "uses" ++ augments.flatMap shop.augmentUses)
      return { node with
        isAugmented := !augments.isEmpty
        members := some ⟨firstOfEach (owned.map fun n => (n.name, n.id)), lastOfEach uses⟩
        owned }

def constructAll (shop : Workshop) (make : Maker) (busy : List Nat) (place : Place) :
    List SchemaNode → Builder (List Node)
  | [] => return []
  | child :: rest => do
    let made ← match shop.backend.lookup? child.keyword with
      | some constructor => do
        let node ← construct shop make busy (some place) constructor child
        pure [node]
      | none => do
        reportNoConstructor child.keyword child.name
        pure []
    let others ← constructAll shop make busy place rest
    return made ++ others
end

def makeWithin (shop : Workshop) : Nat → Maker
  | 0, _, _, _, _ => return none
  | bound + 1, busy, keyword, node, place => do
    match shop.backend.lookup? keyword with
    | none =>
      reportNoConstructor keyword node.name
      return none
    | some constructor =>
      some <$> construct shop (makeWithin shop bound) busy (some place) constructor node

/-- A bound on jumps inside one another.  Between two jumps to a definition or target, of which there are
    no more than statements, there are only jumps to enums written inside one another. -/
def jumpBound (schema : Resolved) : Nat :=
  (schema.statements.length + 1) * (schema.statements.length + 1)

end YangStubs.Model
