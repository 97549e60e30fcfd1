import YangStubs.Schema.Linking

/-! # The schema tree

The schema nodes of a module are its data definitions with every `uses` replaced by copies of what the
grouping defines.  A grouping that is already being expanded is not expanded again.  A data definition
right below a choice is put into a case of its own name.

Copies and cases are new statements; they are numbered in the order in which they are made.
-/

namespace YangStubs.Schema

open YangStubs.Text (quoted)

structure SchemaNode where
  statement : Statement
  children : List SchemaNode
  /-- The augment that put the node into its place. -/
  augment : Option Nat
  deriving Repr, Inhabited

namespace SchemaNode

def id (node : SchemaNode) : Nat :=
  node.statement.id

def keyword (node : SchemaNode) : String :=
  node.statement.keyword

def name (node : SchemaNode) : String :=
  node.statement.name

end SchemaNode

/-- A new statement with the number of the one it is made for. -/
structure Made where
  parent : Nat
  statement : Statement
  deriving Repr

/-- What grows while the schema tree is put together. -/
structure Growth where
  next : Nat
  /-- The new statements, in the order in which they were made. -/
  made : List Made
  log : Log

/-- The statement below which nodes are placed. -/
structure Site where
  id : Nat
  keyword : String
  deriving DecidableEq, Repr

def Statement.site (s : Statement) : Site :=
  ⟨s.id, s.keyword⟩

def reportGrowth (level : Level) (message : String) : StateM Growth Unit :=
  modify fun g => { g with log := g.log ++ [⟨level, .resolving, message⟩] }

def copyTo (site : Site) (template : Statement) : StateM Growth Statement :=
  modifyGet fun g =>
    let (copy, next) := template.copyFrom g.next
    (copy, { g with next, made := g.made ++ [⟨site.id, copy⟩] })

/-- Whether a node needs a case of its own at the site. -/
def needsCase (site : Site) (keyword : String) : Bool :=
  site.keyword == "choice" && keyword != "case" && isDataDefinition keyword

/-- The node as it stands at the site: in a case of its own if it needs one. -/
def placeAt (site : Site) (node : SchemaNode) : StateM Growth SchemaNode :=
  if needsCase site node.keyword then
    modifyGet fun g =>
      let wrapper : Statement :=
        ⟨g.next, "case", node.statement.arg, node.statement.home, none, none, none, []⟩
      (⟨wrapper, [node], node.augment⟩, { g with next := g.next + 1, made := g.made ++ [⟨site.id, wrapper⟩] })
  else return node

/-- Turns a `uses` statement into nodes at a site, given the groupings that are being expanded. -/
abbrev Expander := List Nat → Site → Statement → StateM Growth (List SchemaNode)

mutual
def grow (expand : Expander) (busy : List Nat) : Statement → StateM Growth SchemaNode
  | ⟨id, keyword, arg, home, origin, grouping, typedef, subs⟩ => do
    let statement : Statement := ⟨id, keyword, arg, home, origin, grouping, typedef, subs⟩
    if isSchemaNode keyword then
      let children ← growAll expand busy ⟨id, keyword⟩ subs
      return ⟨statement, children, none⟩
    else return ⟨statement, [], none⟩

/-- The schema nodes that substatements bring to a site. -/
def growAll (expand : Expander) (busy : List Nat) (site : Site) :
    List Statement → StateM Growth (List SchemaNode)
  | [] => return []
  | s :: rest => do
    let here ←
      if s.keyword == "uses" then expand busy site s
      else if isTreeKeyword s.keyword then do
        let node ← grow expand busy s
        let placed ← placeAt site node
        pure [placed]
      else pure []
    let others ← growAll expand busy site rest
    return here ++ others
end

def reportRecursiveUse (uses : Statement) : StateM Growth Unit :=
  reportGrowth .warn
    ("recursive use of grouping " ++ quoted uses.name ++ " in module " ++ uses.home ++ ", expansion cut")

/-- The nodes that a grouping's substatements bring to a site: nested uses are expanded, definitions are
    copied. -/
def copyAllTo (expand : Expander) (busy : List Nat) (site : Site) :
    List Statement → StateM Growth (List SchemaNode)
  | [] => return []
  | s :: rest => do
    let here ←
      if s.keyword == "uses" then expand busy site s
      else if isTreeKeyword s.keyword then do
        let copy ← copyTo site s
        let node ← grow expand busy copy
        let placed ← placeAt site node
        pure [placed]
      else pure []
    let others ← copyAllTo expand busy site rest
    return here ++ others

/-- Expands a `uses` statement.  The bound is on how deep groupings can nest, which is the number of
    groupings, since none is expanded inside itself. -/
def expander (groupings : List Statement) : Nat → Expander
  | 0, _, _, uses => do
    reportRecursiveUse uses
    return []
  | bound + 1, busy, site, uses =>
    match uses.grouping.bind fun id => groupings.find? (·.id == id) with
    | none => return []
    | some grouping =>
      if busy.contains grouping.id then do
        reportRecursiveUse uses
        return []
      else copyAllTo (expander groupings bound) (grouping.id :: busy) site grouping.subs

def isTopAugment (s : Statement.Placed) : Bool :=
  s.statement.keyword == "augment" && s.around.any (·.keyword == "module")

/-- The expanded statements: modules, groupings, and augments at the top level. -/
structure Expansion where
  modules : List SchemaNode
  groupings : List SchemaNode
  augments : List SchemaNode

def growDefinitions (expand : Expander) :
    List Statement.Placed → StateM Growth (List SchemaNode × List SchemaNode)
  | [] => return ([], [])
  | s :: rest => do
    if s.statement.keyword == "grouping" then
      let node ← grow expand [s.statement.id] s.statement
      let (groupings, augments) ← growDefinitions expand rest
      return (node :: groupings, augments)
    else if isTopAugment s then
      let node ← grow expand [] s.statement
      let (groupings, augments) ← growDefinitions expand rest
      return (groupings, node :: augments)
    else growDefinitions expand rest

def growModules (expand : Expander) : List Statement → StateM Growth (List SchemaNode)
  | [] => return []
  | s :: rest => do
    let node ← grow expand [] s
    let others ← growModules expand rest
    return node :: others

/-- Expands the modules of a linked forest, then its groupings and augments. -/
def expandForest (forest : List Statement) (modules : List Nat) : StateM Growth Expansion := do
  let listing := Statement.listingOfAll none none forest
  let groupings := (listing.map (·.statement)).filter (·.keyword == "grouping")
  let expand := expander groupings groupings.length
  let tops := modules.filterMap fun id => forest.find? (·.id == id)
  let moduleNodes ← growModules expand tops
  let (groupingNodes, augmentNodes) ← growDefinitions expand listing
  return ⟨moduleNodes, groupingNodes, augmentNodes⟩

end YangStubs.Schema
