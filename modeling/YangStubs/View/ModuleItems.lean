import YangStubs.View.Lens

/-! # Views of modules

All items of a target module.  Only what is defined in the module itself has items.  Items share one space
of names, in which the first item of a name stays; a second one of another structure is reported.
-/

namespace YangStubs.View

open YangStubs.Model
open YangStubs.Text

structure ModuleItems where
  name : String
  qualifier : Option String
  space : Option String
  description : Option String
  classes : List ClassItem
  enums : List EnumItem
  unions : List UnionItem
  aliases : List AliasItem
  rpcs : List RpcItem
  deriving DecidableEq, Repr

structure Draft where
  view : ModuleItems
  /-- The names that are taken, with the kind of the first item. -/
  taken : List (String × ItemKind)
  log : Log

abbrev Drafting := StateM Draft

def note (level : Level) (message : String) : Drafting Unit :=
  modify fun d => { d with log := d.log ++ [⟨level, .views, message⟩] }

/-- Takes a name for an item of a kind.  An item of another kind than the first loses. -/
def takeName (kind : ItemKind) (name : String) : Drafting Bool := do
  match (← get).taken.lookup name with
  | none =>
    modify fun d => { d with taken := d.taken ++ [(name, kind)] }
    return true
  | some first =>
    if first == kind then return true
    else
      note .warn
        (kind.label ++ " " ++ name ++ " is defined twice as " ++ first.label ++ " and " ++
          kind.label ++ ", keeping the " ++ first.label)
      return false

def admitItem {α : Type} [Item α] (items : List α) (item : α) : List α × Log :=
  match items.find? fun first => Item.name first == Item.name item with
  | none => (items ++ [item], [])
  | some first =>
    let what := (Item.kind α).label ++ " " ++ Item.name item
    if Item.outline first == Item.outline item then
      (items, [⟨.debug, .views, what ++ " is defined again identically"⟩])
    else
      (items,
       [⟨.warn, .views,
         what ++ " is defined twice with different structure, keeping the first:\n" ++
           unifiedDiff "first" "second" (Item.outline first) (Item.outline item)⟩])

def putClass (item : ClassItem) : Drafting Unit := do
  if ← takeName .classes item.name then
    modify fun d =>
      let (classes, log) := admitItem d.view.classes item
      { d with view := { d.view with classes }, log := d.log ++ log }

/-- Adds a procedure, which takes the names of both its messages. -/
def putRpc (item : RpcItem) : Drafting Unit := do
  let input ← takeName .rpcs (item.name ++ "Input")
  let output ← takeName .rpcs (item.name ++ "Output")
  if input && output then
    modify fun d =>
      let (rpcs, log) := admitItem d.view.rpcs item
      { d with view := { d.view with rpcs }, log := d.log ++ log }

def putEnum (item : EnumItem) : Drafting Unit := do
  if ← takeName .enums item.name then
    modify fun d =>
      let (enums, log) := admitItem d.view.enums item
      { d with view := { d.view with enums }, log := d.log ++ log }

def putUnion (item : UnionItem) : Drafting Unit := do
  if ← takeName .unions item.name then
    modify fun d =>
      let (unions, log) := admitItem d.view.unions item
      { d with view := { d.view with unions }, log := d.log ++ log }

def putAlias (item : AliasItem) : Drafting Unit := do
  if ← takeName .aliases item.name then
    modify fun d =>
      let (aliases, log) := admitItem d.view.aliases item
      { d with view := { d.view with aliases }, log := d.log ++ log }

/-- Adds what the type of a node defines: an enum, a union, or for a typedef an alias. -/
def putType (lens : Lens) (node : Node) : Drafting Unit :=
  match node.typing with
  | none => return ()
  | some typing =>
    match typing.enumeration, typing.union with
    | some enumeration, _ =>
      match (lens.node? enumeration).map Node.kind with
      | some (.enumeration enums) => putEnum (lens.enumOf node enums)
      | _ => return ()
    | none, some union =>
      match (lens.node? union).map Node.kind with
      | some (.union members) => putUnion (lens.unionOf node members)
      | _ => return ()
    | none, none => if node.kind == .typedef then putAlias (lens.aliasOf node) else return ()

def putNode (lens : Lens) (node : Node) : Drafting Unit :=
  match node.kind with
  | .container | .list _ | .grouping | .case | .notification => putClass (lens.classOf node)
  | .rpc => putRpc (lens.rpcOf node)
  | .typedef | .leaf | .leafList => putType lens node
  | _ => return ()

def ModuleItems.ofModule (m : Module) (backend : Backend) : ModuleItems × Log :=
  let lens := Lens.ofModule m backend
  let (qualifier, space) := match m.root.kind with
    | .module qualifier space => (qualifier, space)
    | _ => (none, none)
  let empty : ModuleItems :=
    ⟨m.name, qualifier, space, m.root.description, [], [], [], [], []⟩
  let shown := m.nodes.filter fun node => node.home == m.name && node.id != m.root.id
  let (_, draft) := (shown.forM (putNode lens)).run ⟨empty, [], []⟩
  (draft.view, draft.log)

end YangStubs.View
