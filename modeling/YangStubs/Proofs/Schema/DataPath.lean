import YangStubs.Proofs.Schema.Growth

/-! # Where data paths lead

To search the trees is to find the first of a list of positions.  A data path that starts in the trees stays in
them, so the target of a leafref is the statement of a leaf that stands there.
-/

namespace YangStubs.Schema

open SchemaNode (placed placedAll)

/-! ## The nodes of trees -/

mutual
/-- A node and all nodes below it, parents first. -/
def SchemaNode.nodes : SchemaNode → List SchemaNode
  | ⟨statement, children, augment⟩ => ⟨statement, children, augment⟩ :: nodesOfAll children

/-- The nodes of several trees, tree by tree. -/
def SchemaNode.nodesOfAll : List SchemaNode → List SchemaNode
  | [] => []
  | node :: rest => node.nodes ++ nodesOfAll rest
end

open SchemaNode (nodes nodesOfAll)

namespace SchemaNode

theorem nodes_eq (node : SchemaNode) : node.nodes = node :: nodesOfAll node.children := by
  cases node; rfl

mutual
theorem nodes_statements : ∀ node : SchemaNode, node.nodes.map (·.statement) = node.placed
  | ⟨statement, children, augment⟩ => by
    simp only [nodes, placed, List.map_cons, nodesOfAll_statements children]

theorem nodesOfAll_statements :
    ∀ l : List SchemaNode, (nodesOfAll l).map (·.statement) = placedAll l
  | [] => rfl
  | node :: rest => by
    simp only [nodesOfAll, placedAll, List.map_append, nodes_statements node, nodesOfAll_statements rest]
end

theorem mem_nodesOfAll {node : SchemaNode} {l : List SchemaNode} :
    node ∈ nodesOfAll l ↔ ∃ tree ∈ l, node ∈ tree.nodes := by
  induction l with
  | nil => simp [nodesOfAll]
  | cons tree rest ih => simp [nodesOfAll, ih]

theorem mem_nodes_self (node : SchemaNode) : node ∈ node.nodes := by
  rw [nodes_eq]
  exact List.mem_cons_self

mutual
theorem nodes_trans {inner : SchemaNode} :
    ∀ (tree : SchemaNode) {node : SchemaNode}, node ∈ tree.nodes → inner ∈ node.nodes → inner ∈ tree.nodes
  | ⟨_, children, _⟩, node, outer, inside => by
    simp only [nodes, List.mem_cons] at outer
    rcases outer with rfl | outer
    · exact inside
    · exact List.mem_cons_of_mem _ (nodesOfAll_trans children outer inside)

/-- The nodes below a node of some trees are nodes of these trees. -/
theorem nodesOfAll_trans {inner : SchemaNode} :
    ∀ (l : List SchemaNode) {node : SchemaNode}, node ∈ nodesOfAll l → inner ∈ node.nodes → inner ∈ nodesOfAll l
  | [], _, outer, _ => by simp [nodesOfAll] at outer
  | tree :: rest, node, outer, inside => by
    simp only [nodesOfAll, List.mem_append] at outer ⊢
    rcases outer with outer | outer
    · exact .inl (nodes_trans tree outer inside)
    · exact .inr (nodesOfAll_trans rest outer inside)
end

section

variable {node child : SchemaNode} {l : List SchemaNode} (known : node ∈ nodesOfAll l)
  (isChild : child ∈ node.children)
include known isChild

theorem mem_nodesOfAll_child : child ∈ nodesOfAll l := by
  refine nodesOfAll_trans l known ?_
  rw [nodes_eq]
  exact List.mem_cons_of_mem _ (mem_nodesOfAll.2 ⟨child, isChild, mem_nodes_self child⟩)

/-- A child is below the trees, wherever in them its parent is. -/
theorem mem_nodesOfAll_below : child ∈ nodesOfAll (l.flatMap (·.children)) := by
  obtain ⟨tree, inList, inside⟩ := mem_nodesOfAll.1 known
  have below : child ∈ nodesOfAll tree.children := by
    rw [nodes_eq, List.mem_cons] at inside
    rcases inside with rfl | inside
    · exact mem_nodesOfAll.2 ⟨child, isChild, mem_nodes_self child⟩
    · exact mem_nodesOfAll_child inside isChild
  obtain ⟨top, isTop, inTop⟩ := mem_nodesOfAll.1 below
  exact mem_nodesOfAll.2 ⟨top, List.mem_flatMap.2 ⟨tree, inList, isTop⟩, inTop⟩

end

end SchemaNode

/-! ## Lists of positions -/

mutual
/-- The positions in the tree of a node, parents first. -/
def SchemaNode.positions (above : List SchemaNode) : SchemaNode → List Position
  | ⟨statement, children, augment⟩ =>
    ⟨⟨statement, children, augment⟩, above⟩ :: positionsOfAll (⟨statement, children, augment⟩ :: above) children

/-- The positions in a list of trees. -/
def positionsOfAll (above : List SchemaNode) : List SchemaNode → List Position
  | [] => []
  | node :: rest => node.positions above ++ positionsOfAll above rest
end

mutual
/-- The data nodes that a node is or, if it is a choice or a case, contains, in their places. -/
def SchemaNode.dataPositions (above : List SchemaNode) : SchemaNode → List Position
  | ⟨statement, children, augment⟩ =>
    if isSeenThrough statement.keyword then
      dataPositionsOfAll (⟨statement, children, augment⟩ :: above) children
    else [⟨⟨statement, children, augment⟩, above⟩]

/-- The data nodes in a list of nodes, choices and cases looked through, in their places. -/
def dataPositionsOfAll (above : List SchemaNode) : List SchemaNode → List Position
  | [] => []
  | node :: rest => node.dataPositions above ++ dataPositionsOfAll above rest
end

theorem positionsOfAll_eq_flatMap (above l : List SchemaNode) :
    positionsOfAll above l = l.flatMap (·.positions above) := by
  induction l with
  | nil => rfl
  | cons node rest ih => rw [positionsOfAll, List.flatMap_cons, ih]

theorem dataPositionsOfAll_eq_flatMap (above l : List SchemaNode) :
    dataPositionsOfAll above l = l.flatMap (·.dataPositions above) := by
  induction l with
  | nil => rfl
  | cons node rest ih => rw [dataPositionsOfAll, List.flatMap_cons, ih]

mutual
theorem SchemaNode.positions_nodes (above : List SchemaNode) :
    ∀ node : SchemaNode, (node.positions above).map (·.node) = node.nodes
  | ⟨statement, children, augment⟩ => by
    simp only [SchemaNode.positions, List.map_cons, SchemaNode.nodes, positionsOfAll_nodes _ children]

theorem positionsOfAll_nodes (above : List SchemaNode) :
    ∀ l : List SchemaNode, (positionsOfAll above l).map (·.node) = nodesOfAll l
  | [] => rfl
  | node :: rest => by
    simp only [positionsOfAll, List.map_append, nodesOfAll, SchemaNode.positions_nodes above node,
      positionsOfAll_nodes above rest]
end

mutual
theorem SchemaNode.locate?_eq_find? (id : Nat) (above : List SchemaNode) :
    ∀ node : SchemaNode, node.locate? id above = (node.positions above).find? (·.node.id == id)
  | ⟨statement, children, augment⟩ => by
    rw [SchemaNode.locate?, SchemaNode.positions, List.find?_cons, locateIn?_eq_find? id _ children]
    simp only [SchemaNode.id]
    cases statement.id == id <;> rfl

theorem locateIn?_eq_find? (id : Nat) (above : List SchemaNode) :
    ∀ l : List SchemaNode, locateIn? id above l = (positionsOfAll above l).find? (·.node.id == id)
  | [] => rfl
  | node :: rest => by
    rw [locateIn?, positionsOfAll, List.find?_append, SchemaNode.locate?_eq_find? id above node,
      locateIn?_eq_find? id above rest]
    cases (node.positions above).find? (·.node.id == id) <;> rfl
end

mutual
theorem SchemaNode.dataNode?_eq_find? (name : String) (above : List SchemaNode) :
    ∀ node : SchemaNode, node.dataNode? name above = (node.dataPositions above).find? (·.node.name == name)
  | ⟨statement, children, augment⟩ => by
    rw [SchemaNode.dataNode?, SchemaNode.dataPositions]
    split
    · exact dataNodeIn?_eq_find? name _ children
    · simp only [List.find?_cons, List.find?_nil, SchemaNode.name]
      cases statement.name == name <;> rfl

theorem dataNodeIn?_eq_find? (name : String) (above : List SchemaNode) :
    ∀ l : List SchemaNode, dataNodeIn? name above l = (dataPositionsOfAll above l).find? (·.node.name == name)
  | [] => rfl
  | node :: rest => by
    rw [dataNodeIn?, dataPositionsOfAll, List.find?_append, SchemaNode.dataNode?_eq_find? name above node,
      dataNodeIn?_eq_find? name above rest]
    cases (node.dataPositions above).find? (·.node.name == name) <;> rfl
end

/-- Locating a number finds the first node that has it. -/
theorem locateIn?_node (id : Nat) (above l : List SchemaNode) :
    (locateIn? id above l).map (·.node) = (nodesOfAll l).find? (·.id == id) := by
  rw [locateIn?_eq_find?, ← positionsOfAll_nodes above l, List.find?_map]
  rfl

/-! ## Positions in trees -/

/-- The positions in some trees: those of the trees themselves, and of the children of what has a position. -/
inductive Position.Stands (trees : List SchemaNode) : Position → Prop
  | root {tree : SchemaNode} (member : tree ∈ trees) : Stands trees ⟨tree, []⟩
  | child {p : Position} {node : SchemaNode} (stands : Stands trees p) (isChild : node ∈ p.node.children) :
    Stands trees ⟨node, p.node :: p.above⟩

section Positions

variable {node : SchemaNode} {p q : Position} {trees : List SchemaNode}

mutual
theorem SchemaNode.positions_stand : ∀ (node : SchemaNode) {above : List SchemaNode},
    Position.Stands trees ⟨node, above⟩ → ∀ p ∈ node.positions above, p.Stands trees
  | ⟨statement, children, augment⟩, above, stands => by
    rw [SchemaNode.positions]
    exact List.forall_mem_cons.2 ⟨stands, positionsOfAll_stand children fun _ isChild => .child stands isChild⟩

theorem positionsOfAll_stand : ∀ (l : List SchemaNode) {above : List SchemaNode},
    (∀ node ∈ l, Position.Stands trees ⟨node, above⟩) → ∀ p ∈ positionsOfAll above l, p.Stands trees
  | [], _, _ => by simp [positionsOfAll]
  | node :: rest, above, stand => by
    obtain ⟨first, others⟩ := List.forall_mem_cons.1 stand
    rw [positionsOfAll]
    exact List.forall_mem_append.2 ⟨SchemaNode.positions_stand node first, positionsOfAll_stand rest others⟩
end

theorem mem_positionsOfAll_of_mem {l above : List SchemaNode} (member : node ∈ l) :
    ⟨node, above⟩ ∈ positionsOfAll above l := by
  rw [positionsOfAll_eq_flatMap]
  refine List.mem_flatMap.2 ⟨node, member, ?_⟩
  cases node
  exact List.mem_cons_self

mutual
theorem SchemaNode.positions_child : ∀ (node : SchemaNode) {above : List SchemaNode} {p : Position},
    p ∈ node.positions above → ∀ c ∈ p.node.children, ⟨c, p.node :: p.above⟩ ∈ node.positions above
  | ⟨statement, children, augment⟩, above, p, member, c, isChild => by
    rw [SchemaNode.positions, List.mem_cons] at member ⊢
    cases member with
    | inl here =>
      subst here
      exact .inr (mem_positionsOfAll_of_mem isChild)
    | inr below => exact .inr (positionsOfAll_child children below c isChild)

theorem positionsOfAll_child : ∀ (l : List SchemaNode) {above : List SchemaNode} {p : Position},
    p ∈ positionsOfAll above l → ∀ c ∈ p.node.children, ⟨c, p.node :: p.above⟩ ∈ positionsOfAll above l
  | [], _, _, member, _, _ => by simp [positionsOfAll] at member
  | node :: rest, above, p, member, c, isChild => by
    rw [positionsOfAll, List.mem_append] at member ⊢
    exact member.imp (fun here => SchemaNode.positions_child node here c isChild)
      fun later => positionsOfAll_child rest later c isChild
end

namespace Position

theorem stands_iff : p.Stands trees ↔ p ∈ positionsOfAll [] trees := by
  constructor
  · intro stands
    induction stands with
    | root member => exact mem_positionsOfAll_of_mem member
    | child _ isChild ih => exact positionsOfAll_child _ ih _ isChild
  · exact positionsOfAll_stand trees (fun _ member => .root member) p

theorem Stands.node_mem (stands : p.Stands trees) : p.node ∈ nodesOfAll trees := by
  rw [← positionsOfAll_nodes [] trees]
  exact List.mem_map_of_mem (stands_iff.1 stands)

theorem Stands.parent {node a : SchemaNode} {rest : List SchemaNode}
    (stands : Stands trees ⟨node, a :: rest⟩) : Stands trees ⟨a, rest⟩ ∧ node ∈ a.children := by
  cases stands with
  | child outer isChild => exact ⟨outer, isChild⟩

theorem up?_of_seen {a : SchemaNode} {rest : List SchemaNode} (seen : isSeenThrough a.keyword = true) :
    up? ⟨node, a :: rest⟩ = up? ⟨a, rest⟩ := by
  simp only [up?, List.dropWhile_cons, seen, if_true]

theorem up?_of_data {a : SchemaNode} {rest : List SchemaNode} (isData : isSeenThrough a.keyword = false) :
    up? ⟨node, a :: rest⟩ = some ⟨a, rest⟩ := by
  simp [up?, isData]

theorem Stands.up? : ∀ {above : List SchemaNode} {node : SchemaNode},
    Stands trees ⟨node, above⟩ → Position.up? ⟨node, above⟩ = some q →
      q.Stands trees ∧ isSeenThrough q.node.keyword = false
  | [], _, _, up => by simp [Position.up?] at up
  | a :: rest, node, stands, up => by
    cases seen : isSeenThrough a.keyword with
    | true =>
      rw [up?_of_seen seen] at up
      exact Stands.up? stands.parent.1 up
    | false =>
      rw [up?_of_data seen] at up
      cases up
      exact ⟨stands.parent.1, seen⟩

end Position

mutual
theorem SchemaNode.dataPositions_spec : ∀ (node : SchemaNode) {above : List SchemaNode},
    Position.Stands trees ⟨node, above⟩ → ∀ q ∈ node.dataPositions above,
      q.Stands trees ∧ isSeenThrough q.node.keyword = false ∧
        ∃ through, q.above = through ++ above ∧ ∀ b ∈ through, isSeenThrough b.keyword = true
  | ⟨statement, children, augment⟩, above, stands, q, member => by
    rw [SchemaNode.dataPositions] at member
    split at member
    · rename_i seen
      obtain ⟨inTrees, isData, through, between, seenAll⟩ :=
        dataPositionsOfAll_spec children (fun _ isChild => .child stands isChild) q member
      -- The node itself is the topmost of those that are seen through.
      refine ⟨inTrees, isData, through ++ [⟨statement, children, augment⟩], ?_, ?_⟩
      · rw [between, List.append_assoc, List.singleton_append]
      · exact List.forall_mem_append.2 ⟨seenAll, List.forall_mem_singleton.2 seen⟩
    · rename_i isData
      rw [List.mem_singleton.1 member]
      exact ⟨stands, Bool.eq_false_iff.2 isData, [], rfl, by simp⟩

/-- Between a node and a data node found below it there are only choices and cases. -/
theorem dataPositionsOfAll_spec : ∀ (l : List SchemaNode) {above : List SchemaNode},
    (∀ node ∈ l, Position.Stands trees ⟨node, above⟩) → ∀ q ∈ dataPositionsOfAll above l,
      q.Stands trees ∧ isSeenThrough q.node.keyword = false ∧
        ∃ through, q.above = through ++ above ∧ ∀ b ∈ through, isSeenThrough b.keyword = true
  | [], _, _, _, member => by simp [dataPositionsOfAll] at member
  | node :: rest, above, stand, q, member => by
    obtain ⟨first, others⟩ := List.forall_mem_cons.1 stand
    rw [dataPositionsOfAll, List.mem_append] at member
    cases member with
    | inl here => exact SchemaNode.dataPositions_spec node first q here
    | inr later => exact dataPositionsOfAll_spec rest others q later
end

namespace Position

theorem Stands.down? {name : String} (stands : p.Stands trees) (down : p.down? name = some q) :
    q.Stands trees ∧ isSeenThrough q.node.keyword = false ∧ q.node.name = name ∧
      ∃ through, q.above = through ++ p.node :: p.above ∧ ∀ b ∈ through, isSeenThrough b.keyword = true := by
  rw [Position.down?, dataNodeIn?_eq_find?] at down
  have named : q.node.name = name := by simpa using List.find?_some down
  obtain ⟨inTrees, isData, between⟩ := dataPositionsOfAll_spec p.node.children
    (fun _ isChild => .child stands isChild) q (List.mem_of_find?_eq_some down)
  exact ⟨inTrees, isData, named, between⟩

end Position

theorem locateIn?_stands {id : Nat} (found : locateIn? id [] trees = some p) : p.Stands trees := by
  rw [locateIn?_eq_find?] at found
  exact Position.stands_iff.2 (List.mem_of_find?_eq_some found)

end Positions

/-! ## Targets -/

theorem mem_nodesOfAll_of_mem {node : SchemaNode} {l : List SchemaNode} (member : node ∈ l) : node ∈ nodesOfAll l :=
  SchemaNode.mem_nodesOfAll.2 ⟨node, member, SchemaNode.mem_nodes_self node⟩

/-- Steps that start in the trees, or outside of all modules, end there too. -/
theorem follow?_stands {directory : Directory} {trees : SchemaTrees} {home : String}
    {nodes : List SchemaNode} (known : ∀ m ∈ trees, m.2 ∈ nodes) :
    ∀ (steps : List Step) {start finish : Option Position},
      (∀ position, start = some position → position.Stands nodes) →
      follow? directory trees home start steps = some finish →
      ∀ position, finish = some position → position.Stands nodes
  | [], start, finish, inside, found => by
    simp only [follow?, Option.some.injEq] at found
    exact found ▸ inside
  | .up :: rest, none, finish, inside, found => by simp [follow?] at found
  | .up :: rest, some position, finish, inside, found => by
    simp only [follow?, Option.bind_eq_bind, Option.bind_eq_some_iff] at found
    obtain ⟨next, up, found⟩ := found
    refine follow?_stands known rest (fun q same => ?_) found
    exact Option.some.inj same ▸ ((inside position rfl).up? up).1
  | .down _ name :: rest, some position, finish, inside, found => by
    simp only [follow?, Option.bind_eq_bind, Option.bind_eq_some_iff] at found
    obtain ⟨next, down, found⟩ := found
    refine follow?_stands known rest (fun q same => ?_) found
    exact Option.some.inj same ▸ ((inside position rfl).down? down).1
  | .down qualifier name :: rest, none, finish, inside, found => by
    simp only [follow?, Option.bind_eq_bind, Option.bind_eq_some_iff] at found
    obtain ⟨target, -, tree, isTree, next, down, found⟩ := found
    have top : Position.Stands nodes ⟨tree, []⟩ := .root (known _ (mem_of_lookup_eq_some isTree))
    refine follow?_stands known rest (fun q same => ?_) found
    exact Option.some.inj same ▸ (top.down? down).1

theorem leafrefTarget?_spec {directory : Directory} {trees : SchemaTrees} {nodes : List SchemaNode}
    (known : ∀ m ∈ trees, m.2 ∈ nodes) {leaf : Position} (inside : leaf.Stands nodes) {path : String}
    {target : SchemaNode} (found : leafrefTarget? directory trees leaf path = some target) :
    target ∈ nodesOfAll nodes ∧ isLeafKeyword target.keyword := by
  unfold leafrefTarget? at found
  obtain ⟨finish, followed, reached⟩ := Option.bind_eq_some_iff.1 found
  obtain ⟨position, rfl, checked⟩ := Option.bind_eq_some_iff.1 reached
  have inTrees : position.Stands nodes := by
    refine follow?_stands known _ (fun q same => ?_) followed position rfl
    split at same
    · simp at same
    · exact Option.some.inj same ▸ inside
  obtain ⟨_, guarded, same⟩ := Option.bind_eq_some_iff.1 checked
  cases isLeaf : isLeafKeyword position.node.keyword with
  | false =>
    rw [isLeaf] at guarded
    cases guarded
  | true => exact Option.some.inj same ▸ ⟨inTrees.node_mem, isLeaf⟩

/-- Leafrefs refer to leafs that stand in the trees, or to themselves. -/
theorem linkLeafrefs_spec (directory : Directory) {trees : SchemaTrees}
    {groupings : List SchemaNode} {known : List Statement}
    (stand : ∀ s ∈ placedAll (trees.map (·.2) ++ groupings), s ∈ known) :
    ∀ (items : List (Statement × Statement × String)), (∀ item ∈ items, item.2.1 ∈ known) →
      ∀ t ∈ (linkLeafrefs directory trees groupings items).1, ∃ s ∈ known, s.id = t.2 ∧ isLeafKeyword s.keyword
  | [], _, t, member => by simp [linkLeafrefs] at member
  | (type, leaf, path) :: rest, leafs, t, member => by
    have others := linkLeafrefs_spec directory stand rest
      (fun item inRest => leafs item (List.mem_cons_of_mem _ inRest))
    simp only [linkLeafrefs] at member
    -- A leaf that stands nowhere is looked at as a tree of its own.
    let single : SchemaNode := ⟨leaf, [], none⟩
    let nodes := single :: (trees.map (·.2) ++ groupings)
    split at member
    · rename_i target found
      rcases List.mem_cons.1 member with rfl | member
      · have start : ((locateIn? leaf.id [] (trees.map (·.2) ++ groupings)).getD
            ⟨single, []⟩).Stands nodes := by
          cases located : locateIn? leaf.id [] (trees.map (·.2) ++ groupings) with
          | none => exact .root List.mem_cons_self
          | some position =>
            have listed := Position.stands_iff.1 (locateIn?_stands located)
            exact Position.stands_iff.2 (List.mem_append_right _ listed)
        have inTrees : ∀ m ∈ trees, m.2 ∈ nodes := fun m isTree =>
          List.mem_cons_of_mem _ (List.mem_append_left _ (List.mem_map_of_mem isTree))
        obtain ⟨inNodes, isLeaf⟩ := leafrefTarget?_spec inTrees start found
        refine ⟨target.statement, ?_, rfl, isLeaf⟩
        have placed : target.statement ∈ (nodesOfAll nodes).map (·.statement) :=
          List.mem_map_of_mem inNodes
        rw [SchemaNode.nodesOfAll_statements, SchemaNode.placedAll_cons, SchemaNode.placed_eq,
          List.mem_append] at placed
        rcases placed with isSelf | inTrees
        · simp only [single, SchemaNode.placedAll_nil, List.mem_singleton] at isSelf
          exact isSelf ▸ leafs _ List.mem_cons_self
        · exact stand _ inTrees
      · exact others t member
    · exact others t member

end YangStubs.Schema
