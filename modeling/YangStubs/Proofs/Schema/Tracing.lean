import YangStubs.Proofs.Schema.Relinking
import YangStubs.Proofs.Schema.Reordering

/-! # Data paths in trees with other numbers

Data paths go by names, so in trees whose nodes have other numbers, and perhaps another order, they lead to the
same places.  Two positions are kept related while a path is followed on both sides.
-/

namespace YangStubs.Schema

open SchemaNode (nodesOfAll)

/-! ## Lists of data nodes -/

mutual
/-- The data nodes that a node is or, if it is a choice or a case, contains. -/
def SchemaNode.dataNodes : SchemaNode → List SchemaNode
  | ⟨statement, children, augment⟩ =>
    if isSeenThrough statement.keyword then SchemaNode.dataNodesOfAll children
    else [⟨statement, children, augment⟩]

/-- The data nodes in a list of nodes, choices and cases looked through. -/
def SchemaNode.dataNodesOfAll : List SchemaNode → List SchemaNode
  | [] => []
  | node :: rest => node.dataNodes ++ dataNodesOfAll rest
end

mutual
theorem SchemaNode.dataPositions_nodes (above : List SchemaNode) :
    ∀ node : SchemaNode, (node.dataPositions above).map (·.node) = node.dataNodes
  | ⟨statement, children, augment⟩ => by
    rw [SchemaNode.dataPositions, SchemaNode.dataNodes]
    split
    · exact dataPositionsOfAll_nodes _ children
    · rfl

theorem dataPositionsOfAll_nodes (above : List SchemaNode) :
    ∀ l : List SchemaNode, (dataPositionsOfAll above l).map (·.node) = SchemaNode.dataNodesOfAll l
  | [] => rfl
  | node :: rest => by
    simp only [dataPositionsOfAll, List.map_append, SchemaNode.dataNodesOfAll,
      SchemaNode.dataPositions_nodes above node, dataPositionsOfAll_nodes above rest]
end

/-! ## Positions with other numbers -/

/-- The position with other numbers. -/
def Position.renumber (τ : Nat → Nat) (p : Position) : Position :=
  ⟨p.node.renumber τ, p.above.map (SchemaNode.renumber τ)⟩

section Renumber

variable (τ : Nat → Nat)

mutual
theorem SchemaNode.positions_renumber (above : List SchemaNode) : ∀ node : SchemaNode,
    (node.renumber τ).positions (above.map (SchemaNode.renumber τ)) = (node.positions above).map (Position.renumber τ)
  | ⟨statement, children, augment⟩ => by
    have below := positionsOfAll_renumber (⟨statement, children, augment⟩ :: above) children
    rw [List.map_cons, SchemaNode.renumber_mk] at below
    rw [SchemaNode.renumber_mk, SchemaNode.positions, below, SchemaNode.positions, List.map_cons,
      Position.renumber, SchemaNode.renumber_mk]

theorem positionsOfAll_renumber (above : List SchemaNode) : ∀ l : List SchemaNode,
    positionsOfAll (above.map (SchemaNode.renumber τ)) (l.map (SchemaNode.renumber τ)) =
      (positionsOfAll above l).map (Position.renumber τ)
  | [] => rfl
  | node :: rest => by
    rw [List.map_cons, positionsOfAll, positionsOfAll, List.map_append,
      SchemaNode.positions_renumber above node, positionsOfAll_renumber above rest]
end

mutual
theorem SchemaNode.dataPositions_renumber (above : List SchemaNode) : ∀ node : SchemaNode,
    (node.renumber τ).dataPositions (above.map (SchemaNode.renumber τ)) =
      (node.dataPositions above).map (Position.renumber τ)
  | ⟨statement, children, augment⟩ => by
    have below := dataPositionsOfAll_renumber (⟨statement, children, augment⟩ :: above) children
    rw [List.map_cons, SchemaNode.renumber_mk] at below
    rw [SchemaNode.renumber_mk, SchemaNode.dataPositions, SchemaNode.dataPositions, Statement.renumber_keyword, below]
    split
    · rfl
    · rw [List.map_cons, List.map_nil, Position.renumber, SchemaNode.renumber_mk]

theorem dataPositionsOfAll_renumber (above : List SchemaNode) : ∀ l : List SchemaNode,
    dataPositionsOfAll (above.map (SchemaNode.renumber τ)) (l.map (SchemaNode.renumber τ)) =
      (dataPositionsOfAll above l).map (Position.renumber τ)
  | [] => rfl
  | node :: rest => by
    rw [List.map_cons, dataPositionsOfAll, dataPositionsOfAll, List.map_append,
      SchemaNode.dataPositions_renumber above node, dataPositionsOfAll_renumber above rest]
end

theorem nodesOfAll_renumber (l : List SchemaNode) :
    nodesOfAll (l.map (SchemaNode.renumber τ)) = (nodesOfAll l).map (SchemaNode.renumber τ) := by
  rw [← positionsOfAll_nodes [] (l.map (SchemaNode.renumber τ)), ← positionsOfAll_nodes [] l, List.map_map]
  have renumbered := positionsOfAll_renumber τ [] l
  rw [List.map_nil] at renumbered
  rw [renumbered, List.map_map]
  rfl

theorem Position.up?_renumber (p : Position) : (p.renumber τ).up? = p.up?.map (Position.renumber τ) := by
  simp only [Position.up?, Position.renumber, List.dropWhile_map, Function.comp_def, SchemaNode.renumber_keyword]
  cases p.above.dropWhile fun node => isSeenThrough node.keyword <;> rfl

theorem Position.down?_renumber (p : Position) (name : String) :
    (p.renumber τ).down? name = (p.down? name).map (Position.renumber τ) := by
  have below := dataPositionsOfAll_renumber τ (p.node :: p.above) p.node.children
  rw [List.map_cons, ← SchemaNode.renumber_children] at below
  simp only [Position.down?, dataNodeIn?_eq_find?, Position.renumber, below, List.find?_map,
    Function.comp_def, SchemaNode.renumber_name]

end Renumber

/-! ## Positions in another order -/

/-- Two positions in trees that match up to the order of nodes. -/
structure Position.Reordered (R : Statement × Option Nat → Statement × Option Nat → Prop) (p p' : Position) :
    Prop where
  node : p.node.Reordered R p'.node
  above : List.Forall₂ (SchemaNode.Reordered R) p.above p'.above

section Reordered

variable {R : Statement × Option Nat → Statement × Option Nat → Prop}

mutual
theorem SchemaNode.Reordered.exists_positions {above above' : List SchemaNode}
    (same : List.Forall₂ (SchemaNode.Reordered R) above above') :
    ∀ {a b : SchemaNode}, a.Reordered R b →
      ∃ m, List.Forall₂ (Position.Reordered R) (a.positions above) m ∧ m.Perm (b.positions above')
  | ⟨_, _, _⟩, _, .intro here below => by
    obtain ⟨m, each, order⟩ := SchemaNode.ReorderedAll.exists_positions (.cons (.intro here below) same) below
    exact ⟨_ :: m, .cons ⟨.intro here below, same⟩ each, order.cons _⟩

theorem SchemaNode.ReorderedAll.exists_positions {above above' : List SchemaNode}
    (same : List.Forall₂ (SchemaNode.Reordered R) above above') :
    ∀ {a b : List SchemaNode}, SchemaNode.ReorderedAll R a b →
      ∃ m, List.Forall₂ (Position.Reordered R) (positionsOfAll above a) m ∧ m.Perm (positionsOfAll above' b)
  | [], _, .nil => ⟨[], .nil, .nil⟩
  | _ :: _, _, .cons first others order => by
    refine SchemaNode.exists_forall₂_append (SchemaNode.Reordered.exists_positions same first)
      (SchemaNode.ReorderedAll.exists_positions same others) ?_
    rw [← positionsOfAll, positionsOfAll_eq_flatMap, positionsOfAll_eq_flatMap]
    exact order.perm.flatMap_right _
end

mutual
theorem SchemaNode.Reordered.exists_dataPositions (faithful : Faithful R) {above above' : List SchemaNode}
    (same : List.Forall₂ (SchemaNode.Reordered R) above above') :
    ∀ {a b : SchemaNode}, a.Reordered R b →
      ∃ m, List.Forall₂ (Position.Reordered R) (a.dataPositions above) m ∧ m.Perm (b.dataPositions above')
  | ⟨_, _, _⟩, ⟨_, _, _⟩, .intro here below => by
    rw [SchemaNode.dataPositions, SchemaNode.dataPositions, faithful.keyword here]
    split
    · exact SchemaNode.ReorderedAll.exists_dataPositions faithful (.cons (.intro here below) same) below
    · exact ⟨[_], .cons ⟨.intro here below, same⟩ .nil, .refl _⟩

theorem SchemaNode.ReorderedAll.exists_dataPositions (faithful : Faithful R) {above above' : List SchemaNode}
    (same : List.Forall₂ (SchemaNode.Reordered R) above above') :
    ∀ {a b : List SchemaNode}, SchemaNode.ReorderedAll R a b →
      ∃ m, List.Forall₂ (Position.Reordered R) (dataPositionsOfAll above a) m ∧ m.Perm (dataPositionsOfAll above' b)
  | [], _, .nil => ⟨[], .nil, .nil⟩
  | _ :: _, _, .cons first others order => by
    refine SchemaNode.exists_forall₂_append (SchemaNode.Reordered.exists_dataPositions faithful same first)
      (SchemaNode.ReorderedAll.exists_dataPositions faithful same others) ?_
    rw [← dataPositionsOfAll, dataPositionsOfAll_eq_flatMap, dataPositionsOfAll_eq_flatMap]
    exact order.perm.flatMap_right _
end

/-- If no key is there twice, the order does not matter for what is found. -/
theorem find?_rel_of_perm {α β κ : Type} [BEq κ] [LawfulBEq κ] {r : α → β → Prop} (key : α → κ) (key' : β → κ)
    (sameKey : ∀ {a b}, r a b → key' b = key a) {l : List α} {m m' : List β} (each : List.Forall₂ r l m)
    (order : m.Perm m') (nodup : (l.map key).Nodup) (k : κ) :
    Option.Rel r (l.find? (key · == k)) (m'.find? (key' · == k)) := by
  have keys : m.map key' = l.map key := map_eq_of_forall₂ sameKey each
  have nodup' : (m'.map key').Nodup := (order.map key').nodup_iff.1 (keys ▸ nodup)
  cases found : l.find? (key · == k) with
  | none =>
    have absent : m'.find? (key' · == k) = none := by
      refine List.find?_eq_none.2 fun b member => ?_
      have known : key' b ∈ l.map key := keys ▸ List.mem_map_of_mem (order.mem_iff.2 member)
      obtain ⟨a, inside, same⟩ := List.mem_map.1 known
      rw [← same]
      exact List.find?_eq_none.1 found a inside
    rw [absent]
    exact .none
  | some a =>
    have isKey : key a = k := by simpa using List.find?_some found
    obtain ⟨b, inside, related⟩ := exists_right_of_forall₂ each (List.mem_of_find?_eq_some found)
    rw [← isKey, ← sameKey related, find?_key_eq nodup' (order.mem_iff.1 inside)]
    exact .some related

theorem Position.Reordered.up? (faithful : Faithful R) {p p' : Position} (same : p.Reordered R p') :
    Option.Rel (Position.Reordered R) p.up? p'.up? := by
  obtain ⟨node, above⟩ := p
  obtain ⟨node', above'⟩ := p'
  have around : List.Forall₂ (SchemaNode.Reordered R) above above' := same.above
  simp only [Position.up?]
  clear same
  induction around with
  | nil => exact .none
  | @cons a b _ _ first others ih =>
    have sameKeyword : b.keyword = a.keyword := faithful.keyword first.here
    by_cases seen : isSeenThrough a.keyword = true
    · simpa only [List.dropWhile_cons, sameKeyword, seen, if_true] using ih
    · simp only [List.dropWhile_cons, sameKeyword, seen]
      exact .some ⟨first, others⟩

theorem Position.Reordered.down? (faithful : Faithful R) {p p' : Position} (same : p.Reordered R p')
    (distinct : ((SchemaNode.dataNodesOfAll p.node.children).map (·.name)).Nodup) (name : String) :
    Option.Rel (Position.Reordered R) (p.down? name) (p'.down? name) := by
  obtain ⟨m, each, order⟩ := SchemaNode.ReorderedAll.exists_dataPositions faithful (.cons same.node same.above)
    same.node.children
  rw [Position.down?, Position.down?, dataNodeIn?_eq_find?, dataNodeIn?_eq_find?]
  rw [← dataPositionsOfAll_nodes (p.node :: p.above), List.map_map] at distinct
  exact find?_rel_of_perm (fun q => q.node.name) (fun q => q.node.name)
    (fun related => related.node.name faithful) each order distinct name

end Reordered

/-! ## Paths -/

/-- A way to relate positions in two sets of trees that is kept by going up and down. -/
structure Tracks (τ : Nat → Nat) (trees trees' : SchemaTrees) (R : Position → Position → Prop) : Prop where
  id : ∀ {p p'}, R p p' → p'.node.id = τ p.node.id
  keyword : ∀ {p p'}, R p p' → p'.node.keyword = p.node.keyword
  home : ∀ {p p'}, R p p' → p'.node.statement.home = p.node.statement.home
  up : ∀ {p p'}, R p p' → Option.Rel R p.up? p'.up?
  down : ∀ {p p'}, R p p' → ∀ name, Option.Rel R (p.down? name) (p'.down? name)
  roots : ∀ name, Option.Rel (fun t t' => R ⟨t, []⟩ ⟨t', []⟩) (trees.lookup name) (trees'.lookup name)

theorem rel_bind {α β γ δ : Type} {r : α → β → Prop} {s : γ → δ → Prop} {x : Option α} {y : Option β}
    {f : α → Option γ} {f' : β → Option δ} (first : Option.Rel r x y)
    (second : ∀ a b, r a b → Option.Rel s (f a) (f' b)) : Option.Rel s (x.bind f) (y.bind f') := by
  cases first with
  | none => exact .none
  | some related => exact second _ _ related

section Paths

variable {τ : Nat → Nat} {trees trees' : SchemaTrees} {R : Position → Position → Prop}
  {directory directory' : Directory}

theorem Tracks.follow? (tracks : Tracks τ trees trees' R)
    (qualifiers : ∀ home qualifier, directory'.moduleFor? home qualifier = directory.moduleFor? home qualifier)
    (home : String) : ∀ (steps : List Step) {start start' : Option Position}, Option.Rel R start start' →
      Option.Rel (Option.Rel R) (follow? directory trees home start steps)
        (follow? directory' trees' home start' steps)
  | [], start, start', same => by
    cases same with
    | none => exact .some .none
    | some related => exact .some (.some related)
  | .up :: rest, _, _, same => by
    cases same with
    | none => exact .none
    | some related =>
      exact rel_bind (tracks.up related) fun _ _ above => tracks.follow? qualifiers home rest (.some above)
  | .down qualifier name :: rest, _, _, same => by
    cases same with
    | none =>
      simp only [YangStubs.Schema.follow?, qualifiers]
      cases directory.moduleFor? home qualifier with
      | none => exact .none
      | some target =>
        simp only [Option.bind_eq_bind, Option.bind_some]
        refine rel_bind (tracks.roots target) fun _ _ root => ?_
        exact rel_bind (tracks.down root name) fun _ _ below => tracks.follow? qualifiers home rest (.some below)
    | some related =>
      exact rel_bind (tracks.down related name) fun _ _ below =>
        tracks.follow? qualifiers home rest (.some below)

theorem Tracks.leafrefTarget? (tracks : Tracks τ trees trees' R)
    (qualifiers : ∀ home qualifier, directory'.moduleFor? home qualifier = directory.moduleFor? home qualifier)
    {leaf leaf' : Position} (same : R leaf leaf') (path : String) :
    (leafrefTarget? directory' trees' leaf' path).map (·.id) =
      (leafrefTarget? directory trees leaf path).map fun target => τ target.id := by
  have start : Option.Rel R (if (DataPath.ofString path).absolute then none else some leaf)
      (if (DataPath.ofString path).absolute then none else some leaf') := by
    split
    · exact .none
    · exact .some same
  have reached := tracks.follow? qualifiers leaf.node.statement.home (DataPath.ofString path).steps start
  unfold YangStubs.Schema.leafrefTarget? guard
  simp only [tracks.home same]
  generalize YangStubs.Schema.follow? directory trees _ _ _ = finish at reached ⊢
  generalize YangStubs.Schema.follow? directory' trees' _ _ _ = finish' at reached ⊢
  cases reached with
  | none => rfl
  | some here =>
    cases here with
    | none => rfl
    | @some p p' related =>
      simp only [Option.bind_eq_bind, Option.bind_some, tracks.keyword related]
      by_cases isLeaf : isLeafKeyword p.node.keyword = true
      · simp [isLeaf, tracks.id related]
      · simp only [isLeaf]
        rfl

end Paths

/-! ## Leafrefs -/

/-- Where a leaf stands; a leaf that is in no tree stands by itself. -/
def leafPosition (trees : SchemaTrees) (groupings : List SchemaNode) (leaf : Statement) : Position :=
  (locateIn? leaf.id [] (trees.map (·.2) ++ groupings)).getD ⟨⟨leaf, [], none⟩, []⟩

/-- The link of one leafref. -/
def leafrefLink? (directory : Directory) (trees : SchemaTrees) (groupings : List SchemaNode)
    (item : Statement × Statement × String) : Option (Nat × Nat) :=
  (leafrefTarget? directory trees (leafPosition trees groupings item.2.1) item.2.2).map fun target =>
    (item.1.id, target.id)

theorem linkLeafrefs_eq (directory : Directory) (trees : SchemaTrees) (groupings : List SchemaNode)
    (items : List (Statement × Statement × String)) :
    (linkLeafrefs directory trees groupings items).1 = items.filterMap (leafrefLink? directory trees groupings) := by
  induction items with
  | nil => rfl
  | cons item rest ih =>
    obtain ⟨type, leaf, path⟩ := item
    simp only [linkLeafrefs, List.filterMap_cons, leafrefLink?, leafPosition, ← ih]
    cases leafrefTarget? directory trees
      ((locateIn? leaf.id [] (trees.map (·.2) ++ groupings)).getD ⟨⟨leaf, [], none⟩, []⟩) path <;> rfl

/-- A leafref with other numbers. -/
def renumberLeafref (τ : Nat → Nat) (item : Statement × Statement × String) : Statement × Statement × String :=
  (item.1.renumber τ, item.2.1.renumber τ, item.2.2)

theorem leafref?_renumber (τ : Nat → Nat) (p : Statement.Placed) :
    leafref? (p.renumber τ) = (leafref? p).map (renumberLeafref τ) := by
  obtain ⟨parent, around, s⟩ := p
  unfold leafref? guard
  simp only [Statement.Placed.renumber, Statement.renumber_keyword, Statement.renumber_arg, Statement.argOf?_renumber]
  cases around with
  | none => simp
  | some leaf =>
    simp only [Option.map_some, Option.bind_eq_bind, Option.bind_some, Statement.renumber_keyword]
    by_cases isLeafref : s.keyword = "type" ∧ s.arg = some "leafref"
    · by_cases isLeaf : isLeafKeyword leaf.keyword = true
      · cases s.argOf? "path" <;> simp [isLeafref, isLeaf, renumberLeafref]
      · simp only [isLeaf]
        cases s.keyword == "type" && s.arg == some "leafref" <;> rfl
    · have other : (s.keyword == "type" && s.arg == some "leafref") = false := by simpa using isLeafref
      simp only [other]
      rfl

theorem Tracks.leafrefLink? {τ : Nat → Nat} {trees trees' : SchemaTrees} {R : Position → Position → Prop}
    {directory directory' : Directory} (tracks : Tracks τ trees trees' R)
    (qualifiers : ∀ home qualifier, directory'.moduleFor? home qualifier = directory.moduleFor? home qualifier)
    {groupings groupings' : List SchemaNode} {item : Statement × Statement × String}
    (same : R (leafPosition trees groupings item.2.1) (leafPosition trees' groupings' (item.2.1.renumber τ))) :
    leafrefLink? directory' trees' groupings' (renumberLeafref τ item) =
      (leafrefLink? directory trees groupings item).map (Prod.map τ τ) := by
  have target := tracks.leafrefTarget? qualifiers same item.2.2
  simp only [YangStubs.Schema.leafrefLink?, renumberLeafref, Statement.renumber_id, Option.map_map]
  have paired := congrArg (Option.map fun i => (τ item.1.id, i)) target
  simp only [Option.map_map] at paired
  exact paired

/-- Where a node with some number stands in related trees.  The numbers of nodes that only the second trees
    have are not those of nodes of the first ones. -/
theorem locateIn?_rel {τ : Nat → Nat} {R : Position → Position → Prop} {l l' : List SchemaNode}
    (sameId : ∀ {p p'}, R p p' → p'.node.id = τ p.node.id) (nodup : ((nodesOfAll l').map (·.id)).Nodup)
    (forth : ∀ p ∈ positionsOfAll [] l, ∃ p' ∈ positionsOfAll [] l', R p p') {i : Nat}
    (back : ∀ node' ∈ nodesOfAll l', node'.id = τ i → ∃ node ∈ nodesOfAll l, node.id = i) :
    Option.Rel R (locateIn? i [] l) (locateIn? (τ i) [] l') := by
  have nodup' : ((positionsOfAll [] l').map (·.node.id)).Nodup := by
    rw [← positionsOfAll_nodes [] l', List.map_map] at nodup
    exact nodup
  rw [locateIn?_eq_find?, locateIn?_eq_find?]
  cases found : (positionsOfAll [] l).find? (·.node.id == i) with
  | none =>
    have absent : (positionsOfAll [] l').find? (·.node.id == τ i) = none := by
      refine List.find?_eq_none.2 fun p' member isNumber => ?_
      have inNodes : p'.node ∈ nodesOfAll l' := positionsOfAll_nodes [] l' ▸ List.mem_map_of_mem member
      obtain ⟨node, inside, number⟩ := back p'.node inNodes (by simpa using isNumber)
      rw [← positionsOfAll_nodes [] l] at inside
      obtain ⟨p, listed, rfl⟩ := List.mem_map.1 inside
      exact List.find?_eq_none.1 found p listed (by simpa using number)
    rw [absent]
    exact .none
  | some p =>
    have number : p.node.id = i := by simpa using List.find?_some found
    obtain ⟨p', member, related⟩ := forth p (List.mem_of_find?_eq_some found)
    have located := find?_key_eq nodup' member
    rw [sameId related, number] at located
    rw [located]
    exact .some related

end YangStubs.Schema
