import YangStubs.Proofs.Schema.Forest
import YangStubs.Proofs.Schema.Tracing

/-! # Data nodes above and below each other

Data paths see through choices and cases.  Where a statement stands in the schema trees is found by its number;
going down from there to a data node and up again comes back, and going up is what the links of the statements
say.
-/

namespace YangStubs.Schema

open SchemaNode (nodesOfAll)

variable {node : SchemaNode} {p q : Position} {id : Nat}

/-! ## Up and down -/

section Positions

variable {trees : List SchemaNode}

theorem mem_dataPositionsOfAll {above l : List SchemaNode} (member : node ∈ l) (inside : q ∈ node.dataPositions above) :
    q ∈ dataPositionsOfAll above l := by
  rw [dataPositionsOfAll_eq_flatMap]
  exact List.mem_flatMap.2 ⟨node, member, inside⟩

theorem SchemaNode.dataPositions_of_seen (above : List SchemaNode) (seen : isSeenThrough node.keyword = true) :
    node.dataPositions above = dataPositionsOfAll (node :: above) node.children := by
  obtain ⟨statement, children, augment⟩ := node
  rw [SchemaNode.dataPositions]
  exact if_pos seen

theorem SchemaNode.dataPositions_of_data (above : List SchemaNode) (isData : isSeenThrough node.keyword = false) :
    node.dataPositions above = [⟨node, above⟩] := by
  obtain ⟨statement, children, augment⟩ := node
  rw [SchemaNode.dataPositions]
  exact if_neg (Bool.eq_false_iff.1 isData)

namespace Position

theorem up?_of_through {a : SchemaNode} {through rest : List SchemaNode}
    (seen : ∀ b ∈ through, isSeenThrough b.keyword = true) (isData : isSeenThrough a.keyword = false) :
    up? ⟨node, through ++ a :: rest⟩ = some ⟨a, rest⟩ := by
  induction through generalizing node with
  | nil => exact up?_of_data isData
  | cons b inner ih =>
    obtain ⟨first, others⟩ := List.forall_mem_cons.1 seen
    rw [List.cons_append, up?_of_seen first, ih others]

/-- What is found below a choice or a case is found below the next data node above. -/
theorem Stands.dataPositions_up : ∀ {rest : List SchemaNode} {a node : SchemaNode},
    Stands trees ⟨a, rest⟩ → Position.up? ⟨node, a :: rest⟩ = some p →
      q ∈ dataPositionsOfAll (a :: rest) a.children → q ∈ dataPositionsOfAll (p.node :: p.above) p.node.children
  | rest, a, node, stands, up, inside => by
    cases seen : isSeenThrough a.keyword with
    | false =>
      rw [up?_of_data seen] at up
      cases up
      exact inside
    | true =>
      rw [up?_of_seen seen] at up
      cases rest with
      | nil => simp [Position.up?] at up
      | cons b outer =>
        refine Stands.dataPositions_up stands.parent.1 up (mem_dataPositionsOfAll stands.parent.2 ?_)
        rw [SchemaNode.dataPositions_of_seen _ seen]
        exact inside

/-- A data node is among the data nodes below the next data node above it. -/
theorem Stands.mem_dataPositions (stands : q.Stands trees) (isData : isSeenThrough q.node.keyword = false)
    (up : q.up? = some p) : q ∈ dataPositionsOfAll (p.node :: p.above) p.node.children := by
  obtain ⟨node, above⟩ := q
  cases above with
  | nil => simp [Position.up?] at up
  | cons a rest =>
    refine Stands.dataPositions_up stands.parent.1 up (mem_dataPositionsOfAll stands.parent.2 ?_)
    rw [SchemaNode.dataPositions_of_data _ isData]
    exact List.mem_singleton_self _

/-- Going up comes back to where one went down from, unless that is a choice or a case. -/
theorem Stands.up?_of_down? {name : String} (stands : p.Stands trees) (isData : isSeenThrough p.node.keyword = false)
    (down : p.down? name = some q) : q.up? = some p := by
  obtain ⟨-, -, -, through, between, seen⟩ := stands.down? down
  obtain ⟨node, above⟩ := q
  cases between
  exact up?_of_through seen isData

theorem Stands.down?_isSome (stands : q.Stands trees) (isData : isSeenThrough q.node.keyword = false)
    (up : q.up? = some p) : (p.down? q.node.name).isSome := by
  rw [Position.down?, dataNodeIn?_eq_find?, List.find?_isSome]
  exact ⟨q, stands.mem_dataPositions isData up, by simp⟩

end Position

end Positions

/-! ## Positions by number -/

/-- Where a position stands, as one of the entries that the records are made of. -/
def Position.standing (p : Position) : Standing :=
  ⟨p.node.id, p.node.children.map (·.id), p.above.head?.map (·.id), p.node.augment⟩

mutual
theorem SchemaNode.standings_eq_positions : ∀ (node : SchemaNode) (above : List SchemaNode),
    node.standings (above.head?.map (·.id)) = (node.positions above).map Position.standing
  | ⟨statement, children, augment⟩, above => by
    have below := standingsOfAll_eq_positions children (⟨statement, children, augment⟩ :: above)
    rw [SchemaNode.standings, SchemaNode.positions, List.map_cons, ← below]
    rfl

theorem standingsOfAll_eq_positions : ∀ (l : List SchemaNode) (above : List SchemaNode),
    standingsOfAll (above.head?.map (·.id)) l = (positionsOfAll above l).map Position.standing
  | [], _ => rfl
  | node :: rest, above => by
    rw [standingsOfAll, positionsOfAll, List.map_append, SchemaNode.standings_eq_positions node above,
      standingsOfAll_eq_positions rest above]
end

namespace Resolved

/-- The trees of the modules and groupings. -/
def trees (schema : Resolved) : List SchemaNode :=
  schema.modules.map (·.2) ++ schema.groupings

/-- Where the statement with that number stands in the trees. -/
def position? (schema : Resolved) (id : Nat) : Option Position :=
  locateIn? id [] schema.trees

/-- The next data node above the statement with that number. -/
def dataParent? (schema : Resolved) (id : Nat) : Option Nat :=
  ((schema.position? id).bind (·.up?)).map (·.node.id)

/-- The first data node of that name below the statement with that number. -/
def dataChild? (schema : Resolved) (id : Nat) (name : String) : Option Nat :=
  ((schema.position? id).bind (·.down? name)).map (·.node.id)

/-- The next data node above, by the links of the statements: choices and cases are passed. -/
inductive DataParent (schema : Resolved) : Nat → Nat → Prop
  | next {id parent : Nat} {s : Statement} (above : schema.schemaParent? id = some parent)
      (known : schema.statement? parent = some s) (isData : isSeenThrough s.keyword = false) :
      DataParent schema id parent
  | through {id between parent : Nat} {s : Statement} (above : schema.schemaParent? id = some between)
      (known : schema.statement? between = some s) (seen : isSeenThrough s.keyword = true)
      (outer : DataParent schema between parent) : DataParent schema id parent

variable {schema : Resolved}

theorem position?_spec (found : schema.position? id = some p) : p.Stands schema.trees ∧ p.node.id = id := by
  refine ⟨locateIn?_stands found, ?_⟩
  rw [position?, locateIn?_eq_find?] at found
  simpa using List.find?_some found

namespace Sound

section

variable (sound : schema.Sound) {p : Position} (stands : p.Stands schema.trees)
include sound stands

theorem position?_eq : schema.position? p.node.id = some p := by
  have nodup : ((positionsOfAll [] schema.trees).map (·.node.id)).Nodup := by
    have ids := sound.nodes_nodup
    rw [← positionsOfAll_nodes [] _, List.map_map] at ids
    exact ids
  rw [position?, locateIn?_eq_find?]
  exact find?_key_eq nodup (Position.stands_iff.1 stands)

theorem statement?_position : schema.statement? p.node.id = some p.node.statement :=
  sound.statement?_eq (sound.node_known stands.node_mem)

/-- The link to the node above leads one step up. -/
theorem schemaParent?_position : schema.schemaParent? p.node.id = p.above.head?.map (·.id) := by
  have listed : p.standing ∈ schema.treeStandings := by
    have all := standingsOfAll_eq_positions schema.trees []
    rw [treeStandings]
    exact all ▸ List.mem_map_of_mem (Position.stands_iff.1 stands)
  obtain ⟨r, isRecord, atId⟩ := sound.treeStandings_known listed
  have same : r.id = p.node.id := atId
  rw [← same, sound.schemaParent?_eq isRecord]
  exact (sound.record_eq isRecord (mem_standings.2 (.inl listed)) atId).2

end

theorem exists_position {parent : Nat} (above : schema.schemaParent? id = some parent) :
    ∃ p : Position, p.Stands schema.trees ∧ p.node.id = id := by
  obtain ⟨r, isRecord, isBelow⟩ := Option.bind_eq_some_iff.1 above
  have same : r.id = id := by simpa using List.find?_some isRecord
  obtain ⟨e, inTrees, atId, -⟩ := exists_below (List.mem_of_find?_eq_some isRecord) isBelow
  have all := standingsOfAll_eq_positions schema.trees []
  rw [treeStandings] at inTrees
  obtain ⟨p, isPosition, rfl⟩ := List.mem_map.1 (all ▸ inTrees)
  exact ⟨p, Position.stands_iff.2 isPosition, atId.trans same⟩

theorem exists_position_above (sound : schema.Sound) {parent : Nat} (above : schema.schemaParent? id = some parent) :
    ∃ node a rest, Position.Stands schema.trees ⟨node, a :: rest⟩ ∧ node.id = id ∧ a.id = parent := by
  obtain ⟨⟨node, outer⟩, stands, rfl⟩ := exists_position above
  have linked := (sound.schemaParent?_position stands).symm.trans above
  cases outer with
  | nil => simp at linked
  | cons a rest => exact ⟨node, a, rest, stands, rfl, by simpa using linked⟩

theorem dataParent?_position (sound : schema.Sound) (stands : p.Stands schema.trees) :
    schema.dataParent? p.node.id = p.up?.map (·.node.id) := by
  rw [dataParent?, sound.position?_eq stands, Option.bind_some]

theorem dataParent_of_up? (sound : schema.Sound) :
    ∀ {above : List SchemaNode} {node : SchemaNode}, Position.Stands schema.trees ⟨node, above⟩ →
      Position.up? ⟨node, above⟩ = some q → schema.DataParent node.id q.node.id
  | [], _, _, up => by simp [Position.up?] at up
  | a :: rest, node, stands, up => by
    have linked : schema.schemaParent? node.id = some a.id := sound.schemaParent?_position stands
    have known : schema.statement? a.id = some a.statement := sound.statement?_position stands.parent.1
    cases seen : isSeenThrough a.keyword with
    | true =>
      rw [Position.up?_of_seen seen] at up
      exact .through linked known seen (dataParent_of_up? sound stands.parent.1 up)
    | false =>
      rw [Position.up?_of_data seen] at up
      cases up
      exact .next linked known seen

/-- Going up in the trees is following the links of the statements. -/
theorem dataParent?_eq_some_iff (sound : schema.Sound) {parent : Nat} :
    schema.dataParent? id = some parent ↔ schema.DataParent id parent := by
  constructor
  · intro found
    obtain ⟨q, isAbove, rfl⟩ := Option.map_eq_some_iff.1 found
    obtain ⟨p, located, up⟩ := Option.bind_eq_some_iff.1 isAbove
    obtain ⟨stands, rfl⟩ := position?_spec located
    exact sound.dataParent_of_up? stands up
  · intro linked
    induction linked with
    | next above known isData =>
      obtain ⟨node, a, rest, stands, rfl, rfl⟩ := sound.exists_position_above above
      cases (sound.statement?_position stands.parent.1).symm.trans known
      have up : Position.up? ⟨node, a :: rest⟩ = some ⟨a, rest⟩ := Position.up?_of_data isData
      have atNode := sound.dataParent?_position stands
      rw [up] at atNode
      exact atNode
    | through above known seen outer ih =>
      obtain ⟨node, a, rest, stands, rfl, rfl⟩ := sound.exists_position_above above
      cases (sound.statement?_position stands.parent.1).symm.trans known
      have up : Position.up? ⟨node, a :: rest⟩ = Position.up? ⟨a, rest⟩ := Position.up?_of_seen seen
      have atNode := sound.dataParent?_position stands
      rw [up, ← sound.dataParent?_position stands.parent.1] at atNode
      exact atNode.trans ih

/-- Going down finds a data node of that name whenever one is below, seen through choices and cases. -/
theorem dataChild?_isSome_iff (sound : schema.Sound) {name : String}
    (isData : ∀ s, schema.statement? id = some s → isSeenThrough s.keyword = false) :
    (schema.dataChild? id name).isSome ↔ ∃ c s, schema.DataParent c id ∧ schema.statement? c = some s ∧
      s.name = name ∧ isSeenThrough s.keyword = false := by
  constructor
  · intro found
    rw [dataChild?, Option.isSome_map, Option.isSome_iff_exists] at found
    obtain ⟨q, isBelow⟩ := found
    obtain ⟨p, located, down⟩ := Option.bind_eq_some_iff.1 isBelow
    obtain ⟨stands, rfl⟩ := position?_spec located
    obtain ⟨below, isNode, named, -⟩ := stands.down? down
    have up := stands.up?_of_down? (isData _ (sound.statement?_position stands)) down
    exact ⟨q.node.id, q.node.statement, sound.dataParent_of_up? below up, sound.statement?_position below, named,
      isNode⟩
  · rintro ⟨c, s, linked, known, rfl, isNode⟩
    have found := sound.dataParent?_eq_some_iff.2 linked
    obtain ⟨p, isAbove, rfl⟩ := Option.map_eq_some_iff.1 found
    obtain ⟨q, located, up⟩ := Option.bind_eq_some_iff.1 isAbove
    obtain ⟨stands, rfl⟩ := position?_spec located
    cases (sound.statement?_position stands).symm.trans known
    have below := stands.down?_isSome isNode up
    rw [dataChild?, sound.position?_eq (stands.up? up).1, Option.bind_some, Option.isSome_map]
    exact below

/-- Going up comes back to where one went down from, unless that is a choice or a case. -/
theorem dataParent?_of_dataChild? (sound : schema.Sound) {c : Nat} {name : String}
    (isData : ∀ s, schema.statement? id = some s → isSeenThrough s.keyword = false)
    (found : schema.dataChild? id name = some c) : schema.dataParent? c = some id := by
  obtain ⟨q, isBelow, rfl⟩ := Option.map_eq_some_iff.1 found
  obtain ⟨p, located, down⟩ := Option.bind_eq_some_iff.1 isBelow
  obtain ⟨stands, rfl⟩ := position?_spec located
  have up := stands.up?_of_down? (isData _ (sound.statement?_position stands)) down
  rw [sound.dataParent?_position (stands.down? down).1, up, Option.map_some]

end Sound

end Resolved

end YangStubs.Schema
