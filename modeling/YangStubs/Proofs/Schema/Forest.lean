import YangStubs.Proofs.Schema.Resolved

/-! # Schema nodes form a forest

Every statement says which nodes are below it and which node it is below.  In a resolved schema the two
agree, no node is below two others, and going up from any statement ends.
-/

namespace YangStubs.Schema

open SchemaNode (placed placedAll)

/-! ## Where the nodes of trees stand -/

mutual
theorem SchemaNode.standings_ids (parent : Option Nat) :
    ∀ node : SchemaNode, (node.standings parent).map (·.id) = node.placed.map (·.id)
  | ⟨statement, children, augment⟩ => by
    simp only [SchemaNode.standings, placed, List.map_cons, standingsOfAll_ids _ children]

/-- One standing for each statement that is placed. -/
theorem standingsOfAll_ids (parent : Option Nat) :
    ∀ nodes : List SchemaNode, (standingsOfAll parent nodes).map (·.id) = (placedAll nodes).map (·.id)
  | [] => rfl
  | node :: rest => by
    simp only [standingsOfAll, placedAll, List.map_append, SchemaNode.standings_ids parent node,
      standingsOfAll_ids parent rest]
end

theorem standingsOfAll_append (parent : Option Nat) (left right : List SchemaNode) :
    standingsOfAll parent (left ++ right) = standingsOfAll parent left ++ standingsOfAll parent right := by
  induction left with
  | nil => rfl
  | cons node rest ih => simp only [List.cons_append, standingsOfAll, ih, List.append_assoc]

/-- The trees themselves stand below the parent. -/
theorem standingsOfAll_root (parent : Option Nat) {node : SchemaNode} {nodes : List SchemaNode}
    (member : node ∈ nodes) :
    ∃ e ∈ standingsOfAll parent nodes, e.id = node.statement.id ∧ e.parent = parent := by
  induction nodes with
  | nil => simp at member
  | cons first rest ih =>
    simp only [standingsOfAll, List.mem_append]
    rcases List.mem_cons.1 member with rfl | member
    · cases node
      exact ⟨_, .inl List.mem_cons_self, rfl, rfl⟩
    · obtain ⟨e, inRest, spec⟩ := ih member
      exact ⟨e, .inr inRest, spec⟩

mutual
theorem SchemaNode.standings_child {parent : Option Nat} :
    ∀ (node : SchemaNode) {e : Standing}, e ∈ node.standings parent → ∀ i ∈ e.children,
      ∃ c ∈ node.standings parent, c.id = i ∧ c.parent = some e.id
  | ⟨statement, children, augment⟩, e, member, i, isChild => by
    simp only [SchemaNode.standings, List.mem_cons] at member ⊢
    rcases member with rfl | member
    · obtain ⟨child, inChildren, rfl⟩ := List.mem_map.1 isChild
      obtain ⟨c, inside, spec⟩ := standingsOfAll_root (some statement.id) inChildren
      exact ⟨c, .inr inside, spec⟩
    · obtain ⟨c, inside, spec⟩ := standingsOfAll_child children member i isChild
      exact ⟨c, .inr inside, spec⟩

theorem standingsOfAll_child {parent : Option Nat} :
    ∀ (nodes : List SchemaNode) {e : Standing}, e ∈ standingsOfAll parent nodes → ∀ i ∈ e.children,
      ∃ c ∈ standingsOfAll parent nodes, c.id = i ∧ c.parent = some e.id
  | [], _, member, _, _ => by simp [standingsOfAll] at member
  | node :: rest, e, member, i, isChild => by
    simp only [standingsOfAll, List.mem_append] at member ⊢
    rcases member with here | others
    · obtain ⟨c, inside, spec⟩ := SchemaNode.standings_child node here i isChild
      exact ⟨c, .inl inside, spec⟩
    · obtain ⟨c, inside, spec⟩ := standingsOfAll_child rest others i isChild
      exact ⟨c, .inr inside, spec⟩
end

mutual
theorem SchemaNode.standings_of_mem (parent : Option Nat) {x : SchemaNode} :
    ∀ node : SchemaNode, x ∈ node.nodes → ∃ e ∈ node.standings parent, e.id = x.id ∧ e.children = x.children.map (·.id)
  | ⟨statement, children, augment⟩, inside => by
    rw [SchemaNode.nodes_eq, List.mem_cons] at inside
    simp only [SchemaNode.standings, List.mem_cons]
    rcases inside with rfl | inside
    · exact ⟨_, .inl rfl, rfl, rfl⟩
    · obtain ⟨e, stands, spec⟩ := standingsOfAll_of_mem (some statement.id) children inside
      exact ⟨e, .inr stands, spec⟩

/-- Every node of the trees has a standing, which lists its children. -/
theorem standingsOfAll_of_mem (parent : Option Nat) {x : SchemaNode} :
    ∀ nodes : List SchemaNode, x ∈ SchemaNode.nodesOfAll nodes →
      ∃ e ∈ standingsOfAll parent nodes, e.id = x.id ∧ e.children = x.children.map (·.id)
  | [], inside => by simp [SchemaNode.nodesOfAll] at inside
  | node :: rest, inside => by
    simp only [SchemaNode.nodesOfAll, standingsOfAll, List.mem_append] at inside ⊢
    rcases inside with here | others
    · obtain ⟨e, stands, spec⟩ := SchemaNode.standings_of_mem parent node here
      exact ⟨e, .inl stands, spec⟩
    · obtain ⟨e, stands, spec⟩ := standingsOfAll_of_mem parent rest others
      exact ⟨e, .inr stands, spec⟩
end

/-- Where no number stands twice, nodes with a child of the same number are the same. -/
theorem SchemaNode.eq_of_common_child {nodes : List SchemaNode}
    (distinct : ((SchemaNode.nodesOfAll nodes).map (·.id)).Nodup) {x y c d : SchemaNode}
    (inside : x ∈ SchemaNode.nodesOfAll nodes) (inside' : y ∈ SchemaNode.nodesOfAll nodes)
    (isChild : c ∈ x.children) (isChild' : d ∈ y.children) (same : c.id = d.id) : x = y := by
  have ids : ((standingsOfAll none nodes).map (·.id)).Nodup := by
    rwa [standingsOfAll_ids, ← SchemaNode.nodesOfAll_statements, List.map_map]
  have listed : ∀ {x c : SchemaNode}, x ∈ SchemaNode.nodesOfAll nodes → c ∈ x.children →
      ∃ k ∈ standingsOfAll none nodes, k.id = c.id ∧ k.parent = some x.id := by
    intro x c inside isChild
    obtain ⟨e, stands, atId, children⟩ := standingsOfAll_of_mem none nodes inside
    rw [← atId]
    exact standingsOfAll_child nodes stands c.id (children ▸ List.mem_map_of_mem isChild)
  obtain ⟨k, stands, atId, parent⟩ := listed inside isChild
  obtain ⟨k', stands', atId', parent'⟩ := listed inside' isChild'
  have sameStanding := List.inj_on_of_nodup_map ids stands stands' (by rw [atId, atId', same])
  rw [sameStanding, parent', Option.some.injEq] at parent
  exact List.inj_on_of_nodup_map distinct inside inside' parent.symm

mutual
theorem SchemaNode.standings_parent {parent : Option Nat} :
    ∀ (node : SchemaNode) {c : Standing}, c ∈ node.standings parent →
      (c.parent = parent ∧ c.id = node.statement.id) ∨
        ∃ e ∈ node.standings parent, c.parent = some e.id ∧ c.id ∈ e.children
  | ⟨statement, children, augment⟩, c, member => by
    simp only [SchemaNode.standings, List.mem_cons] at member ⊢
    rcases member with rfl | member
    · exact .inl ⟨rfl, rfl⟩
    · rcases standingsOfAll_parent children member with ⟨below, isRoot⟩ | ⟨e, inside, spec⟩
      · exact .inr ⟨_, .inl rfl, below, isRoot⟩
      · exact .inr ⟨e, .inr inside, spec⟩

theorem standingsOfAll_parent {parent : Option Nat} :
    ∀ (nodes : List SchemaNode) {c : Standing}, c ∈ standingsOfAll parent nodes →
      (c.parent = parent ∧ c.id ∈ nodes.map (·.statement.id)) ∨
        ∃ e ∈ standingsOfAll parent nodes, c.parent = some e.id ∧ c.id ∈ e.children
  | [], _, member => by simp [standingsOfAll] at member
  | node :: rest, c, member => by
    simp only [standingsOfAll, List.mem_append, List.map_cons, List.mem_cons] at member ⊢
    rcases member with here | others
    · rcases SchemaNode.standings_parent node here with ⟨below, isRoot⟩ | ⟨e, inside, spec⟩
      · exact .inl ⟨below, .inl isRoot⟩
      · exact .inr ⟨e, .inl inside, spec⟩
    · rcases standingsOfAll_parent rest others with ⟨below, isRoot⟩ | ⟨e, inside, spec⟩
      · exact .inl ⟨below, .inr isRoot⟩
      · exact .inr ⟨e, .inr inside, spec⟩
end

theorem SchemaNode.statements_sublist (nodes : List SchemaNode) :
    (nodes.map (·.statement)).Sublist (placedAll nodes) := by
  induction nodes with
  | nil => exact List.Sublist.refl _
  | cons node rest ih =>
    rw [SchemaNode.placedAll_cons, SchemaNode.placed_eq, List.map_cons, List.cons_append]
    exact (ih.trans (List.sublist_append_right _ _)).cons_cons _

mutual
theorem SchemaNode.standings_children_sublist {parent : Option Nat} :
    ∀ (node : SchemaNode) {e : Standing}, e ∈ node.standings parent → e.children.Sublist (node.placed.map (·.id))
  | ⟨statement, children, augment⟩, e, member => by
    simp only [SchemaNode.standings, List.mem_cons] at member
    simp only [placed, List.map_cons]
    refine List.Sublist.cons _ ?_
    rcases member with rfl | member
    · simpa [Function.comp_def] using (SchemaNode.statements_sublist children).map (·.id)
    · exact standingsOfAll_children_sublist children member

/-- No more children are listed than statements are placed. -/
theorem standingsOfAll_children_sublist {parent : Option Nat} :
    ∀ (nodes : List SchemaNode) {e : Standing}, e ∈ standingsOfAll parent nodes →
      e.children.Sublist ((placedAll nodes).map (·.id))
  | [], _, member => by simp [standingsOfAll] at member
  | node :: rest, e, member => by
    simp only [standingsOfAll, List.mem_append] at member
    simp only [placedAll, List.map_append]
    rcases member with here | others
    · exact (SchemaNode.standings_children_sublist node here).trans (List.sublist_append_left _ _)
    · exact (standingsOfAll_children_sublist rest others).trans (List.sublist_append_right _ _)
end

/-! ## Going up -/

namespace Resolved

/-- The node that the statement with that number is below. -/
def schemaParent? (schema : Resolved) (id : Nat) : Option Nat :=
  (schema.records.find? (·.id == id)).bind (·.schemaParent)

/-- The node that is reached by going up a number of steps. -/
def climb? (schema : Resolved) : Nat → Nat → Option Nat
  | 0, id => some id
  | steps + 1, id => (schema.schemaParent? id).bind (schema.climb? steps)

/-- Going up from there ends. -/
def Ends (schema : Resolved) (id : Nat) : Prop :=
  ∃ steps, schema.climb? steps id = none

variable {schema : Resolved}

theorem ends_of_parent {id : Nat} {parent : Option Nat} (above : schema.schemaParent? id = parent)
    (ends : ∀ p, parent = some p → schema.Ends p) : schema.Ends id := by
  cases parent with
  | none => exact ⟨1, by simp [climb?, above]⟩
  | some p =>
    obtain ⟨steps, top⟩ := ends p rfl
    exact ⟨steps + 1, by simp [climb?, above, top]⟩

mutual
theorem ends_of_standings {parent : Option Nat} (ends : ∀ p, parent = some p → schema.Ends p) :
    ∀ (node : SchemaNode),
      (∀ e ∈ node.standings parent, schema.schemaParent? e.id = e.parent) →
      ∀ e ∈ node.standings parent, schema.Ends e.id
  | ⟨statement, children, augment⟩, above, e, member => by
    simp only [SchemaNode.standings, List.mem_cons] at above member
    have here : schema.Ends statement.id := ends_of_parent (above _ (.inl rfl)) ends
    rcases member with rfl | member
    · exact here
    · exact ends_of_standingsOfAll (fun p same => Option.some.inj same ▸ here) children
        (fun e inside => above e (.inr inside)) e member

/-- Below a parent from which going up ends, going up ends everywhere. -/
theorem ends_of_standingsOfAll {parent : Option Nat} (ends : ∀ p, parent = some p → schema.Ends p) :
    ∀ (nodes : List SchemaNode),
      (∀ e ∈ standingsOfAll parent nodes, schema.schemaParent? e.id = e.parent) →
      ∀ e ∈ standingsOfAll parent nodes, schema.Ends e.id
  | [], _, _, member => by simp [standingsOfAll] at member
  | node :: rest, above, e, member => by
    simp only [standingsOfAll, List.mem_append] at above member
    rcases member with here | others
    · exact ends_of_standings ends node (fun e inside => above e (.inl inside)) e here
    · exact ends_of_standingsOfAll ends rest (fun e inside => above e (.inr inside)) e others
end

end Resolved

/-! ## Records and standings -/

namespace Resolved

/-- The schema nodes below a statement and the node above it agree, and form a forest. -/
structure IsForest (schema : Resolved) : Prop where
  /-- A number stands for one statement. -/
  ids : (schema.records.map (·.id)).Nodup
  /-- Only statements are listed as children. -/
  known : ∀ p ∈ schema.records, p.keyword ≠ "augment" → ∀ i ∈ p.children, ∃ c ∈ schema.records, c.id = i
  /-- A statement is listed as a child exactly by the node that it names as its parent. -/
  agree : ∀ p ∈ schema.records, p.keyword ≠ "augment" → ∀ c ∈ schema.records,
    (c.id ∈ p.children ↔ c.schemaParent = some p.id)
  /-- No child is listed twice. -/
  once : ∀ p ∈ schema.records, p.keyword ≠ "augment" → p.children.Nodup
  /-- No child is listed by two statements. -/
  apart : ∀ p ∈ schema.records, p.keyword ≠ "augment" →
    ∀ q ∈ schema.records, q.keyword ≠ "augment" → ∀ i ∈ p.children, i ∈ q.children → p = q
  /-- Going up from any statement ends. -/
  ends : ∀ r ∈ schema.records, schema.Ends r.id

/-- Where the nodes in the trees of modules and groupings stand. -/
def treeStandings (schema : Resolved) : List Standing :=
  standingsOfAll none (schema.modules.map (·.2) ++ schema.groupings)

theorem mem_standings {schema : Resolved} {e : Standing} :
    e ∈ schema.standings ↔ e ∈ schema.treeStandings ∨
      ∃ a ∈ schema.augments, e = ⟨a.id, a.children.map (·.id), none, none⟩ := by
  simp only [standings, treeStandings, standingsOfAll_append, List.mem_append, List.mem_map, eq_comm]

theorem records_ids (schema : Resolved) : schema.records.map (·.id) = schema.all.map (·.id) := by
  rw [← statements_eq_all]
  simp only [records, List.map_map]
  rfl

theorem exists_record_of_mem_all {schema : Resolved} {s : Statement} (known : s ∈ schema.all) :
    ∃ r ∈ schema.records, r.id = s.id := by
  have inIds : s.id ∈ schema.records.map (·.id) := by
    rw [records_ids]
    exact List.mem_map_of_mem known
  exact List.mem_map.1 inIds

/-- What a record says, in terms of the statement and of where it stands. -/
theorem records_spec {schema : Resolved} {r : Record} (member : r ∈ schema.records) :
    (∃ s ∈ schema.all, r.id = s.id ∧ r.keyword = s.keyword) ∧
      r.children = ((schema.standings.find? (·.id == r.id)).map (·.children)).getD [] ∧
      r.schemaParent = (schema.standings.find? (·.id == r.id)).bind (·.parent) := by
  obtain ⟨s, isStatement, rfl⟩ := List.mem_map.1 member
  refine ⟨⟨s.statement, ?_, rfl, rfl⟩, rfl, rfl⟩
  rw [← statements_eq_all]
  exact List.mem_map_of_mem isStatement

namespace Sound

variable {schema : Resolved}

section

variable (sound : schema.Sound)
include sound

theorem standings_nodup : (schema.standings.map (·.id)).Nodup := by
  refine List.nodup_iff_count_le_one.2 fun i => ?_
  have ids : schema.standings.map (·.id) =
      schema.standing.map (·.id) ++ (schema.augments.map (·.statement)).map (·.id) := by
    simp only [standings, standing, List.map_append, standingsOfAll_ids, List.map_map]
    rfl
  rw [ids, List.count_append]
  exact sound.once i

theorem find?_standing {e : Standing} (member : e ∈ schema.standings) :
    schema.standings.find? (·.id == e.id) = some e :=
  find?_key_eq sound.standings_nodup member

theorem record_eq {r : Record} (member : r ∈ schema.records) {e : Standing} (stands : e ∈ schema.standings)
    (same : r.id = e.id) : r.children = e.children ∧ r.schemaParent = e.parent := by
  obtain ⟨-, children, parent⟩ := records_spec member
  rw [same, sound.find?_standing stands] at children parent
  exact ⟨children, parent⟩

/-- A node that is no augment stands in the tree of a module or grouping. -/
theorem mem_treeStandings {r : Record} (member : r ∈ schema.records) (notAugment : r.keyword ≠ "augment")
    {e : Standing} (stands : e ∈ schema.standings) (same : r.id = e.id) : e ∈ schema.treeStandings := by
  rcases mem_standings.1 stands with inTrees | ⟨a, isAugment, rfl⟩
  · exact inTrees
  · obtain ⟨⟨s, known, atId, keyword⟩, -⟩ := records_spec member
    have listed : a.statement ∈ augmentsOfForest schema.forest := by
      rw [← sound.augments]
      exact List.mem_map_of_mem isAugment
    have inAll : a.statement ∈ schema.all :=
      List.mem_append_left _ ((augmentsOfForest_sublist _).subset listed)
    have sameStatement := sound.eq_of_id_eq known inAll (atId.symm.trans same)
    rw [keyword, sameStatement] at notAugment
    exact absurd (augmentsOfForest_keyword listed) notAugment

theorem treeStandings_known {e : Standing} (member : e ∈ schema.treeStandings) :
    ∃ r ∈ schema.records, r.id = e.id := by
  have inIds : e.id ∈ (standingsOfAll none (schema.modules.map (·.2) ++ schema.groupings)).map (·.id) :=
    List.mem_map_of_mem member
  rw [standingsOfAll_ids, SchemaNode.placedAll_append] at inIds
  obtain ⟨s, stands, same⟩ := List.mem_map.1 inIds
  rw [← same]
  exact exists_record_of_mem_all (sound.known s stands)

theorem records_nodup : (schema.records.map (·.id)).Nodup := by
  rw [records_ids]
  exact sound.nodup

theorem lister {p : Record} (member : p ∈ schema.records) (notAugment : p.keyword ≠ "augment") {i : Nat}
    (listed : i ∈ p.children) : ∃ e ∈ schema.treeStandings, e.id = p.id ∧ e.children = p.children := by
  obtain ⟨-, children, -⟩ := records_spec member
  cases found : schema.standings.find? (·.id == p.id) with
  | none => simp [children, found] at listed
  | some e =>
    have stands := List.mem_of_find?_eq_some found
    have same : e.id = p.id := by simpa using List.find?_some found
    refine ⟨e, sound.mem_treeStandings member notAugment stands same.symm, same, ?_⟩
    simp [children, found]

end

/-- The standing of a node that is below another one. -/
theorem exists_below {c : Record} (member : c ∈ schema.records) {p : Nat}
    (above : c.schemaParent = some p) :
    ∃ e ∈ schema.treeStandings, e.id = c.id ∧ e.parent = some p := by
  obtain ⟨-, -, parent⟩ := records_spec member
  obtain ⟨e, found, isBelow⟩ := Option.bind_eq_some_iff.1 (parent.symm.trans above)
  have same : e.id = c.id := by simpa using List.find?_some found
  rcases mem_standings.1 (List.mem_of_find?_eq_some found) with inTrees | ⟨a, -, rfl⟩
  · exact ⟨e, inTrees, same, isBelow⟩
  · exact absurd isBelow nofun

section

variable (sound : schema.Sound)
include sound

theorem agree {p : Record} (isParent : p ∈ schema.records) (notAugment : p.keyword ≠ "augment") {c : Record}
    (isChild : c ∈ schema.records) : c.id ∈ p.children ↔ c.schemaParent = some p.id := by
  constructor
  · intro listed
    obtain ⟨e, inTrees, sameId, sameChildren⟩ := sound.lister isParent notAugment listed
    obtain ⟨child, inTrees', atId, parent⟩ :=
      standingsOfAll_child _ inTrees c.id (sameChildren ▸ listed)
    rw [(sound.record_eq isChild (mem_standings.2 (.inl inTrees')) atId.symm).2, parent, sameId]
  · intro above
    obtain ⟨e, inTrees, same, isBelow⟩ := exists_below isChild above
    rcases standingsOfAll_parent _ inTrees with ⟨isRoot, -⟩ | ⟨e', inTrees', parent, listed⟩
    · exact absurd (isRoot.symm.trans isBelow) nofun
    · have sameParent : p.id = e'.id := Option.some.inj (isBelow.symm.trans parent)
      rw [(sound.record_eq isParent (mem_standings.2 (.inl inTrees')) sameParent).1, ← same]
      exact listed

theorem schemaParent?_eq {r : Record} (member : r ∈ schema.records) : schema.schemaParent? r.id = r.schemaParent := by
  rw [schemaParent?, find?_key_eq sound.records_nodup member, Option.bind_some]

theorem ends {r : Record} (member : r ∈ schema.records) : schema.Ends r.id := by
  cases above : r.schemaParent with
  | none => exact ends_of_parent ((sound.schemaParent?_eq member).trans above) nofun
  | some p =>
    obtain ⟨e, inTrees, same, -⟩ := exists_below member above
    rw [← same]
    -- Numbers give no measure here, since a case has a larger one than what it holds: the trees do.
    have atRoots : ∀ p, (none : Option Nat) = some p → schema.Ends p := nofun
    refine ends_of_standingsOfAll atRoots _ (fun e' inTrees' => ?_) e inTrees
    obtain ⟨r', isRecord, atId⟩ := sound.treeStandings_known inTrees'
    rw [← atId, sound.schemaParent?_eq isRecord]
    exact (sound.record_eq isRecord (mem_standings.2 (.inl inTrees')) atId).2

theorem children_nodup {p : Record} (isParent : p ∈ schema.records) (notAugment : p.keyword ≠ "augment") :
    p.children.Nodup := by
  cases listed : p.children with
  | nil => exact List.nodup_nil
  | cons i rest =>
    obtain ⟨e, inTrees, -, sameChildren⟩ := sound.lister isParent notAugment (by rw [listed]; exact List.mem_cons_self)
    rw [← listed, ← sameChildren]
    refine (standingsOfAll_children_sublist _ inTrees).nodup ?_
    refine List.nodup_iff_count_le_one.2 fun j => ?_
    rw [SchemaNode.placedAll_append]
    exact Nat.le_trans (Nat.le_add_right _ _) (sound.once j)

theorem children_known {p : Record} (isParent : p ∈ schema.records) (notAugment : p.keyword ≠ "augment")
    {i : Nat} (listed : i ∈ p.children) : ∃ c ∈ schema.records, c.id = i := by
  obtain ⟨e, inTrees, -, sameChildren⟩ := sound.lister isParent notAugment listed
  obtain ⟨child, inTrees', rfl, -⟩ := standingsOfAll_child _ inTrees i (sameChildren ▸ listed)
  exact sound.treeStandings_known inTrees'

theorem isForest : schema.IsForest where
  ids := sound.records_nodup
  known := fun _ isParent notAugment _ listed => sound.children_known isParent notAugment listed
  agree := fun _ isParent notAugment _ isChild => sound.agree isParent notAugment isChild
  once := fun _ isParent notAugment => sound.children_nodup isParent notAugment
  apart := by
    intro p isParent notAugment q isOther notAugment' i inP inQ
    obtain ⟨c, isChild, rfl⟩ := sound.children_known isParent notAugment inP
    have above := (sound.agree isParent notAugment isChild).1 inP
    have above' := (sound.agree isOther notAugment' isChild).1 inQ
    exact List.inj_on_of_nodup_map sound.records_nodup isParent isOther (Option.some.inj (above.symm.trans above'))
  ends := fun _ member => sound.ends member

end

end Sound

end Resolved

/-- Whatever texts are added and whichever modules the sources give, what resolving answers is a forest. -/
theorem resolve_isForest (texts : List String) (sources : List Source) (files : FileTree)
    (schema : Resolved)
    (resolved : ((Library.ofTexts texts).resolve sources files).result = .ok schema) :
    schema.IsForest :=
  ((Library.sound_ofTexts texts).schema_sound resolved).isForest

/-- A module in which an augment brings a node below a choice, where it gets a case. -/
def augmentedChoice : String :=
  "<module name='m' xmlns='urn:ietf:params:xml:ns:yang:yin:1'>" ++
  "<choice name='c'/><augment target-node='/c'><leaf name='y'/></augment></module>"

theorem resolve_isForest_augmentedChoice :
    ∃ schema, ((Library.ofTexts [augmentedChoice]).resolve [] ⟨[]⟩).result = .ok schema ∧
      schema.IsForest ∧
      schema.records.map (·.schemaParent) = [none, some 1, none, some 5, some 2] := by
  have succeeds : (((Library.ofTexts [augmentedChoice]).resolve [] ⟨[]⟩).result.toOption.map
      fun schema => schema.records.map (·.schemaParent)) =
      some [none, some 1, none, some 5, some 2] := by
    decide +kernel
  cases resolved : ((Library.ofTexts [augmentedChoice]).resolve [] ⟨[]⟩).result with
  | error e => simp [resolved, Except.toOption] at succeeds
  | ok schema =>
    refine ⟨schema, rfl, resolve_isForest _ _ _ schema resolved, ?_⟩
    simpa [resolved, Except.toOption] using succeeds

end YangStubs.Schema
