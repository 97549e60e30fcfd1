import YangStubs.Model.Module
import YangStubs.Proofs.Schema.Resolved

/-! # Schema nodes and definitions

What building a model starts from: the schema node of a statement, which is the only one that it has, and
the groupings and typedefs with their keys.
-/

namespace YangStubs.Model

open YangStubs.Schema
open YangStubs.Schema.Statement (withinAll)
open YangStubs.Schema.SchemaNode (placedAll nodesOfAll)

/-! ## The schema node of a statement -/

/-- The trees in which schema nodes are looked for. -/
def treesOf (schema : Resolved) : List SchemaNode :=
  schema.modules.map (·.2) ++ schema.groupings

theorem schemaNode_eq_find? (schema : Resolved) (s : Statement) :
    schemaNode schema s = ((nodesOfAll (treesOf schema)).find? (·.id == s.id)).getD ⟨s, [], none⟩ := by
  rw [schemaNode, locateIn?_node]
  rfl

section Sound

variable {schema : Resolved} (sound : schema.Sound)
include sound

theorem nodes_ids_nodup : ((nodesOfAll (treesOf schema)).map (·.id)).Nodup :=
  sound.nodes_nodup

theorem statement_known {x : SchemaNode} (inTrees : x ∈ nodesOfAll (treesOf schema)) : x.statement ∈ schema.all :=
  sound.node_known inTrees

theorem schemaNode_eq {x : SchemaNode} (inTrees : x ∈ nodesOfAll (treesOf schema)) :
    schemaNode schema x.statement = x := by
  have found := find?_key_eq (nodes_ids_nodup sound) inTrees
  rw [schemaNode_eq_find?]
  exact congrArg (Option.getD · _) found

/-- A statement has its node in the trees, or a node of its own with nothing below it. -/
theorem schemaNode_cases {s : Statement} (known : s ∈ schema.all) :
    (schemaNode schema s ∈ nodesOfAll (treesOf schema) ∧ (schemaNode schema s).statement = s) ∨
      schemaNode schema s = ⟨s, [], none⟩ := by
  rw [schemaNode_eq_find?]
  cases found : (nodesOfAll (treesOf schema)).find? (·.id == s.id) with
  | none => exact .inr rfl
  | some x =>
    have inTrees := List.mem_of_find?_eq_some found
    have same : x.id = s.id := by simpa using List.find?_some found
    exact .inl ⟨inTrees, sound.eq_of_id_eq (statement_known sound inTrees) known same⟩

theorem schemaNode_statement {s : Statement} (known : s ∈ schema.all) : (schemaNode schema s).statement = s := by
  rcases schemaNode_cases sound known with ⟨-, same⟩ | same
  · exact same
  · rw [same]

theorem treesOf_children_tree {x c : SchemaNode} (inTrees : x ∈ nodesOfAll (treesOf schema))
    (isChild : c ∈ x.children) : isTreeKeyword c.keyword := by
  refine sound.tree c.statement ?_
  have below : c.statement ∈ (nodesOfAll ((treesOf schema).flatMap (·.children))).map (·.statement) :=
    List.mem_map_of_mem (SchemaNode.mem_nodesOfAll_below inTrees isChild)
  rwa [SchemaNode.nodesOfAll_statements, treesOf, List.flatMap_append, List.flatMap_map,
    SchemaNode.placedAll_append] at below

end Sound

/-- A schema node that is the one of its statement, as are all nodes below it. -/
inductive Proper (schema : Resolved) : SchemaNode → Prop
  | intro {statement : Statement} {children : List SchemaNode} {augment : Option Nat}
      (known : statement ∈ schema.all)
      (own : schemaNode schema statement = ⟨statement, children, augment⟩)
      (tree : ∀ c ∈ children, isTreeKeyword c.keyword)
      (below : ∀ c ∈ children, Proper schema c) : Proper schema ⟨statement, children, augment⟩

theorem Proper.known {schema : Resolved} {x : SchemaNode} (proper : Proper schema x) : x.statement ∈ schema.all := by
  cases proper; assumption

theorem Proper.own {schema : Resolved} {x : SchemaNode} (proper : Proper schema x) :
    schemaNode schema x.statement = x := by
  cases proper; assumption

mutual
theorem proper_of_mem {schema : Resolved} (sound : schema.Sound) :
    ∀ x : SchemaNode, x ∈ nodesOfAll (treesOf schema) → Proper schema x
  | ⟨_, children, _⟩, inTrees =>
    .intro (statement_known sound inTrees) (schemaNode_eq sound inTrees)
      (fun _ isChild => treesOf_children_tree sound inTrees isChild)
      (proper_of_mem_all sound children fun _ isChild =>
        SchemaNode.mem_nodesOfAll_child inTrees isChild)

theorem proper_of_mem_all {schema : Resolved} (sound : schema.Sound) :
    ∀ l : List SchemaNode, (∀ x ∈ l, x ∈ nodesOfAll (treesOf schema)) → ∀ x ∈ l, Proper schema x
  | [], _, _, member => by simp at member
  | x :: rest, inTrees, y, member => by
    rcases List.mem_cons.1 member with same | member
    · rw [same]
      exact proper_of_mem sound x (inTrees x List.mem_cons_self)
    · exact proper_of_mem_all sound rest (fun z inRest => inTrees z (List.mem_cons_of_mem _ inRest)) y member
end

theorem proper_of_module {schema : Resolved} (sound : schema.Sound) {m : String × SchemaNode}
    (isModule : m ∈ schema.modules) : Proper schema m.2 :=
  proper_of_mem sound _ (mem_nodesOfAll_of_mem (List.mem_append_left _ (List.mem_map_of_mem isModule)))

section

variable {schema : Resolved} (sound : schema.Sound) {s : Statement} (known : s ∈ schema.all)
include sound known

/-- Every statement has a proper node. -/
theorem proper_schemaNode : Proper schema (schemaNode schema s) := by
  rcases schemaNode_cases sound known with ⟨inTrees, -⟩ | alone
  · exact proper_of_mem sound _ inTrees
  · rw [alone]
    exact .intro known alone (by simp) (by simp)

/-- Statements with other keywords do not stand in the trees. -/
theorem schemaNode_of_outside (notTree : ¬ isTreeKeyword s.keyword) (notModule : s.keyword ≠ "module")
    (notGrouping : s.keyword ≠ "grouping") : schemaNode schema s = ⟨s, [], none⟩ := by
  rcases schemaNode_cases sound known with ⟨inTrees, same⟩ | alone
  · have stands : s ∈ placedAll (treesOf schema) := by
      rw [← SchemaNode.nodesOfAll_statements, ← same]
      exact List.mem_map_of_mem inTrees
    rw [(SchemaNode.placedAll_perm _).mem_iff, List.mem_append, treesOf, List.map_append,
      List.mem_append, List.flatMap_append, List.flatMap_map, SchemaNode.placedAll_append] at stands
    rcases stands with (isModule | isGrouping) | below
    · simp only [List.map_map, List.mem_map] at isModule
      obtain ⟨m, member, rfl⟩ := isModule
      exact absurd (sound.modules m member).2.1 notModule
    · rw [sound.groupings] at isGrouping
      exact absurd (mem_groupingsOfForest.1 isGrouping).2 notGrouping
    · exact absurd (sound.tree s below) notTree
  · exact alone

/-- So such a statement's node is the statement alone. -/
theorem proper_enum (keyword : s.keyword = "enum") : Proper schema ⟨s, [], none⟩ :=
  schemaNode_of_outside sound known (by rw [keyword]; decide) (by rw [keyword]; decide) (by rw [keyword]; decide) ▸
    proper_schemaNode sound known

end

/-! ## Definitions -/

theorem isShared_iff {keyword : String} : isShared keyword = true ↔ keyword = "grouping" ∨ keyword = "typedef" := by
  simp [isShared]

theorem not_isTreeKeyword_of_isShared {keyword : String} (shared : isShared keyword) : ¬ isTreeKeyword keyword := by
  rcases isShared_iff.1 shared with rfl | rfl <;> decide

theorem not_isShared_of_isTreeKeyword {keyword : String} (tree : isTreeKeyword keyword) :
    isShared keyword = false := by
  cases shared : isShared keyword with
  | false => rfl
  | true => exact absurd tree (not_isTreeKeyword_of_isShared shared)

theorem definitions_statements_of {schema : Resolved} (sound : schema.Sound)
    (listing : List Statement.Placed) (known : ∀ p ∈ listing, p.statement ∈ schema.all) :
    (listing.filterMap fun s =>
      if isShared s.statement.keyword then
        some (Definition.mk ((s.around.map (·.name)).getD "") (schemaNode schema s.statement))
      else none).map (·.node.statement) =
      (listing.map (·.statement)).filter fun s => isShared s.keyword := by
  induction listing with
  | nil => rfl
  | cons p rest ih =>
    have others := ih fun q member => known q (List.mem_cons_of_mem _ member)
    have here := schemaNode_statement sound (known p List.mem_cons_self)
    rw [List.filterMap_cons, List.map_cons, List.filter_cons]
    cases isShared p.statement.keyword with
    | false => simpa using others
    | true => simpa [here] using others

theorem listing_known {schema : Resolved} :
    ∀ p ∈ Statement.listingOfAll none none schema.forest, p.statement ∈ schema.all := by
  intro p member
  refine List.mem_append_left _ ?_
  rw [← Statement.listingOfAll_statements none none schema.forest]
  exact List.mem_map_of_mem member

theorem definitionsOf_statements {schema : Resolved} (sound : schema.Sound) :
    (definitionsOf schema).map (·.node.statement) = (withinAll schema.forest).filter fun s => isShared s.keyword := by
  rw [← Statement.listingOfAll_statements none none schema.forest]
  exact definitions_statements_of sound _ listing_known

/-- A workshop in which a module is built. -/
structure Workshop.Sound (shop : Workshop) : Prop where
  schema : shop.schema.Sound
  definitions : shop.definitions = definitionsOf shop.schema

namespace Workshop.Sound

variable {shop : Workshop}

section

variable (sound : shop.Sound)
include sound

theorem statements :
    shop.definitions.map (·.node.statement) = (withinAll shop.schema.forest).filter fun s => isShared s.keyword := by
  rw [sound.definitions, definitionsOf_statements sound.schema]

theorem mem_definitions {d : Definition} (member : d ∈ shop.definitions) :
    d.node.statement ∈ shop.schema.all ∧ isShared d.node.keyword ∧ Proper shop.schema d.node := by
  have listed : d.node.statement ∈ shop.definitions.map (·.node.statement) := List.mem_map_of_mem member
  rw [sound.statements, List.mem_filter] at listed
  refine ⟨List.mem_append_left _ listed.1, listed.2, ?_⟩
  rw [sound.definitions] at member
  obtain ⟨p, inListing, isDefinition⟩ := List.mem_filterMap.1 member
  split at isDefinition
  · cases isDefinition
    exact proper_schemaNode sound.schema (listing_known p inListing)
  · simp at isDefinition

theorem definitions_nodup : (shop.definitions.map (·.node.id)).Nodup := by
  have ids : shop.definitions.map (·.node.id) = (shop.definitions.map (·.node.statement)).map (·.id) := by
    rw [List.map_map]
    rfl
  rw [ids, sound.statements]
  exact (List.filter_sublist.map _).nodup sound.schema.forest.nodup

theorem definition?_eq_some {id : Nat} {d : Definition} :
    shop.definition? id = some d ↔ d ∈ shop.definitions ∧ d.node.id = id := by
  constructor
  · intro found
    exact ⟨List.mem_of_find?_eq_some found, by simpa using List.find?_some found⟩
  · rintro ⟨member, rfl⟩
    exact find?_key_eq sound.definitions_nodup member

/-- A link leads to a definition of the right keyword. -/
theorem keyword_of_link {s : Statement} (known : s ∈ shop.schema.all) {d : Definition}
    (found : shop.definition? s.id = some d) : d ∈ shop.definitions ∧ d.node.keyword = s.keyword := by
  obtain ⟨member, atId⟩ := sound.definition?_eq_some.1 found
  have same := sound.schema.eq_of_id_eq (sound.mem_definitions member).1 known atId
  exact ⟨member, congrArg Statement.keyword same⟩

theorem grouping_of_uses {uses : Statement} (known : uses ∈ shop.schema.all) {d : Definition}
    (linked : uses.grouping.bind shop.definition? = some d) :
    d ∈ shop.definitions ∧ d.node.keyword = "grouping" := by
  obtain ⟨id, link, found⟩ := Option.bind_eq_some_iff.1 linked
  have refers := sound.schema.refers uses known
  obtain ⟨s, inForest, keyword, same⟩ := refers.uses (refers.grouping id link)
  cases same.symm.trans link
  exact keyword ▸ sound.keyword_of_link (List.mem_append_left _ inForest) found

theorem typedef_of_type {type : Statement} (known : type ∈ shop.schema.all) {d : Definition}
    (linked : type.typedef.bind shop.definition? = some d) :
    d ∈ shop.definitions ∧ d.node.keyword = "typedef" := by
  obtain ⟨id, link, found⟩ := Option.bind_eq_some_iff.1 linked
  obtain ⟨-, s, inForest, keyword, rfl⟩ := (sound.schema.refers type known).typedef id link
  exact keyword ▸ sound.keyword_of_link (List.mem_append_left _ inForest) found

end

end Workshop.Sound

end YangStubs.Model
