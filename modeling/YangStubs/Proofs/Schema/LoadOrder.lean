import YangStubs.Proofs.Schema.Exchange

/-! # Modules may be added in any order

Two orders of the same texts lead to the same schema: the statements, their links, the schema trees and the targets of
leafrefs are those of the other order, with other numbers.  Only the modules themselves, and what augments brought,
come in another order.  Leafrefs go by the first data node of a name, so this needs that no two data nodes below a
statement share their name.
-/

namespace YangStubs.Schema

open SchemaNode (nodesOfAll Reordered)

/-! ## Paths in reordered trees -/

/-- No two data nodes that stand below a node of the trees, choices and cases looked through, have the same name. -/
def DataNamesDistinct (l : List SchemaNode) : Prop :=
  ∀ node ∈ nodesOfAll l, ((SchemaNode.dataNodesOfAll node.children).map (·.name)).Nodup

/-- Matching positions, the first of them in trees where data paths are unambiguous. -/
def SamePlace (τ : Nat → Nat) (p p' : Position) : Prop :=
  p.Reordered (Restamped τ) p' ∧ ∃ l, p.Stands l ∧ DataNamesDistinct l

theorem rel_and_left {α β : Type} {r : α → β → Prop} {q : α → Prop} {x : Option α} {y : Option β}
    (related : Option.Rel r x y) (holds : ∀ a, x = some a → q a) : Option.Rel (fun a b => r a b ∧ q a) x y := by
  cases related with
  | none => exact .none
  | some here => exact .some ⟨here, holds _ rfl⟩

theorem tracks_reordered {τ : Nat → Nat} {trees trees' : SchemaTrees} (alike : trees.Reordered (Restamped τ) trees')
    (distinct : DataNamesDistinct (trees.map (·.2))) : Tracks τ trees trees' (SamePlace τ) where
  id same := by
    have here := congrArg (fun p => p.1.id) same.1.node.here
    rwa [Statement.renumber_id] at here
  keyword same := (restamped_faithful τ).keyword same.1.node.here
  home same := by
    have here := congrArg (fun p => p.1.home) same.1.node.here
    rwa [Statement.renumber_home] at here
  up := by
    rintro p p' ⟨same, l, inside, distinct⟩
    apply rel_and_left (same.up? (restamped_faithful τ))
    exact fun q up => ⟨l, (inside.up? up).1, distinct⟩
  down := by
    rintro p p' ⟨same, l, inside, distinct⟩ name
    apply rel_and_left (same.down? (restamped_faithful τ) (distinct _ inside.node_mem) name)
    exact fun q down => ⟨l, (inside.down? down).1, distinct⟩
  roots name := by
    have here := alike name
    have isTree : ∀ tree, trees.lookup name = some tree → tree ∈ trees.map (·.2) :=
      fun tree found => List.mem_map_of_mem (mem_of_lookup_eq_some found)
    generalize trees.lookup name = tree at here isTree ⊢
    generalize trees'.lookup name = tree' at here ⊢
    cases here with
    | none => exact .none
    | some sameTree => exact .some ⟨⟨sameTree, .nil⟩, _, .root (isTree _ rfl), distinct⟩

theorem exists_positions_of_perm {R : Statement × Option Nat → Statement × Option Nat → Prop}
    {l m l' : List SchemaNode} (each : List.Forall₂ (Reordered R) l m) (order : m.Perm l') :
    ∃ k, List.Forall₂ (Position.Reordered R) (positionsOfAll [] l) k ∧ k.Perm (positionsOfAll [] l') := by
  obtain ⟨k, related, together⟩ := (Reordered.all_of_forall₂ each).exists_positions .nil
  refine ⟨k, related, together.trans ?_⟩
  rw [positionsOfAll_eq_flatMap, positionsOfAll_eq_flatMap]
  exact order.flatMap_right _

/-- A leaf stands at the same place in reordered trees, wherever it stands, if it does at all. -/
theorem leafPosition_reordered {τ : Nat → Nat} {trees trees' : SchemaTrees} {groupings groupings' m : List SchemaNode}
    (each : List.Forall₂ (Reordered (Restamped τ)) (trees.map (·.2) ++ groupings) m)
    (order : m.Perm (trees'.map (·.2) ++ groupings'))
    (nodup : ((nodesOfAll (trees'.map (·.2) ++ groupings')).map (·.id)).Nodup)
    (distinct : DataNamesDistinct (trees.map (·.2) ++ groupings)) {leaf : Statement}
    (own : ∀ node ∈ nodesOfAll (trees.map (·.2) ++ groupings), τ node.id = τ leaf.id → node.id = leaf.id) :
    SamePlace τ (leafPosition trees groupings leaf) (leafPosition trees' groupings' (leaf.renumber τ)) := by
  obtain ⟨k, related, together⟩ := exists_positions_of_perm each order
  have sameId : ∀ {p p' : Position}, p.Reordered (Restamped τ) p' → p'.node.id = τ p.node.id := by
    intro p p' same
    have here := congrArg (fun p => p.1.id) same.node.here
    rwa [Statement.renumber_id] at here
  have forth : ∀ p ∈ positionsOfAll [] (trees.map (·.2) ++ groupings),
      ∃ p' ∈ positionsOfAll [] (trees'.map (·.2) ++ groupings'), p.Reordered (Restamped τ) p' := by
    intro p listed
    obtain ⟨p', listed', same⟩ := exists_right_of_forall₂ related listed
    exact ⟨p', together.mem_iff.1 listed', same⟩
  have back : ∀ node' ∈ nodesOfAll (trees'.map (·.2) ++ groupings'), node'.id = τ leaf.id →
      ∃ node ∈ nodesOfAll (trees.map (·.2) ++ groupings), node.id = leaf.id := by
    intro node' inside number
    rw [← positionsOfAll_nodes [] (trees'.map (·.2) ++ groupings')] at inside
    obtain ⟨p', listed', rfl⟩ := List.mem_map.1 inside
    obtain ⟨p, listed, same⟩ := exists_left_of_forall₂ related (together.mem_iff.2 listed')
    have isNode : p.node ∈ nodesOfAll (trees.map (·.2) ++ groupings) := by
      rw [← positionsOfAll_nodes [] (trees.map (·.2) ++ groupings)]
      exact List.mem_map_of_mem listed
    exact ⟨p.node, isNode, own p.node isNode ((sameId same).symm.trans number)⟩
  refine leafPosition_rel (rel_and_left (locateIn?_rel sameId nodup forth back) fun p located => ?_) ?_
  · exact ⟨_, locateIn?_stands located, distinct⟩
  · -- A leaf that stands nowhere has nothing below it.
    refine ⟨⟨.intro rfl .nil, .nil⟩, [⟨leaf, [], none⟩], .root List.mem_cons_self, fun node member => ?_⟩
    simp only [SchemaNode.nodesOfAll, SchemaNode.nodes, List.append_nil, List.mem_singleton] at member
    rw [member]
    exact List.nodup_nil

/-! ## The same schema -/

/-- The second schema is the first one with other numbers; its modules, and what augments brought, may come in another
    order. -/
structure Resolved.SameUpToOrder (τ : Nat → Nat) (schema schema' : Resolved) : Prop where
  injective : ∀ s ∈ schema.all, ∀ t ∈ schema.all, τ s.id = τ t.id → s.id = t.id
  forest : (schema.forest.map (Statement.renumber τ)).Perm schema'.forest
  made : (schema.made.map (Made.renumber τ)).Perm schema'.made
  modules : ∃ m, List.Forall₂ (fun t t' => t'.1 = t.1 ∧ t.2.Reordered (Restamped τ) t'.2) schema.modules m ∧
    m.Perm schema'.modules
  groupings : (schema.groupings.map (SchemaNode.renumber τ)).Perm schema'.groupings
  augments : (schema.augments.map (SchemaNode.renumber τ)).Perm schema'.augments
  targets : ∀ s ∈ schema.all, ∀ j, (τ s.id, j) ∈ schema'.targets ↔ ∃ k, (s.id, k) ∈ schema.targets ∧ j = τ k

theorem all_perm {τ : Nat → Nat} {schema schema' : Resolved}
    (forest : (schema.forest.map (Statement.renumber τ)).Perm schema'.forest)
    (made : (schema.made.map (Made.renumber τ)).Perm schema'.made) :
    (schema.all.map (Statement.renumber τ)).Perm schema'.all := by
  rw [Resolved.all, List.map_append, ← Statement.withinAll_map_renumber, ← madeStatements_renumber]
  refine List.Perm.append ?_ ?_
  · rw [withinAll_eq_flatMap, withinAll_eq_flatMap]
    exact forest.flatMap_right _
  · rw [madeStatements, madeStatements, withinAll_eq_flatMap, withinAll_eq_flatMap]
    exact (made.map _).flatMap_right _

namespace Library.Permutes

variable {library library' : Library} {kept : List Statement} (permutes : library.Permutes library' kept)
  {forest forest' : List Statement} {way : library.ExpandsTo forest} {way' : library'.ExpandsTo forest'}
  {ρ : Nat → Nat} (matched : way.Matches way' kept ρ) {final final' : SchemaTrees} {h h' : Growth}
  (done : way.augmented = (.ok final, h)) (done' : way'.augmented = (.ok final', h'))
include permutes matched done done'

theorem sameUpToOrder (alike : final.Reordered (Matches ρ way.grown.next way'.grown.next) final')
    (distinct : DataNamesDistinct (final.map (·.2) ++ way.expansion.groupings)) :
    ∃ τ, (way.schemaOf final h).SameUpToOrder τ (way'.schemaOf final' h') := by
  obtain ⟨τ, m, agree, order, each, since⟩ := permutes.exists_restamped matched done done' alike
  obtain ⟨links⟩ := Library.link_ok (way.link_ok_iff.2 ⟨_, _, done, rfl⟩)
  obtain ⟨links'⟩ := Library.link_ok (way'.link_ok_iff.2 ⟨_, _, done', rfl⟩)
  have sound := links.sound permutes.sound
  have sound' := links'.sound permutes.sound'
  have made := permutes.made_augmented matched done done' agree order each since
  have read : forest.map (Statement.renumber τ) = forest.map (Statement.renumber ρ) := by
    have earlier : ∀ i < library.next, τ i = ρ i := fun i before => agree i (Nat.lt_of_lt_of_le before way.next_le)
    refine List.map_congr_left fun s member => Statement.renumber_congr earlier s fun t inside => ?_
    exact way.below_forest permutes.sound t (Statement.mem_withinAll.2 ⟨s, member, inside⟩)
  have sameForest : (forest.map (Statement.renumber τ)).Perm forest' := by
    rw [read]
    exact permutes.forest_perm matched
  have sameGroupings : (way.expansion.groupings.map (SchemaNode.renumber τ)).Perm way'.expansion.groupings := by
    rw [SchemaNode.map_renumber_congr agree (way.below_groupings permutes.sound)]
    exact permutes.groupings_perm matched
  have sameAugments : (way.expansion.augments.map (SchemaNode.renumber τ)).Perm way'.expansion.augments := by
    rw [SchemaNode.map_renumber_congr agree (way.below_augments permutes.sound)]
    exact permutes.augments_perm matched
  have injective : ∀ s ∈ (way.schemaOf final h).all, ∀ t ∈ (way.schemaOf final h).all,
      τ s.id = τ t.id → s.id = t.id := by
    have order : ((way.schemaOf final h).all.map (Statement.renumber τ)).Perm (way'.schemaOf final' h').all :=
      all_perm sameForest made
    have nodup := (order.map (·.id)).nodup_iff.2 sound'.nodup
    rw [List.map_map] at nodup
    intro s isS t isT same
    refine congrArg Statement.id (List.inj_on_of_nodup_map nodup isS isT ?_)
    simpa using same
  refine ⟨τ, injective, sameForest, made, ⟨m, each, order⟩, sameGroupings, sameAugments, ?_⟩
  have listed : ∀ p ∈ statementsOf forest h.made, p.renumber τ ∈ statementsOf forest' h'.made := by
    intro p member
    apply statementsOf_subset sameForest.subset made.subset
    rw [statementsOf_renumber]
    exact List.mem_map_of_mem member
  have nodup' : ((statementsOf forest' h'.made).map (·.statement.id)).Nodup := by
    have ids := sound'.nodup
    rw [← Resolved.statements_eq_all, List.map_map] at ids
    exact ids
  -- The trees of modules and groupings are matched one by one, then looked at together.
  have allTrees : List.Forall₂ (Reordered (Restamped τ)) (final.map (·.2) ++ way.expansion.groupings)
      (m.map (·.2) ++ way.expansion.groupings.map (SchemaNode.renumber τ)) := by
    apply List.rel_append
    · rw [List.forall₂_map_left_iff, List.forall₂_map_right_iff]
      exact each.imp fun t t' same => same.2
    · exact SchemaNode.forall₂_reordered_renumber _ fun p _ => rfl
  have tracks : Tracks τ final final' (SamePlace τ) := by
    apply tracks_reordered
    · intro name
      have sameNames : m.map (·.1) = final.map (·.1) := map_eq_of_forall₂ (fun same => same.1) each
      have nodup : (final.map (·.1)).Nodup := sound.names
      rw [← lookup_perm order (sameNames ▸ nodup)]
      exact SchemaTrees.reordered_of_forall₂ each name
    · intro node inside
      obtain ⟨tree, isTree, inTree⟩ := SchemaNode.mem_nodesOfAll.1 inside
      exact distinct node (SchemaNode.mem_nodesOfAll.2 ⟨tree, List.mem_append_left _ isTree, inTree⟩)
  intro s member j
  rw [← Resolved.statements_eq_all] at member
  obtain ⟨p, inListing, rfl⟩ := List.mem_map.1 member
  simp only [ExpandsTo.schemaOf, linkLeafrefs_eq_filterMap]
  refine mem_filterMap_linkAt?_iff listed nodup' (fun q inListing => ?_) inListing j
  refine tracks.linkAt? matched.renumbers.moduleFor? fun leaf around => ?_
  refine leafPosition_reordered allTrees ((order.map _).append sameGroupings) sound'.nodes_nodup distinct ?_
  intro node inside same
  exact injective _ (sound.node_known inside) _ (Resolved.mem_all_of_around inListing around) same

end Library.Permutes

/-- In the trees of the modules and groupings, no node has two children of one name, nor two data nodes of one name
    below it once choices and cases are looked through. -/
def Resolved.Unambiguous (schema : Resolved) : Prop :=
  ∀ node ∈ nodesOfAll (schema.modules.map (·.2) ++ schema.groupings),
    (node.children.map (·.name)).Nodup ∧ ((SchemaNode.dataNodesOfAll node.children).map (·.name)).Nodup

/-- If texts can be resolved in one order, without sources, and the schema is unambiguous, then they can be resolved in
    every other order, and the schemas are the same up to numbers and order. -/
theorem resolveTexts_orderIndependent {texts texts' : List String} (order : texts.Perm texts') (files files' : FileTree)
    {schema : Resolved} (resolved : (resolveTexts texts [] files).result = .ok schema)
    (unambiguous : schema.Unambiguous) :
    ∃ schema' τ, (resolveTexts texts' [] files').result = .ok schema' ∧ schema.SameUpToOrder τ schema' := by
  obtain ⟨⟨id, added⟩, closed, linked⟩ := resolveTexts_ok_iff.1 resolved
  obtain ⟨added', kept, permutes⟩ := exists_permutes order added
  obtain ⟨links⟩ := Library.link_ok linked
  have forestLinks := Library.linked_iff.1 ⟨_, links.linked⟩
  clear links
  generalize schema.forest = forest at forestLinks
  obtain ⟨way⟩ := Library.exists_expandsTo forestLinks
  obtain ⟨forest', forestLinks'⟩ := permutes.exists_linked forestLinks
  obtain ⟨way'⟩ := Library.exists_expandsTo forestLinks'
  obtain ⟨final, h, done, rfl⟩ := way.link_ok_iff.1 linked
  obtain ⟨ρ, matched, -⟩ := permutes.exists_matches way way' 0
  have distinct : final.NamesDistinct := by
    intro name tree found node inside
    refine (unambiguous node (SchemaNode.mem_nodesOfAll.2 ⟨tree, List.mem_append_left _ ?_, inside⟩)).1
    exact List.mem_map_of_mem (mem_of_lookup_eq_some found)
  obtain ⟨final', h', done', alike⟩ := permutes.exists_augmented matched done distinct
  obtain ⟨τ, same⟩ := permutes.sameUpToOrder matched done done' alike fun node inside => (unambiguous node inside).2
  refine ⟨way'.schemaOf final' h', τ, ?_, same⟩
  exact resolveTexts_ok_iff.2 ⟨added', permutes.closed closed, way'.link_ok_iff.2 ⟨_, _, done', rfl⟩⟩

def plantedContainer : String :=
  "<module name='a' xmlns='urn:ietf:params:xml:ns:yang:yin:1'><prefix value='a'/>" ++
  "<container name='c'><choice name='h'/></container></module>"

def plantingLeaf : String :=
  "<module name='b' xmlns='urn:ietf:params:xml:ns:yang:yin:1'><prefix value='b'/>" ++
  "<import module='a'><prefix value='a'/></import>" ++
  "<augment target-node='/a:c'><leaf name='x'><type name='string'/></leaf></augment></module>"

def plantingLeafref : String :=
  "<module name='d' xmlns='urn:ietf:params:xml:ns:yang:yin:1'><prefix value='d'/>" ++
  "<import module='a'><prefix value='a'/></import>" ++
  "<augment target-node='/a:c/h'><leaf name='y'><type name='leafref'><path value='../x'/></type></leaf></augment>" ++
  "</module>"

/-- Two modules augment a third one, with a leaf and with a leafref to it. -/
theorem resolveTexts_orderIndependent_plantedContainer :
    ∃ schema, (resolveTexts [plantedContainer, plantingLeaf, plantingLeafref] [] ⟨[]⟩).result = .ok schema ∧
      schema.Unambiguous ∧ schema.targets = [(18, 10)] ∧
      ∃ schema' τ, (resolveTexts [plantingLeafref, plantingLeaf, plantedContainer] [] ⟨[]⟩).result = .ok schema' ∧
        schema.SameUpToOrder τ schema' := by
  have outcome : (resolveTexts [plantedContainer, plantingLeaf, plantingLeafref] [] ⟨[]⟩).result.toOption.any
      (fun schema => schema.targets == [(18, 10)] &&
        (nodesOfAll (schema.modules.map (·.2) ++ schema.groupings)).all fun node =>
          decide ((node.children.map (·.name)).Nodup ∧
            ((SchemaNode.dataNodesOfAll node.children).map (·.name)).Nodup)) = true := by
    decide +kernel
  obtain ⟨schema, resolved, outcome⟩ := exists_ok outcome
  simp only [Bool.and_eq_true, beq_iff_eq] at outcome
  obtain ⟨targets, names⟩ := outcome
  have unambiguous : schema.Unambiguous := fun node inside =>
    of_decide_eq_true (List.all_eq_true.1 names node inside)
  refine ⟨schema, resolved, unambiguous, targets, ?_⟩
  apply resolveTexts_orderIndependent _ ⟨[]⟩ ⟨[]⟩ resolved unambiguous
  exact (List.reverse_perm [plantedContainer, plantingLeaf, plantingLeafref]).symm

end YangStubs.Schema
