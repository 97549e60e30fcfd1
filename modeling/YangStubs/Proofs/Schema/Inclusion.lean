import YangStubs.Proofs.Schema.Clearing
import YangStubs.Proofs.Schema.Matching

/-! # Schemas with leftovers

Resolving a library with leftovers makes of its modules what it makes of them without: the same trees, with other
numbers.  Leftovers only add to the statements, the groupings and the augments.
-/

namespace YangStubs.Schema

open SchemaNode (nodesOfAll)
open Statement (within withinAll)

/-! ## Linking with leftovers -/

section Traversal

variable {ε α β : Type} {f : α → Except ε β} {p : α → Bool} {l : List α}

theorem mapM_filter_eq_ok {q : β → Bool} (same : ∀ a b, f a = .ok b → q b = p a) {k : List β}
    (done : l.mapM f = .ok k) : (l.filter p).mapM f = .ok (k.filter q) := by
  rw [mapM_eq_ok] at done ⊢
  induction done with
  | nil => exact .nil
  | @cons a b _ _ here _ ih =>
    rw [List.filter_cons, List.filter_cons, same a b here]
    cases p a with
    | false => exact ih
    | true => exact .cons here ih

theorem mapM_eq_error_of_filter (others : ∀ a ∈ l, p a = false → ∃ b, f a = .ok b) {e : ε}
    (failed : (l.filter p).mapM f = .error e) : l.mapM f = .error e := by
  induction l with
  | nil => exact failed
  | cons a rest ih =>
    have fromRest := ih fun b member => others b (List.mem_cons_of_mem a member)
    rw [List.mapM_cons]
    cases isKept : p a with
    | false =>
      obtain ⟨b, here⟩ := others a List.mem_cons_self isKept
      rw [List.filter_cons, isKept] at failed
      rw [here, fromRest failed]
      rfl
    | true =>
      rw [List.filter_cons, isKept, if_pos rfl, List.mapM_cons] at failed
      cases here : f a with
      | error e' =>
        rw [here] at failed
        exact failed
      | ok b =>
        rw [here] at failed
        cases later : (rest.filter p).mapM f with
        | error e' =>
          rw [later] at failed
          cases failed
          rw [fromRest later]
          rfl
        | ok k =>
          rw [later] at failed
          cases failed

end Traversal

namespace Library.Clears

variable {library library' : Library} (clears : library.Clears library')
include clears

theorem embeds : library.Embeds library' library'.loadedTrees :=
  ⟨clears.sound, clears.sound', clears.texts, clears.modules, .of_eq clears.modules', List.filter_subset_self _⟩

section Matched

variable {forest forest' : List Statement} {way : library.ExpandsTo forest} {way' : library'.ExpandsTo forest'}
  {ρ : Nat → Nat} (matched : way.Matches way' library'.loadedTrees ρ)
include matched

theorem filter_forest : forest'.filter library'.isLoaded = forest.map (Statement.renumber ρ) := by
  have linked := Library.linked_iff.1 ⟨_, way.linked⟩
  have kept := clears.embeds.mapM_kept matched.read
  rw [linked] at kept
  have sameId : ∀ s s', linkTree library'.directory s = .ok s' → library'.isLoaded s' = library'.isLoaded s := by
    intro s s' isLinked
    rw [isLoaded, isLoaded, linkTree_id isLinked]
  have filtered := mapM_filter_eq_ok sameId (Library.linked_iff.1 ⟨_, way'.linked⟩)
  exact Except.ok.inj (filtered.symm.trans kept)

theorem tops_eq : topsOf forest' (library'.modules.map (·.2)) = forest.map (Statement.renumber ρ) := by
  have ids : library'.modules.map (·.2) = (forest.map (Statement.renumber ρ)).map (·.id) := by
    rw [clears.modules', matched.read]
    have same := congrArg (List.map fun s : Statement => ρ s.id) way.same
    simpa only [List.map_map, Function.comp_def, Statement.bare_id, Statement.renumber_id] using same.symm
  rw [ids]
  refine topsOf_ids (way'.numbered clears.sound') ?_
  rw [← clears.filter_forest matched]
  exact List.filter_subset_self _

theorem trees_eq : way'.trees = way.trees.renumber ρ := by
  obtain ⟨yield, yield', mirrors⟩ := matched.yields
  have names : library'.modules.map (·.1) = library.modules.map (·.1) := clears.names_eq
  have modules : way'.expansion.modules = way.expansion.modules.map (SchemaNode.renumber ρ) := by
    have atTops := yield'.modules_eq.trans (congrArg (List.map yield'.module) (clears.tops_eq matched))
    rw [atTops, yield.modules_eq, List.map_map, List.map_map]
    exact List.map_congr_left mirrors.module
  rw [ExpandsTo.trees, ExpandsTo.trees, names, modules, SchemaTrees.renumber, List.zip_map_right]
  rfl

end Matched

end Library.Clears

/-! ## Including a schema -/

/-- The second schema holds the first one, with other numbers; its modules are those of the first. -/
structure Resolved.Includes (ρ : Nat → Nat) (schema schema' : Resolved) : Prop where
  injective : Function.Injective ρ
  modules : schema'.modules = schema.modules.renumber ρ
  forest : (schema.forest.map (Statement.renumber ρ)).Sublist schema'.forest
  made : (schema.made.map (Made.renumber ρ)).Sublist schema'.made
  groupings : (schema.groupings.map (SchemaNode.renumber ρ)).Sublist schema'.groupings
  augments : (schema.augments.map (SchemaNode.renumber ρ)).Sublist schema'.augments
  targets : ∀ s ∈ schema.all, ∀ j, (ρ s.id, j) ∈ schema'.targets ↔ ∃ k, (s.id, k) ∈ schema.targets ∧ j = ρ k

theorem filter_flatMap_sublist {α : Type} (p : Statement → Bool) (l : List Statement) (A : Statement → List α) :
    ((l.filter p).flatMap A).Sublist (l.flatMap A) := by
  induction l with
  | nil => exact .slnil
  | cons s rest ih =>
    rw [List.filter_cons, List.flatMap_cons]
    split
    · exact (List.Sublist.refl (A s)).append ih
    · exact ih.trans (List.sublist_append_right (A s) _)

theorem Padded.append_idle {P : SchemaNode → Prop} {l l' new : List SchemaNode} (idle : ∀ a ∈ new, P a)
    (rest : Padded P l l') : Padded P l (new ++ l') := by
  induction new with
  | nil => exact rest
  | cons a others ih =>
    exact .idle (idle a List.mem_cons_self) (ih fun b member => idle b (List.mem_cons_of_mem a member))

theorem Padded.append_keep {P : SchemaNode → Prop} {l l' : List SchemaNode} (new : List SchemaNode)
    (rest : Padded P l l') : Padded P (new ++ l) (new ++ l') := by
  induction new with
  | nil => exact rest
  | cons a others ih => exact .keep a ih

theorem padded_filter {P : SchemaNode → Prop} {p : Statement → Bool} {l : List Statement}
    {A : Statement → List SchemaNode} (idle : ∀ s ∈ l, p s = false → ∀ a ∈ A s, P a) :
    Padded P ((l.filter p).flatMap A) (l.flatMap A) := by
  induction l with
  | nil => exact .nil
  | cons s rest ih =>
    have others := ih fun t member => idle t (List.mem_cons_of_mem s member)
    rw [List.filter_cons, List.flatMap_cons]
    cases isKept : p s with
    | false => exact others.append_idle (idle s List.mem_cons_self isKept)
    | true => exact others.append_keep (A s)

theorem madeStatements_flatMap (l : List Statement) (made : Statement → List Made) :
    madeStatements (l.flatMap made) = l.flatMap fun s => madeStatements (made s) := by
  induction l with
  | nil => rfl
  | cons s rest ih => rw [List.flatMap_cons, madeStatements_append, ih, List.flatMap_cons]

/-- A tree's own statements: those read, and those made for its groupings and augments. -/
def ownStatements (made : Statement → List Made) (s : Statement) : List Statement :=
  s.within ++ madeStatements (made s)

theorem perm_ownStatements (forest : List Statement) (made : Statement → List Made) (first last : List Made) :
    (withinAll forest ++ madeStatements (first ++ forest.flatMap made ++ last)).Perm
      (forest.flatMap (ownStatements made) ++ madeStatements (first ++ last)) := by
  have byTree := List.flatMap_append_perm forest within fun s => madeStatements (made s)
  rw [madeStatements_append, madeStatements_append, madeStatements_append, withinAll_eq_flatMap,
    madeStatements_flatMap, ← List.append_assoc, ← List.append_assoc, ← List.append_assoc]
  exact ((perm_append_swap _ _ _).trans (byTree.append_right _)).append_right _

theorem not_mem_of_own {forest : List Statement} {made : Statement → List Made} {first last : List Made}
    (nodup : (withinAll forest ++ madeStatements (first ++ forest.flatMap made ++ last)).Nodup)
    {p : Statement → Bool} {s t : Statement} (member : s ∈ forest) (other : p s = false)
    (own : t ∈ ownStatements made s) :
    t ∉ withinAll (forest.filter p) ++ madeStatements (first ++ (forest.filter p).flatMap made ++ last) := by
  have parted : (forest.flatMap (ownStatements made)).Perm ((forest.filter p).flatMap (ownStatements made) ++
      (forest.filter fun s => !p s).flatMap (ownStatements made)) := by
    rw [← List.flatMap_append]
    exact (List.filter_append_perm p forest).symm.flatMap_right _
  have apart := (((perm_ownStatements forest made first last).trans (parted.append_right _)).trans
    (perm_append_swap _ _ _)).nodup_iff.1 nodup
  intro elsewhere
  rw [(perm_ownStatements _ made first last).mem_iff] at elsewhere
  refine (List.nodup_append.1 apart).2.2 t elsewhere t ?_ rfl
  exact List.mem_flatMap.2 ⟨s, List.mem_filter.2 ⟨member, by simp [other]⟩, own⟩

theorem all_subset {forest forest' : List Statement} {made made' : List Made} (trees : forest ⊆ forest')
    (others : made ⊆ made') : withinAll forest ++ madeStatements made ⊆ withinAll forest' ++ madeStatements made' := by
  have nested : ∀ {l l' : List Statement}, l ⊆ l' → withinAll l ⊆ withinAll l' := by
    intro l l' subset s member
    obtain ⟨t, inList, inside⟩ := Statement.mem_withinAll.1 member
    exact Statement.mem_withinAll.2 ⟨t, subset inList, inside⟩
  exact List.append_subset.2 ⟨List.subset_append_of_subset_left _ (nested trees),
    List.subset_append_of_subset_right _ (nested (List.map_subset _ others))⟩

theorem augmentsOfForest_subset {l l' : List Statement} (nested : l ⊆ l') :
    augmentsOfForest l ⊆ augmentsOfForest l' := by
  intro a member
  obtain ⟨p, listed, rfl⟩ := List.mem_map.1 member
  obtain ⟨inListing, isTop⟩ := List.mem_filter.1 listed
  rw [listingOfAll_eq_flatMap] at inListing
  obtain ⟨s, inList, ofTree⟩ := List.mem_flatMap.1 inListing
  refine List.mem_map_of_mem (List.mem_filter.2 ⟨?_, isTop⟩)
  rw [listingOfAll_eq_flatMap]
  exact List.mem_flatMap.2 ⟨s, nested inList, ofTree⟩

theorem augmentsOfForest_singleton (s : Statement) : augmentsOfForest [s] = topAugments (s.listing none) := by
  rw [augmentsOfForest, listingOfAll_eq_flatMap, List.flatMap_singleton]

namespace Library.Clears

variable {library library' : Library} (clears : library.Clears library') {forest forest' : List Statement}
  {way : library.ExpandsTo forest} {way' : library'.ExpandsTo forest'} {ρ : Nat → Nat}
  (matched : way.Matches way' library'.loadedTrees ρ)
include clears matched

theorem groupings_sublist :
    (way.expansion.groupings.map (SchemaNode.renumber ρ)).Sublist way'.expansion.groupings := by
  obtain ⟨yield, yield', mirrors⟩ := matched.yields
  rw [yield.groupings_eq, yield'.groupings_eq, ← flatMap_renumber mirrors.groupings, ← clears.filter_forest matched]
  exact filter_flatMap_sublist _ _ _

theorem augments_sublist : (way.expansion.augments.map (SchemaNode.renumber ρ)).Sublist way'.expansion.augments := by
  obtain ⟨yield, yield', mirrors⟩ := matched.yields
  rw [yield.augments_eq, yield'.augments_eq, ← flatMap_renumber mirrors.augments, ← clears.filter_forest matched]
  exact filter_flatMap_sublist _ _ _

/-- The augments of leftovers stand between those of the modules. -/
theorem augments_padded {P : SchemaNode → Prop}
    (idle : ∀ a ∈ way'.expansion.augments, a.statement ∈ augmentsOfForest (library'.leftoversIn forest') → P a) :
    Padded P (way.expansion.augments.map (SchemaNode.renumber ρ)) way'.expansion.augments := by
  obtain ⟨yield, yield', mirrors⟩ := matched.yields
  rw [yield.augments_eq, ← flatMap_renumber mirrors.augments, ← clears.filter_forest matched]
  refine yield'.augments_eq ▸ padded_filter fun s member refused a brought => ?_
  refine idle a (yield'.augments_eq ▸ List.mem_flatMap.2 ⟨s, member, brought⟩) ?_
  have leftover : s ∈ library'.leftoversIn forest' := List.mem_filter.2 ⟨member, by simp [refused]⟩
  refine augmentsOfForest_subset (fun t here => List.mem_singleton.1 here ▸ leftover) ?_
  rw [augmentsOfForest_singleton, ← yield'.augments_roots s]
  exact List.mem_map_of_mem brought

variable {modules : SchemaTrees} {final final' : Growth} {fresh : List Made}
  (made : final.made = way.grown.made ++ fresh) (made' : final'.made = way'.grown.made ++ fresh.map (Made.renumber ρ))
include made made'

/-- What both sides have made: the same for the modules, and more on the second side for groupings and augments. -/
theorem made_eq (yield : Yield forest forest ⟨library.next, [], way.log⟩ way.expansion way.grown)
    (yield' : Yield (topsOf forest' (library'.modules.map (·.2))) forest' ⟨library'.next, [], way'.log⟩
      way'.expansion way'.grown) (mirrors : yield.Mirrors ρ yield') :
    final.made.map (Made.renumber ρ) = (forest.map (Statement.renumber ρ)).flatMap yield'.made ++
        (forest'.filter library'.isLoaded).flatMap yield'.made' ++ fresh.map (Made.renumber ρ) ∧
      final'.made = (forest.map (Statement.renumber ρ)).flatMap yield'.made ++ forest'.flatMap yield'.made' ++
        fresh.map (Made.renumber ρ) := by
  have atTops := congrArg (List.flatMap yield'.made) (clears.tops_eq matched)
  constructor
  · rw [made, yield.made_eq, clears.filter_forest matched, flatMap_renumber mirrors.made,
      flatMap_renumber mirrors.made', List.nil_append, List.map_append, List.map_append]
  · rw [made', yield'.made_eq, atTops, List.nil_append]

theorem made_sublist : (final.made.map (Made.renumber ρ)).Sublist final'.made := by
  obtain ⟨yield, yield', mirrors⟩ := matched.yields
  obtain ⟨first, second⟩ := clears.made_eq matched made made' yield yield' mirrors
  rw [first, second]
  exact ((List.Sublist.refl _).append (filter_flatMap_sublist _ _ _)).append (List.Sublist.refl _)

theorem mem_nodes_of_number (sound' : (way'.schemaOf (modules.renumber ρ) final').Sound) {leaf : Statement}
    (known : leaf ∈ (way.schemaOf modules final).all) {node' : SchemaNode}
    (member : node' ∈ nodesOfAll ((modules.renumber ρ).map (·.2) ++ way'.expansion.groupings))
    (number : node'.id = ρ leaf.id) :
    ∃ node ∈ nodesOfAll (modules.map (·.2) ++ way.expansion.groupings), node.id = leaf.id := by
  obtain ⟨yield, yield', mirrors⟩ := matched.yields
  have kept := clears.filter_forest matched
  -- The node belongs to a module, or to a grouping of a module, or to a grouping of a leftover.
  have isImage : ∀ l : List SchemaNode, l ⊆ modules.map (·.2) ++ way.expansion.groupings →
      node' ∈ nodesOfAll (l.map (SchemaNode.renumber ρ)) →
      ∃ node ∈ nodesOfAll (modules.map (·.2) ++ way.expansion.groupings), node.id = leaf.id := by
    intro l nested inside
    rw [nodesOfAll_renumber] at inside
    obtain ⟨node, inNodes, rfl⟩ := List.mem_map.1 inside
    obtain ⟨root, isRoot, below⟩ := SchemaNode.mem_nodesOfAll.1 inNodes
    refine ⟨node, SchemaNode.mem_nodesOfAll.2 ⟨root, nested isRoot, below⟩, matched.injective ?_⟩
    rw [← number, SchemaNode.renumber_id]
  obtain ⟨tree, isTree, inTree⟩ := SchemaNode.mem_nodesOfAll.1 member
  cases List.mem_append.1 isTree with
  | inl ofModule =>
    refine isImage (modules.map (·.2)) (List.subset_append_left _ _) (SchemaNode.mem_nodesOfAll.2 ⟨tree, ?_, inTree⟩)
    simpa [SchemaTrees.renumber] using ofModule
  | inr ofGrouping =>
    rw [yield'.groupings_eq] at ofGrouping
    obtain ⟨s', inForest, brought⟩ := List.mem_flatMap.1 ofGrouping
    cases loaded : library'.isLoaded s' with
    | true =>
      have isKept : s' ∈ forest.map (Statement.renumber ρ) := kept ▸ List.mem_filter.2 ⟨inForest, loaded⟩
      obtain ⟨s, isModule, rfl⟩ := List.mem_map.1 isKept
      rw [mirrors.groupings s isModule] at brought
      refine isImage (yield.groupings s) ?_ (SchemaNode.mem_nodesOfAll.2 ⟨tree, brought, inTree⟩)
      rw [yield.groupings_eq]
      exact fun node isNode => List.mem_append_right _ (List.mem_flatMap.2 ⟨s, isModule, isNode⟩)
    | false =>
      obtain ⟨first, second⟩ := clears.made_eq matched made made' yield yield' mirrors
      have nodup : (way'.schemaOf (modules.renumber ρ) final').all.Nodup := List.Nodup.of_map _ sound'.nodup
      have own : node'.statement ∈ ownStatements yield'.made' s' := by
        refine List.mem_append.2 (yield'.owned s' _ ?_)
        rw [← SchemaNode.nodesOfAll_statements]
        exact List.mem_map_of_mem (SchemaNode.mem_nodesOfAll.2 ⟨tree, brought, inTree⟩)
      have image := List.mem_map_of_mem (f := Statement.renumber ρ) known
      rw [Resolved.all, List.map_append, ← Statement.withinAll_map_renumber, ← madeStatements_renumber] at image
      have inAll : leaf.renumber ρ ∈ (way'.schemaOf (modules.renumber ρ) final').all :=
        all_subset (kept ▸ List.filter_subset_self _) (clears.made_sublist matched made made').subset image
      have sameStatement : node'.statement = leaf.renumber ρ := by
        refine sound'.eq_of_id_eq (sound'.node_known member) inAll ?_
        rw [Statement.renumber_id, ← number]
        rfl
      simp only [ExpandsTo.schemaOf] at image
      rw [first, ← kept] at image
      simp only [Resolved.all, ExpandsTo.schemaOf] at nodup
      rw [second, ← kept] at nodup
      exact absurd (sameStatement ▸ image) (not_mem_of_own nodup inForest loaded own)

theorem includes (done' : way'.augmented = (.ok (modules.renumber ρ), final')) :
    (way.schemaOf modules final).Includes ρ (way'.schemaOf (modules.renumber ρ) final') := by
  have kept := clears.filter_forest matched
  have trees : (forest.map (Statement.renumber ρ)).Sublist forest' := kept ▸ List.filter_sublist
  have others := clears.made_sublist matched made made'
  have groupings := clears.groupings_sublist matched
  refine ⟨matched.injective, rfl, trees, others, groupings, clears.augments_sublist matched, ?_⟩
  obtain ⟨links⟩ := Library.link_ok (way'.link_ok_iff.2 ⟨_, _, done', rfl⟩)
  have sound' := links.sound clears.sound'
  have listed : ∀ p ∈ statementsOf forest final.made, p.renumber ρ ∈ statementsOf forest' final'.made := by
    intro p member
    refine statementsOf_subset trees.subset others.subset ?_
    rw [statementsOf_renumber]
    exact List.mem_map_of_mem member
  have nodup : ((statementsOf forest' final'.made).map (·.statement.id)).Nodup := by
    have ids := sound'.nodup
    rw [← Resolved.statements_eq_all, List.map_map] at ids
    exact ids
  intro s member j
  rw [← Resolved.statements_eq_all] at member
  obtain ⟨p, inListing, rfl⟩ := List.mem_map.1 member
  simp only [ExpandsTo.schemaOf, linkLeafrefs_eq_filterMap]
  refine mem_filterMap_linkAt?_iff listed nodup (fun q inListing => ?_) inListing j
  refine (tracks_renumber ρ modules).linkAt? matched.renumbers.moduleFor? fun leaf around => ?_
  refine leafPosition_renumber groupings.subset sound'.nodes_nodup fun node' member number => ?_
  refine clears.mem_nodes_of_number matched made made' sound' ?_ member number
  exact Resolved.mem_all_of_around inListing around

end Library.Clears

end YangStubs.Schema
