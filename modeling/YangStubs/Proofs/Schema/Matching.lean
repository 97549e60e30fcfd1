import YangStubs.Proofs.Schema.Embedding
import YangStubs.Proofs.Schema.Regrafting
import YangStubs.Proofs.Schema.Tracing

/-! # Two libraries with the same modules, resolved

If a library holds the modules of another one, then whatever the first makes of a module's tree the second makes
of it too, with other numbers: its linked tree, its schema tree, the trees of its groupings and augments, and the
statements that are made for them.
-/

namespace YangStubs.Schema

open SchemaNode (nodesOfAll)
open Statement (within withinAll sizeOfAll Numbered)

variable {forest : List Statement} {library : Library}

/-! ## Linking -/

theorem topsOf_ids {tops : List Statement} (numbered : Numbered 1 forest) (known : tops ⊆ forest) :
    topsOf forest (tops.map (·.id)) = tops := by
  rw [topsOf, List.filterMap_map]
  refine (List.filterMap_congr fun s member => ?_).trans (List.filterMap_some)
  exact numbered.find?_eq (known member)

theorem mapM_map_eq {ε α β α' β' : Type} {f : α → Except ε β} {f' : α' → Except ε β'} {g : α → α'} {h : β → β'}
    (same : ∀ a, f' (g a) = (f a).map h) (l : List α) : (l.map g).mapM f' = (l.mapM f).map (List.map h) := by
  induction l with
  | nil => rfl
  | cons a rest ih =>
    rw [List.map_cons, List.mapM_cons, List.mapM_cons, same, ih]
    cases f a with
    | error e => rfl
    | ok b =>
      cases rest.mapM f with
      | error e => rfl
      | ok k => rfl

theorem flatMap_renumber {α β : Type} {ρ : Nat → Nat} {A : Statement → List α} {A' : Statement → List β}
    {view : α → β} (same : ∀ s ∈ forest, A' (s.renumber ρ) = (A s).map view) :
    (forest.map (Statement.renumber ρ)).flatMap A' = (forest.flatMap A).map view := by
  rw [List.flatMap_map, List.map_flatMap]
  exact List.flatMap_congr same

theorem Library.Embeds.mapM_kept {library' : Library} {kept : List Statement} (embeds : library.Embeds library' kept)
    {ρ : Nat → Nat} (trees : kept = library.forest.map (Statement.renumber ρ)) :
    kept.mapM (linkTree library'.directory) =
      (library.forest.mapM (linkTree library.directory)).map (List.map (Statement.renumber ρ)) := by
  rw [trees]
  exact mapM_map_eq (linkTree_renumber (embeds.renumbers trees)) library.forest

/-! ## From linked trees to the schema -/

theorem Library.exists_expandsTo (linked : library.forest.mapM (linkTree library.directory) = .ok forest) :
    Nonempty (library.ExpandsTo forest) := by
  obtain ⟨log, run⟩ := Library.linked_iff.2 linked
  exact ⟨log, run, _, _, rfl⟩

theorem Library.link_error {e : SchemaError} (linked : library.forest.mapM (linkTree library.directory) = .error e) :
    library.link.result = .error e := by
  rw [← linkAll_eq_mapM library.directory library.forest []] at linked
  unfold Library.link
  simp only
  cases run : (linkAll library.directory [] library.forest).run.run [] with
  | mk result log =>
    rw [run] at linked
    cases linked
    rfl

namespace Library.ExpandsTo

variable {library : Library} {forest : List Statement} (way : library.ExpandsTo forest)

/-- The schema with these trees of the modules. -/
def schemaOf (modules : SchemaTrees) (final : Growth) : Resolved :=
  ⟨forest, final.made, modules, way.expansion.groupings, way.expansion.augments,
    (linkLeafrefs library.directory modules way.expansion.groupings
      ((statementsOf forest final.made).filterMap leafref?)).1⟩

/-- How augmenting ends, from where expanding has ended. -/
def augmented : Except SchemaError SchemaTrees × Growth :=
  (augmentAll library.directory way.trees way.expansion.augments).run way.grown

theorem link_eq : library.link.result = way.augmented.1.map fun modules => way.schemaOf modules way.augmented.2 := by
  unfold Library.link
  simp only [way.linked, way.expanded]
  have run : (augmentAll library.directory ((library.modules.map (·.1)).zip way.expansion.modules)
      way.expansion.augments).run way.grown = way.augmented := rfl
  rw [run]
  cases way.augmented with
  | mk result final => cases result <;> rfl

theorem link_ok_iff {schema : Resolved} : library.link.result = .ok schema ↔
    ∃ modules final, way.augmented = (.ok modules, final) ∧ schema = way.schemaOf modules final := by
  rw [way.link_eq]
  cases way.augmented with
  | mk result final =>
    cases result with
    | error e => simp [Except.map]
    | ok modules => simp [Except.map, eq_comm]

end Library.ExpandsTo

theorem Library.ExpandsTo.ids_eq (way : library.ExpandsTo forest) :
    forest.map (·.id) = library.forest.map (·.id) := by
  have same := congrArg (List.map (·.id)) way.same
  simpa only [List.map_map, Function.comp_def, Statement.bare_id] using same

theorem Library.ExpandsTo.tops_eq (way : library.ExpandsTo forest) (sound : library.Sound)
    (modules : library.modules = library.forest.map fun s => (s.name, s.id)) :
    topsOf forest (library.modules.map (·.2)) = forest := by
  have ids : library.modules.map (·.2) = forest.map (·.id) := by
    rw [modules, List.map_map, way.ids_eq]
    rfl
  rw [ids]
  exact topsOf_ids (way.numbered sound) (List.Subset.refl forest)

/-! ## The two expansions -/

/-- What two libraries make of the trees of the first one is the same, with other numbers. -/
structure Library.ExpandsTo.Matches {library library' : Library} {forest forest' : List Statement}
    (way : library.ExpandsTo forest) (way' : library'.ExpandsTo forest') (kept : List Statement)
    (ρ : Nat → Nat) : Prop where
  injective : Function.Injective ρ
  earlier : ∀ i < library.next, ρ i < library'.next
  later : ∀ i, library.next ≤ i → library'.next ≤ ρ i
  read : kept = library.forest.map (Statement.renumber ρ)
  renumbers : library.directory.Renumbers ρ library'.directory
  trees : ∀ s ∈ forest, s.renumber ρ ∈ forest'
  tops : (topsOf forest' (library'.modules.map (·.2))).Perm (forest.map (Statement.renumber ρ))
  yields : ∃ (yield : Yield forest forest ⟨library.next, [], way.log⟩ way.expansion way.grown)
    (yield' : Yield (topsOf forest' (library'.modules.map (·.2))) forest' ⟨library'.next, [], way'.log⟩
      way'.expansion way'.grown), yield.Mirrors ρ yield'

theorem Library.Embeds.exists_matches {library' : Library} {kept forest' : List Statement}
    (embeds : library.Embeds library' kept) (way : library.ExpandsTo forest) (way' : library'.ExpandsTo forest')
    (tail : Nat) : ∃ ρ, way.Matches way' kept ρ ∧ ∀ k < tail, ρ (way.grown.next + k) = way'.grown.next + k := by
  obtain ⟨ρ₀, places, zero, trees⟩ := embeds.exists_places
  have moved := embeds.transplants places zero (trees ρ₀ fun _ _ => rfl) way way'
  have linkedIds := way.ids_eq
  have tops := way.tops_eq embeds.sound embeds.modules
  have known : forest.map (Statement.renumber ρ₀) ⊆ forest' := by
    intro s' member
    obtain ⟨s, inForest, rfl⟩ := List.mem_map.1 member
    exact moved.trees s inForest
  have tops' : (topsOf forest' (library'.modules.map (·.2))).Perm (forest.map (Statement.renumber ρ₀)) := by
    have ids : (library'.modules.map (·.2)).Perm ((forest.map (Statement.renumber ρ₀)).map (·.id)) := by
      have same := embeds.modules'.map (·.2)
      have images := congrArg (List.map ρ₀) linkedIds
      rw [trees ρ₀ fun _ _ => rfl] at same
      simp only [List.map_map, Function.comp_def, Statement.renumber_id] at same images ⊢
      rwa [images]
    have listed := ids.filterMap fun id => forest'.find? (·.id == id)
    rwa [← topsOf.eq_1, ← topsOf.eq_1, topsOf_ids (way'.numbered embeds.sound') known] at listed
  have nodup : (topsOf forest (library.modules.map (·.2))).Nodup := by
    rw [tops]
    exact (List.Nodup.of_map _ moved.numbered.nodup).sublist (Statement.sublist_withinAll forest)
  have nodup' : (topsOf forest' (library'.modules.map (·.2))).Nodup := by
    refine List.Nodup.of_map (fun s => (s.name, s.id)) ?_
    rw [(topsOf_eq way' embeds.sound' (List.Subset.refl _)).1]
    exact List.Nodup.of_map _ embeds.sound'.names
  have known : ∀ s ∈ topsOf forest (library.modules.map (·.2)),
      s.renumber ρ₀ ∈ topsOf forest' (library'.modules.map (·.2)) := by
    rw [tops]
    exact fun s member => tops'.mem_iff.2 (List.mem_map_of_mem member)
  have start : (⟨library.next, [], way.log⟩ : Growth).next = 1 + sizeOfAll forest := way.next_eq
  have start' : (⟨library'.next, [], way'.log⟩ : Growth).next = 1 + sizeOfAll forest' := way'.next_eq
  obtain ⟨ρ, continues, atEnd, yields⟩ := moved.exists_relocation known nodup nodup' start start' tail
  rw [tops, way.expanded, way'.expanded] at yields
  rw [way.expanded, way'.expanded] at atEnd
  have agree : ∀ i < library.next, ρ i = ρ₀ i := by
    rw [way.next_eq]
    exact continues.before
  have sameTrees : ∀ s ∈ forest, s.renumber ρ = s.renumber ρ₀ := fun s member =>
    moved.renumber_eq continues (Statement.mem_withinAll_of_mem member)
  refine ⟨ρ, ⟨continues.injective, ?_, ?_, trees ρ agree, embeds.renumbers (trees ρ agree), ?_, ?_, yields⟩, atEnd⟩
  · intro i before
    rw [agree i before]
    exact places.below i before
  · intro i since
    rw [way.next_eq] at since
    rw [way'.next_eq]
    exact continues.since i since
  · intro s member
    rw [sameTrees s member]
    exact moved.trees s member
  · rwa [List.map_congr_left sameTrees]

/-! ## Leafrefs -/

theorem tracks_renumber (ρ : Nat → Nat) (trees : SchemaTrees) :
    Tracks ρ trees (trees.renumber ρ) fun p p' => p' = p.renumber ρ where
  id same := by rw [same, Position.renumber, SchemaNode.renumber_id]
  keyword same := by rw [same, Position.renumber, SchemaNode.renumber_keyword]
  home same := by rw [same, Position.renumber, SchemaNode.renumber_statement, Statement.renumber_home]
  up {p p'} same := by
    rw [same, Position.up?_renumber]
    cases p.up? with
    | none => exact .none
    | some q => exact .some rfl
  down {p p'} same name := by
    rw [same, Position.down?_renumber]
    cases p.down? name with
    | none => exact .none
    | some q => exact .some rfl
  roots name := by
    rw [SchemaTrees.lookup_renumber]
    cases trees.lookup name with
    | none => exact .none
    | some tree => exact .some rfl

/-- The link that a statement makes if it is a leafref type. -/
def linkAt? (directory : Directory) (trees : SchemaTrees) (groupings : List SchemaNode) (p : Statement.Placed) :
    Option (Nat × Nat) :=
  (leafref? p).bind (leafrefLink? directory trees groupings)

theorem linkLeafrefs_eq_filterMap (directory : Directory) (trees : SchemaTrees) (groupings : List SchemaNode)
    (listing : List Statement.Placed) :
    (linkLeafrefs directory trees groupings (listing.filterMap leafref?)).1 =
      listing.filterMap (linkAt? directory trees groupings) := by
  rw [linkLeafrefs_eq, List.filterMap_filterMap]
  rfl

theorem leafref?_statement {p : Statement.Placed} {item : Statement × Statement × String}
    (found : leafref? p = some item) : item.1 = p.statement ∧ p.around = some item.2.1 := by
  obtain ⟨_, -, found⟩ := Option.bind_eq_some_iff.1 found
  obtain ⟨leaf, around, found⟩ := Option.bind_eq_some_iff.1 found
  obtain ⟨_, -, found⟩ := Option.bind_eq_some_iff.1 found
  obtain ⟨path, -, found⟩ := Option.bind_eq_some_iff.1 found
  cases found
  exact ⟨rfl, around⟩

theorem linkAt?_number {directory : Directory} {trees : SchemaTrees} {groupings : List SchemaNode}
    {p : Statement.Placed} {link : Nat × Nat} (found : linkAt? directory trees groupings p = some link) :
    link.1 = p.statement.id := by
  obtain ⟨item, isLeafref, isLink⟩ := Option.bind_eq_some_iff.1 found
  obtain ⟨target, -, rfl⟩ := Option.map_eq_some_iff.1 isLink
  rw [(leafref?_statement isLeafref).1]

theorem listingOfAll_eq_flatMap (forest : List Statement) :
    Statement.listingOfAll none none forest = forest.flatMap (·.listing none) := by
  induction forest with
  | nil => rfl
  | cons s rest ih =>
    rw [List.flatMap_cons, ← ih]
    rfl

theorem withinAll_eq_flatMap (l : List Statement) : withinAll l = l.flatMap within := by
  induction l with
  | nil => rfl
  | cons s rest ih => rw [Statement.withinAll_cons, ih, List.flatMap_cons]

theorem madeStatements_renumber (ρ : Nat → Nat) (made : List Made) :
    madeStatements (made.map (Made.renumber ρ)) = (madeStatements made).map (Statement.renumber ρ) := by
  rw [madeStatements, madeStatements, ← Statement.withinAll_map_renumber, List.map_map, List.map_map]
  rfl

theorem statementsOf_renumber (ρ : Nat → Nat) (forest : List Statement) (made : List Made) :
    statementsOf (forest.map (Statement.renumber ρ)) (made.map (Made.renumber ρ)) =
      (statementsOf forest made).map (Statement.Placed.renumber ρ) := by
  have ofMade : ∀ m : Made, (m.renumber ρ).statement.listing (some (m.renumber ρ).parent) =
      (m.statement.listing (some m.parent)).map (Statement.Placed.renumber ρ) :=
    fun m => Statement.listing_renumber ρ (some m.parent) m.statement
  rw [statementsOf, statementsOf, Statement.listingOfAll_map_renumber, List.map_append, List.flatMap_map,
    List.map_flatMap]
  simp only [ofMade]

theorem statementsOf_subset {forest' : List Statement} {made made' : List Made} (trees : forest ⊆ forest')
    (others : made ⊆ made') : statementsOf forest made ⊆ statementsOf forest' made' := by
  rw [statementsOf, statementsOf, listingOfAll_eq_flatMap, listingOfAll_eq_flatMap]
  intro p member
  cases List.mem_append.1 member with
  | inl read =>
    obtain ⟨s, inForest, listed⟩ := List.mem_flatMap.1 read
    exact List.mem_append_left _ (List.mem_flatMap.2 ⟨s, trees inForest, listed⟩)
  | inr isMade =>
    obtain ⟨m, inMade, listed⟩ := List.mem_flatMap.1 isMade
    exact List.mem_append_right _ (List.mem_flatMap.2 ⟨m, others inMade, listed⟩)

theorem Tracks.linkAt? {τ : Nat → Nat} {trees trees' : SchemaTrees} {R : Position → Position → Prop}
    {directory directory' : Directory} (tracks : Tracks τ trees trees' R)
    (qualifiers : ∀ home qualifier, directory'.moduleFor? home qualifier = directory.moduleFor? home qualifier)
    {groupings groupings' : List SchemaNode} {p : Statement.Placed}
    (positions : ∀ leaf, p.around = some leaf →
      R (leafPosition trees groupings leaf) (leafPosition trees' groupings' (leaf.renumber τ))) :
    linkAt? directory' trees' groupings' (p.renumber τ) =
      (linkAt? directory trees groupings p).map (Prod.map τ τ) := by
  rw [YangStubs.Schema.linkAt?, YangStubs.Schema.linkAt?, leafref?_renumber]
  cases isLeafref : leafref? p with
  | none => rfl
  | some item => exact tracks.leafrefLink? qualifiers (positions _ (leafref?_statement isLeafref).2)

theorem leafPosition_rel {R : Position → Position → Prop} {τ : Nat → Nat} {trees trees' : SchemaTrees}
    {groupings groupings' : List SchemaNode} {leaf : Statement}
    (located : Option.Rel R (locateIn? leaf.id [] (trees.map (·.2) ++ groupings))
      (locateIn? (τ leaf.id) [] (trees'.map (·.2) ++ groupings')))
    (alone : R ⟨⟨leaf, [], none⟩, []⟩ ⟨⟨leaf.renumber τ, [], none⟩, []⟩) :
    R (leafPosition trees groupings leaf) (leafPosition trees' groupings' (leaf.renumber τ)) := by
  rw [leafPosition, leafPosition, Statement.renumber_id]
  generalize locateIn? leaf.id [] _ = position at located ⊢
  generalize locateIn? (τ leaf.id) [] _ = position' at located ⊢
  cases located with
  | none => exact alone
  | some related => exact related

theorem leafPosition_renumber {ρ : Nat → Nat} {trees : SchemaTrees} {groupings groupings' : List SchemaNode}
    (known : groupings.map (SchemaNode.renumber ρ) ⊆ groupings')
    (nodup : ((nodesOfAll ((trees.renumber ρ).map (·.2) ++ groupings')).map (·.id)).Nodup) {leaf : Statement}
    (back : ∀ node' ∈ nodesOfAll ((trees.renumber ρ).map (·.2) ++ groupings'), node'.id = ρ leaf.id →
      ∃ node ∈ nodesOfAll (trees.map (·.2) ++ groupings), node.id = leaf.id) :
    leafPosition (trees.renumber ρ) groupings' (leaf.renumber ρ) = (leafPosition trees groupings leaf).renumber ρ := by
  refine leafPosition_rel (R := fun p p' => p' = p.renumber ρ) (locateIn?_rel ?_ nodup ?_ back) rfl
  · intro p p' same
    rw [same, Position.renumber, SchemaNode.renumber_id]
  · intro p member
    refine ⟨p.renumber ρ, ?_, rfl⟩
    have image := List.mem_map_of_mem (f := Position.renumber ρ) member
    rw [← positionsOfAll_renumber, positionsOfAll_eq_flatMap, List.map_nil] at image
    rw [positionsOfAll_eq_flatMap]
    obtain ⟨node, inNodes, listed⟩ := List.mem_flatMap.1 image
    refine List.mem_flatMap.2 ⟨node, ?_, listed⟩
    rw [List.map_append, List.mem_append] at inNodes
    rw [List.mem_append]
    refine inNodes.imp (fun inTrees => ?_) fun inGroupings => known inGroupings
    simpa [SchemaTrees.renumber] using inTrees

section Targets

variable {ρ : Nat → Nat} {directory directory' : Directory} {trees trees' : SchemaTrees}
  {groupings groupings' : List SchemaNode} {listing listing' : List Statement.Placed}

/-- The links of leafrefs among more statements. -/
theorem mem_filterMap_linkAt?_iff
    (listed : ∀ p ∈ listing, p.renumber ρ ∈ listing') (nodup : (listing'.map (·.statement.id)).Nodup)
    (same : ∀ p ∈ listing, linkAt? directory' trees' groupings' (p.renumber ρ) =
      (linkAt? directory trees groupings p).map (Prod.map ρ ρ))
    {p : Statement.Placed} (member : p ∈ listing) (j : Nat) :
    (ρ p.statement.id, j) ∈ listing'.filterMap (linkAt? directory' trees' groupings') ↔
      ∃ k, (p.statement.id, k) ∈ listing.filterMap (linkAt? directory trees groupings) ∧ j = ρ k := by
  simp only [List.mem_filterMap]
  constructor
  · intro ⟨p', member', found⟩
    have isImage : p' = p.renumber ρ := by
      refine List.inj_on_of_nodup_map nodup member' (listed p member) ?_
      rw [← linkAt?_number found, Statement.Placed.renumber, Statement.renumber_id]
    rw [isImage, same p member, Option.map_eq_some_iff] at found
    obtain ⟨⟨i, k⟩, isLink, images⟩ := found
    cases linkAt?_number isLink
    cases images
    exact ⟨k, ⟨p, member, isLink⟩, rfl⟩
  · intro ⟨k, ⟨q, member', found⟩, image⟩
    refine ⟨q.renumber ρ, listed q member', ?_⟩
    rw [same q member', found, image]
    rfl

end Targets

end YangStubs.Schema
