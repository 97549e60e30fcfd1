import YangStubs.Proofs.Schema.Relocation

/-! # Trees among other trees

The trees of a forest may stand in another forest, with other numbers, in another order and among others.
They are expanded there as they are by themselves.
-/

namespace YangStubs.Schema

open SchemaNode (placedAll)
open Statement (withinAll sizeOfAll Numbered)

variable {s : Statement}

/-- Every tree of the first forest stands in the second one, with other numbers. -/
structure Transplants (ρ₀ : Nat → Nat) (forest forest' : List Statement) : Prop where
  numbered : Numbered 1 forest
  numbered' : Numbered 1 forest'
  places : Places ρ₀ (1 + sizeOfAll forest) (1 + sizeOfAll forest')
  zero : ρ₀ 0 = 0
  below : ∀ t ∈ withinAll forest, t.Below (1 + sizeOfAll forest)
  trees : ∀ s ∈ forest, s.renumber ρ₀ ∈ forest'

/-- A renumbering of the trees that stand in another forest, and of what grows from them. -/
abbrev Transplants.Extends {ρ₀ : Nat → Nat} {forest forest' : List Statement}
    (_ : Transplants ρ₀ forest forest') (ρ : Nat → Nat) : Prop :=
  Continues ρ₀ (1 + sizeOfAll forest) (1 + sizeOfAll forest') ρ

namespace Transplants

variable {ρ₀ ρ : Nat → Nat} {forest forest' : List Statement} (moved : Transplants ρ₀ forest forest')
include moved

theorem renumber_eq (continues : moved.Extends ρ) (member : s ∈ withinAll forest) : s.renumber ρ = s.renumber ρ₀ := by
  refine s.renumber_congr continues.before fun t inside => ?_
  exact moved.below t (Statement.withinAll_trans forest member inside)

theorem mem_within (continues : moved.Extends ρ) (member : s ∈ withinAll forest) :
    s.renumber ρ ∈ withinAll forest' := by
  obtain ⟨tree, isTree, inside⟩ := Statement.mem_withinAll.1 member
  have renumbered : s.renumber ρ ∈ (tree.renumber ρ).within := by
    rw [Statement.renumber_within]
    exact List.mem_map_of_mem inside
  rw [moved.renumber_eq continues (Statement.mem_withinAll_of_mem isTree)] at renumbered
  exact Statement.mem_withinAll.2 ⟨_, moved.trees tree isTree, renumbered⟩

theorem number_lt (member : s ∈ withinAll forest') : 0 < s.id ∧ s.id < 1 + sizeOfAll forest' := by
  have number := (moved.numbered'.mem_iff s.id).1 (List.mem_map_of_mem member)
  exact ⟨by omega, by omega⟩

/-- A statement of the second forest whose number comes from the first one comes from there itself. -/
theorem exists_of_number (continues : moved.Extends ρ) {s' : Statement} (member : s' ∈ withinAll forest') {i : Nat}
    (number : s'.id = ρ i) : ∃ s ∈ withinAll forest, s.id = i ∧ s' = s.renumber ρ := by
  have bounds := moved.number_lt member
  have isBefore : i < 1 + sizeOfAll forest := by
    by_contra later
    have := continues.since i (by omega)
    omega
  have notZero : i ≠ 0 := by
    intro isZero
    rw [isZero, continues.before 0 (by omega), moved.zero] at number
    omega
  obtain ⟨s, inside, isNumber⟩ := List.mem_map.1 ((moved.numbered.mem_iff i).2 ⟨by omega, by omega⟩)
  refine ⟨s, inside, isNumber, ?_⟩
  refine moved.numbered'.eq_of_id_eq member (moved.mem_within continues inside) ?_
  rw [number, Statement.renumber_id, isNumber]

theorem groupingsMatch (continues : moved.Extends ρ) :
    GroupingsMatch ρ (groupingsOfForest forest) (groupingsOfForest forest') := by
  have nodup' : ((groupingsOfForest forest').map (·.id)).Nodup :=
    moved.numbered'.nodup.sublist ((groupingsOfForest_sublist forest').map _)
  intro id
  cases found : (groupingsOfForest forest).find? (·.id == id) with
  | none =>
    refine List.find?_eq_none.2 fun s' member isNumber => ?_
    obtain ⟨inForest, isGrouping⟩ := mem_groupingsOfForest.1 member
    obtain ⟨s, inside, number, rfl⟩ := moved.exists_of_number continues inForest (by simpa using isNumber)
    rw [Statement.renumber_keyword] at isGrouping
    exact List.find?_eq_none.1 found s (mem_groupingsOfForest.2 ⟨inside, isGrouping⟩) (by simpa using number)
  | some s =>
    have number : s.id = id := by simpa using List.find?_some found
    obtain ⟨inForest, isGrouping⟩ := mem_groupingsOfForest.1 (List.mem_of_find?_eq_some found)
    have member : s.renumber ρ ∈ groupingsOfForest forest' :=
      mem_groupingsOfForest.2 ⟨moved.mem_within continues inForest, by rwa [Statement.renumber_keyword]⟩
    have located := find?_key_eq nodup' member
    rwa [Statement.renumber_id, number] at located

theorem groupings_length_le (continues : moved.Extends ρ) :
    (groupingsOfForest forest).length ≤ (groupingsOfForest forest').length := by
  have nodup : ((groupingsOfForest forest).map (Statement.renumber ρ)).Nodup := by
    have ids : ((groupingsOfForest forest).map (·.id)).Nodup :=
      moved.numbered.nodup.sublist ((groupingsOfForest_sublist forest).map _)
    have images := ids.map continues.injective
    rw [List.map_map] at images
    refine List.Nodup.of_map (·.id) ?_
    simpa [Function.comp_def] using images
  have known : (groupingsOfForest forest).map (Statement.renumber ρ) ⊆ groupingsOfForest forest' := by
    intro s' member
    obtain ⟨s, isGrouping, rfl⟩ := List.mem_map.1 member
    obtain ⟨inForest, keyword⟩ := mem_groupingsOfForest.1 isGrouping
    exact mem_groupingsOfForest.2 ⟨moved.mem_within continues inForest, by rwa [Statement.renumber_keyword]⟩
  simpa using (List.subperm_of_subset nodup known).length_le

theorem expander_mirrors (continues : moved.Extends ρ) (busy : List Nat) :
    (forestExpander forest).Mirrors ρ (forestExpander forest') busy :=
  YangStubs.Schema.expander_mirrors continues.injective (moved.groupingsMatch continues) _ _ busy
    (List.length_filter_le _ _) (moved.groupings_length_le continues)

end Transplants

/-! ## What grows from each tree -/

/-- The nodes below a tree's groupings are statements of the tree, or made for it. -/
theorem growDefinitions_owned (groupings : List Statement) (bound : Nat) (s : Statement) (g : Growth) :
    let r := (growDefinitions (expander groupings bound) (s.listing none)).run g
    r.1.2.map (·.statement) = topAugments (s.listing none) ∧
      ∀ t ∈ placedAll r.1.1, t ∈ s.within ∨
        t ∈ madeStatements (freshOf (Part.grow (expander groupings bound) (.definitions s)) g) := by
  have growing := expander_growing_true groupings bound
  obtain ⟨isGrouping, isAugment, fresh, grown⟩ := growDefinitions_grows holdsOfCases_true growing (s.listing none) g
  have made : freshOf (Part.grow (expander groupings bound) (.definitions s)) g = fresh := by
    rw [freshOf, Part.definitions_run]
    simp only [grown.made, List.drop_left]
  have inside : ∀ t ∈ groupingsAmong (s.listing none) ++ topAugments (s.listing none), t ∈ s.within := by
    intro t member
    rw [← Statement.listing_statements none s]
    cases List.mem_append.1 member with
    | inl among => exact List.mem_of_mem_filter among
    | inr atTop => exact (List.filter_sublist.map _).subset atTop
  refine ⟨isAugment, fun t member => ?_⟩
  rw [made]
  rw [(SchemaNode.placedAll_perm _).mem_iff, isGrouping] at member
  cases List.mem_append.1 member with
  | inl root => exact .inl (inside t (List.mem_append_left _ root))
  | inr below =>
    have placed := grown.member t (by
      rw [List.flatMap_append, SchemaNode.placedAll_append]
      exact List.mem_append_left _ below)
    refine placed.imp (fun own => ?_) id
    obtain ⟨u, isRoot, inCore⟩ := List.mem_flatMap.1 own
    refine Statement.within_trans s (inside u isRoot) ((Statement.core_sublist u).subset ?_)
    rw [Statement.core_eq]
    exact List.mem_cons_of_mem u inCore

/-- What each tree brings to the expansion of a forest. -/
structure Yield (tops forest : List Statement) (g : Growth) (expansion : Expansion) (final : Growth) where
  module : Statement → SchemaNode
  groupings : Statement → List SchemaNode
  augments : Statement → List SchemaNode
  /-- What is made for the module, and what for the groupings and augments. -/
  made : Statement → List Made
  made' : Statement → List Made
  modules_eq : expansion.modules = tops.map module
  groupings_eq : expansion.groupings = forest.flatMap groupings
  augments_eq : expansion.augments = forest.flatMap augments
  made_eq : final.made = g.made ++ (tops.flatMap made ++ forest.flatMap made')
  augments_roots : ∀ s, (augments s).map (·.statement) = topAugments (s.listing none)
  owned : ∀ s, ∀ t ∈ placedAll (groupings s), t ∈ s.within ∨ t ∈ madeStatements (made' s)

/-- A tree of the first forest brings the same to the second one, with other numbers. -/
structure Yield.Mirrors (ρ : Nat → Nat) {tops forest tops' forest' : List Statement} {g g' final final' : Growth}
    {expansion expansion' : Expansion} (yield : Yield tops forest g expansion final)
    (yield' : Yield tops' forest' g' expansion' final') : Prop where
  module : ∀ s ∈ tops, yield'.module (s.renumber ρ) = (yield.module s).renumber ρ
  made : ∀ s ∈ tops, yield'.made (s.renumber ρ) = (yield.made s).map (Made.renumber ρ)
  groupings : ∀ s ∈ forest, yield'.groupings (s.renumber ρ) = (yield.groupings s).map (SchemaNode.renumber ρ)
  augments : ∀ s ∈ forest, yield'.augments (s.renumber ρ) = (yield.augments s).map (SchemaNode.renumber ρ)
  made' : ∀ s ∈ forest, yield'.made' (s.renumber ρ) = (yield.made' s).map (Made.renumber ρ)

section Yield

variable {tops forest known : List Statement} {g final : Growth} {state : Part → Growth}

/-- What each tree brings, from a run of the parts. -/
def Runs.yield (runs : Runs (Part.grow (forestExpander known)) (partsOf tops forest) g state final) :
    Yield tops forest g
      (let r := ((partsOf tops forest).mapM (Part.grow (forestExpander known))).run g
       ⟨r.1.flatMap (·.modules), r.1.flatMap (·.groupings), r.1.flatMap (·.augments)⟩)
      (((partsOf tops forest).mapM (Part.grow (forestExpander known))).run g).2 where
  module s := ((grow (forestExpander known) [] s).run (state (.module s))).1
  groupings s := ((growDefinitions (forestExpander known) (s.listing none)).run (state (.definitions s))).1.1
  augments s := ((growDefinitions (forestExpander known) (s.listing none)).run (state (.definitions s))).1.2
  made s := freshOf (Part.grow (forestExpander known) (.module s)) (state (.module s))
  made' s := freshOf (Part.grow (forestExpander known) (.definitions s)) (state (.definitions s))
  augments_roots s := (growDefinitions_owned _ _ s (state (.definitions s))).1
  owned s := (growDefinitions_owned _ _ s (state (.definitions s))).2
  modules_eq := by
    have nothing : forest.flatMap (fun _ => ([] : List SchemaNode)) = [] := by simp
    have each := congrArg (tops.map (fun s => ((grow (forestExpander known) [] s).run (state (.module s))).1) ++ ·) nothing
    rw [List.append_nil, List.map_eq_flatMap] at each
    rw [runs.result]
    simp only [partsOf, List.map_append, List.map_map, List.flatMap_append, List.flatMap_map,
      Function.comp_def, Part.module_run, Part.definitions_run]
    exact each.trans List.map_eq_flatMap.symm
  groupings_eq := by
    rw [runs.result]
    simp [partsOf, Part.module_run, Part.definitions_run, List.flatMap_map]
  augments_eq := by
    rw [runs.result]
    simp [partsOf, Part.module_run, Part.definitions_run, List.flatMap_map]
  made_eq := by
    rw [runs.result, runs.made, partsOf, List.flatMap_append, List.flatMap_map, List.flatMap_map]

end Yield

theorem partsOf_nodup {tops forest : List Statement} (nodup : tops.Nodup) (numbered : Numbered 1 forest) :
    (partsOf tops forest).Nodup := by
  have nodupForest : forest.Nodup :=
    (List.Nodup.of_map _ numbered.nodup).sublist (Statement.sublist_withinAll forest)
  refine List.nodup_append.2 ⟨nodup.map fun _ _ same => Part.module.inj same,
    nodupForest.map fun _ _ same => Part.definitions.inj same, ?_⟩
  intro p inTops q inForest same
  obtain ⟨s, -, rfl⟩ := List.mem_map.1 inTops
  obtain ⟨t, -, rfl⟩ := List.mem_map.1 inForest
  cases same

theorem module_mem_partsOf {tops forest : List Statement} : .module s ∈ partsOf tops forest ↔ s ∈ tops := by
  simp [partsOf]

theorem definitions_mem_partsOf {tops forest : List Statement} :
    .definitions s ∈ partsOf tops forest ↔ s ∈ forest := by
  simp [partsOf]

namespace Transplants

variable {ρ₀ : Nat → Nat} {forest forest' : List Statement} (moved : Transplants ρ₀ forest forest')
  {ids ids' : List Nat}

include moved

theorem part_mem (tops : ∀ s ∈ topsOf forest ids, s.renumber ρ₀ ∈ topsOf forest' ids') :
    ∀ p ∈ partsOf (topsOf forest ids) forest, p.renumber ρ₀ ∈ partsOf (topsOf forest' ids') forest' := by
  intro p member
  cases p with
  | module s => exact module_mem_partsOf.2 (tops s (module_mem_partsOf.1 member))
  | definitions s => exact definitions_mem_partsOf.2 (moved.trees s (definitions_mem_partsOf.1 member))

/-- Different trees stay different. -/
theorem eq_of_renumber_eq {t : Statement} (inS : s ∈ forest) (inT : t ∈ forest) (same : s.renumber ρ₀ = t.renumber ρ₀) :
    s = t := by
  have inS := Statement.mem_withinAll_of_mem inS
  have inT := Statement.mem_withinAll_of_mem inT
  have sameId : ρ₀ s.id = ρ₀ t.id := by simpa using congrArg Statement.id same
  exact moved.numbered.eq_of_id_eq inS inT
    (moved.places.injective _ (moved.below s inS).id _ (moved.below t inT).id sameId)

theorem part_eq_of_renumber_eq : ∀ p ∈ partsOf (topsOf forest ids) forest,
    ∀ q ∈ partsOf (topsOf forest ids) forest, p.renumber ρ₀ = q.renumber ρ₀ → p = q := by
  have inForest : ∀ s ∈ topsOf forest ids, s ∈ forest := fun s member => topsOf_subset forest ids member
  intro p inP q inQ same
  cases p with
  | module s =>
    cases q with
    | module t =>
      have isTop := inForest s (module_mem_partsOf.1 inP)
      have isTop' := inForest t (module_mem_partsOf.1 inQ)
      rw [moved.eq_of_renumber_eq isTop isTop' (Part.module.inj same)]
    | definitions t => cases same
  | definitions s =>
    cases q with
    | module t => cases same
    | definitions t =>
      have isTree := definitions_mem_partsOf.1 inP
      have isTree' := definitions_mem_partsOf.1 inQ
      rw [moved.eq_of_renumber_eq isTree isTree' (Part.definitions.inj same)]

/-- What gives the trees their numbers does not matter. -/
theorem part_renumber_eq {ρ : Nat → Nat} (continues : moved.Extends ρ) :
    ∀ p ∈ partsOf (topsOf forest ids) forest, p.renumber ρ = p.renumber ρ₀ := by
  have sameTree : ∀ s ∈ forest, s.renumber ρ = s.renumber ρ₀ := fun s isTree =>
    moved.renumber_eq continues (Statement.mem_withinAll_of_mem isTree)
  intro p member
  cases p with
  | module s =>
    rw [Part.renumber, Part.renumber, sameTree s (topsOf_subset forest ids (module_mem_partsOf.1 member))]
  | definitions s => rw [Part.renumber, Part.renumber, sameTree s (definitions_mem_partsOf.1 member)]

/-- The trees bring the same to the expansion of the second forest as to that of the first. -/
theorem exists_relocation (tops : ∀ s ∈ topsOf forest ids, s.renumber ρ₀ ∈ topsOf forest' ids')
    (nodup : (topsOf forest ids).Nodup) (nodup' : (topsOf forest' ids').Nodup) {g g' : Growth}
    (start : g.next = 1 + sizeOfAll forest) (start' : g'.next = 1 + sizeOfAll forest') (tail : Nat) :
    let r := (expandForest forest ids).run g
    let r' := (expandForest forest' ids').run g'
    ∃ ρ, moved.Extends ρ ∧ (∀ k < tail, ρ (r.2.next + k) = r'.2.next + k) ∧
      ∃ (yield : Yield (topsOf forest ids) forest g r.1 r.2)
        (yield' : Yield (topsOf forest' ids') forest' g' r'.1 r'.2), yield.Mirrors ρ yield' := by
  have nodupParts := partsOf_nodup nodup moved.numbered
  obtain ⟨state, final, runs⟩ := exists_runs (x := Part.grow (forestExpander forest)) nodupParts
    (fun p _ => Part.grow_adding (groupingsOfForest forest) _ p) g
  obtain ⟨state', final', runs'⟩ := exists_runs (x := Part.grow (forestExpander forest'))
    (partsOf_nodup nodup' moved.numbered') (fun p _ => Part.grow_adding (groupingsOfForest forest') _ p) g'
  have mirrors : ∀ ρ, moved.Extends ρ → ∀ p ∈ partsOf (topsOf forest ids) forest,
      Mirrors ρ (Expansion.renumber ρ) (p.grow (forestExpander forest))
        ((p.renumber ρ₀).grow (forestExpander forest')) := by
    intro ρ continues p member
    rw [← moved.part_renumber_eq continues p member]
    exact Part.grow_mirrors (moved.expander_mirrors continues) p
  obtain ⟨ρ, continues, atTail, each⟩ := runs.exists_relocation runs' nodupParts (moved.part_mem tops)
    moved.part_eq_of_renumber_eq moved.places (Nat.le_of_eq start.symm) (Nat.le_of_eq start'.symm) mirrors tail
  rw [expandForest_eq_mapM forest ids g, expandForest_eq_mapM forest' ids' g']
  refine ⟨ρ, continues, ?_, runs.yield, runs'.yield, ?_⟩
  · rw [runs.result, runs'.result]
    exact atTail
  · have ofPart : ∀ p ∈ partsOf (topsOf forest ids) forest,
        ((p.renumber ρ).grow (forestExpander forest') |>.run (state' (p.renumber ρ))).1 =
            (((p.grow (forestExpander forest)).run (state p)).1).renumber ρ ∧
          freshOf ((p.renumber ρ).grow (forestExpander forest')) (state' (p.renumber ρ)) =
            (freshOf (p.grow (forestExpander forest)) (state p)).map (Made.renumber ρ) := by
      intro p member
      rw [moved.part_renumber_eq continues p member]
      exact each p member
    have ofModule := fun s (isTop : s ∈ topsOf forest ids) => ofPart (.module s) (module_mem_partsOf.2 isTop)
    have ofTree := fun s (isTree : s ∈ forest) => ofPart (.definitions s) (definitions_mem_partsOf.2 isTree)
    exact ⟨fun s isTop => (List.cons.inj (congrArg Expansion.modules (ofModule s isTop).1)).1,
      fun s isTop => (ofModule s isTop).2, fun s isTree => congrArg Expansion.groupings (ofTree s isTree).1,
      fun s isTree => congrArg Expansion.augments (ofTree s isTree).1, fun s isTree => (ofTree s isTree).2⟩

end Transplants

end YangStubs.Schema
