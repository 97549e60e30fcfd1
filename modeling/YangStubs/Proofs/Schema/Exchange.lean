import YangStubs.Proofs.Schema.Cases
import YangStubs.Proofs.Schema.Reloading

/-! # Schemas of modules in another order

If two libraries hold the same modules in different orders, expanding makes the same trees of them, with other numbers
and in another order.  So the augments of both have the same to do, and the trees that they come to differ in numbers
and in the order of what augments brought.  One renumbering does for all: for what was read, for the copies, and for
the cases that were made while augmenting.
-/

namespace YangStubs.Schema

open SchemaNode (placedAll nodesOfAll stampedAll Reordered)
open Statement (within withinAll)

variable {start : Nat}

/-! ## Numbers in use -/

/-- Leaves the numbers below `start` and moves the others. -/
def shiftFrom (start i : Nat) : Nat :=
  if i < start then i else i + 1

theorem shiftFrom_of_lt {i : Nat} (before : i < start) : shiftFrom start i = i :=
  if_pos before

theorem lt_of_shiftFrom {i : Nat} (same : shiftFrom start i = i) : i < start := by
  by_contra later
  rw [shiftFrom, if_neg later] at same
  omega

theorem lt_of_map_shiftFrom {link : Option Nat} (same : link.map (shiftFrom start) = link) :
    ∀ i, link = some i → i < start := by
  intro i isLink
  rw [isLink] at same
  exact lt_of_shiftFrom (Option.some.inj same)

theorem shiftFrom_injective (start : Nat) : Function.Injective (shiftFrom start) := by
  intro i j same
  unfold shiftFrom at same
  split at same <;> split at same <;> omega

theorem eq_of_map_eq_self {α : Type} {f : α → α} {l : List α} (same : l.map f = l) : ∀ a ∈ l, f a = a :=
  List.map_inj_left.1 (same.trans (List.map_id l).symm)

theorem Statement.below_of_shift {s : Statement} (same : s.renumber (shiftFrom start) = s) :
    ∀ t ∈ s.within, t.Below start := by
  have each := congrArg within same
  rw [Statement.renumber_within] at each
  intro t inside
  have fixed := eq_of_map_eq_self each t inside
  have id := congrArg Statement.id fixed
  have origin := congrArg Statement.origin fixed
  have grouping := congrArg Statement.grouping fixed
  have typedef := congrArg Statement.typedef fixed
  simp only [Statement.renumber_id, Statement.renumber_origin, Statement.renumber_grouping,
    Statement.renumber_typedef] at id origin grouping typedef
  exact ⟨lt_of_shiftFrom id, lt_of_map_shiftFrom origin, lt_of_map_shiftFrom grouping, lt_of_map_shiftFrom typedef⟩

theorem SchemaNode.below_of_shift {l : List SchemaNode} (same : l.map (SchemaNode.renumber (shiftFrom start)) = l) :
    ∀ node ∈ nodesOfAll l, node.Below start := by
  have each := congrArg nodesOfAll same
  rw [nodesOfAll_renumber] at each
  intro node inside
  have fixed := eq_of_map_eq_self each node inside
  have statement := congrArg SchemaNode.statement fixed
  have augment := congrArg SchemaNode.augment fixed
  rw [SchemaNode.renumber_statement] at statement
  rw [SchemaNode.renumber_augment] at augment
  exact ⟨Statement.below_of_shift statement, lt_of_map_shiftFrom augment⟩

theorem SchemaNode.map_renumber_congr {ρ τ : Nat → Nat} (agree : ∀ i < start, τ i = ρ i) {l : List SchemaNode}
    (below : ∀ node ∈ nodesOfAll l, node.Below start) :
    l.map (SchemaNode.renumber τ) = l.map (SchemaNode.renumber ρ) := by
  rw [← SchemaNode.renumberAll_eq_map, ← SchemaNode.renumberAll_eq_map]
  exact SchemaNode.renumberAll_congr agree l below

theorem Library.ExpandsTo.next_le {library : Library} {forest : List Statement} (way : library.ExpandsTo forest) :
    library.next ≤ way.grown.next := by
  obtain ⟨fresh, grows⟩ := way.grows
  rw [grows.next]
  exact Nat.le_add_right _ _

/-- Expanding uses no number from `way.grown.next` on: if these were others, nothing would change. -/
theorem Library.ExpandsTo.shift {library : Library} {forest : List Statement} (way : library.ExpandsTo forest)
    (sound : library.Sound) :
    way.expansion.renumber (shiftFrom way.grown.next) = way.expansion ∧
      way.grown.made.map (Made.renumber (shiftFrom way.grown.next)) = way.grown.made := by
  have moved : Transplants (fun i => i) forest forest := by
    refine ⟨way.numbered sound, way.numbered sound, ⟨fun i _ j _ same => same, fun i before => before⟩, rfl, ?_, ?_⟩
    · rw [← way.next_eq]
      exact way.below_forest sound
    · intro s member
      rwa [Statement.renumber_self]
  have later := way.next_le
  have continues : moved.Extends (shiftFrom way.grown.next) := by
    refine ⟨shiftFrom_injective _, fun i before => shiftFrom_of_lt ?_, fun i since => ?_⟩
    · rw [← way.next_eq] at before
      omega
    · unfold shiftFrom
      split <;> omega
  have sameTree : ∀ s ∈ withinAll forest, s.renumber (shiftFrom way.grown.next) = s := by
    intro s member
    rw [moved.renumber_eq continues member, Statement.renumber_self]
  have sameForest : forest.map (Statement.renumber (shiftFrom way.grown.next)) = forest :=
    (List.map_congr_left fun s member => sameTree s (Statement.mem_withinAll_of_mem member)).trans (List.map_id _)
  have sameTops : (topsOf forest (library.modules.map (·.2))).map (Statement.renumber (shiftFrom way.grown.next)) =
      topsOf forest (library.modules.map (·.2)) :=
    (List.map_congr_left fun s member =>
      sameTree s (Statement.mem_withinAll_of_mem (topsOf_subset _ _ member))).trans (List.map_id _)
  have sameListing := Statement.listingOfAll_map_renumber (shiftFrom way.grown.next) forest
  rw [sameForest] at sameListing
  have tops := growModules_mirrors (moved.expander_mirrors continues) (topsOf forest (library.modules.map (·.2)))
  have definitions := growDefinitions_mirrors (moved.expander_mirrors continues)
    (Statement.listingOfAll none none forest)
  rw [sameTops] at tops
  rw [← sameListing] at definitions
  have whole : Mirrors (shiftFrom way.grown.next) (Expansion.renumber (shiftFrom way.grown.next))
      (expandForest forest (library.modules.map (·.2))) (expandForest forest (library.modules.map (·.2))) :=
    tops.bind fun nodes => definitions.bind fun found => Mirrors.pure (⟨nodes, found.1, found.2⟩ : Expansion)
  obtain ⟨n, fresh, next, made, mirror⟩ := whole ⟨library.next, [], way.log⟩
  rw [way.expanded] at next made
  obtain ⟨result, -, made'⟩ := mirror ⟨library.next, [], way.log⟩ fun k before => shiftFrom_of_lt (by
    simp only at next ⊢
    omega)
  rw [way.expanded] at result made'
  refine ⟨result.symm, ?_⟩
  simp only [List.nil_append] at made made'
  rw [← made] at made'
  exact made'.symm

/-! ## The two expansions -/

theorem mapM_perm {ε α β : Type} {f : α → Except ε β} {l l' : List α} (order : l.Perm l') {k : List β}
    (done : l.mapM f = .ok k) : ∃ k', l'.mapM f = .ok k' ∧ k.Perm k' := by
  obtain ⟨k', done', same⟩ := List.perm_comp_forall₂ order.symm (mapM_eq_ok.1 done)
  exact ⟨k', mapM_eq_ok.2 done', same.symm⟩

theorem Library.ExpandsTo.trees_eq {library : Library} {forest tops : List Statement}
    (way : library.ExpandsTo forest) (sound : library.Sound)
    (isTops : topsOf forest (library.modules.map (·.2)) = tops) {module : Statement → SchemaNode}
    (modules : way.expansion.modules = tops.map module) : way.trees = tops.map fun s => (s.name, module s) := by
  obtain ⟨named, -⟩ := topsOf_eq way sound (List.Subset.refl library.modules)
  have names : library.modules.map (·.1) = tops.map (·.name) := by
    rw [← congrArg (List.map Prod.fst) named, List.map_map, isTops]
    rfl
  rw [ExpandsTo.trees, names, modules, List.zip_map']

namespace Library.Permutes

variable {library library' : Library} {kept : List Statement} (permutes : library.Permutes library' kept)
include permutes

theorem exists_linked {forest : List Statement}
    (linked : library.forest.mapM (linkTree library.directory) = .ok forest) :
    ∃ forest', library'.forest.mapM (linkTree library'.directory) = .ok forest' := by
  obtain ⟨ρ, -, -, trees⟩ := permutes.exists_places
  have kept := permutes.mapM_kept (trees ρ fun _ _ => rfl)
  rw [linked] at kept
  obtain ⟨forest', linked', -⟩ := mapM_perm permutes.order kept
  exact ⟨forest', linked'⟩

variable {forest forest' : List Statement} {way : library.ExpandsTo forest} {way' : library'.ExpandsTo forest'}
  {ρ : Nat → Nat} (matched : way.Matches way' kept ρ)
include matched

theorem forest_perm : (forest.map (Statement.renumber ρ)).Perm forest' := by
  have kept := permutes.mapM_kept matched.read
  rw [Library.linked_iff.1 ⟨_, way.linked⟩] at kept
  obtain ⟨k, linked, order⟩ := mapM_perm permutes.order kept
  cases linked.symm.trans (Library.linked_iff.1 ⟨_, way'.linked⟩)
  exact order

theorem groupings_perm : (way.expansion.groupings.map (SchemaNode.renumber ρ)).Perm way'.expansion.groupings := by
  obtain ⟨yield, yield', mirrors⟩ := matched.yields
  rw [yield.groupings_eq, yield'.groupings_eq, ← flatMap_renumber mirrors.groupings]
  exact (permutes.forest_perm matched).flatMap_right _

theorem augments_perm : (way.expansion.augments.map (SchemaNode.renumber ρ)).Perm way'.expansion.augments := by
  obtain ⟨yield, yield', mirrors⟩ := matched.yields
  rw [yield.augments_eq, yield'.augments_eq, ← flatMap_renumber mirrors.augments]
  exact (permutes.forest_perm matched).flatMap_right _

theorem made_perm : (way.grown.made.map (Made.renumber ρ)).Perm way'.grown.made := by
  obtain ⟨yield, yield', mirrors⟩ := matched.yields
  rw [yield.made_eq, yield'.made_eq, List.nil_append, List.nil_append, List.map_append,
    ← flatMap_renumber mirrors.made, ← flatMap_renumber mirrors.made']
  exact (matched.tops.symm.flatMap_right _).append ((permutes.forest_perm matched).flatMap_right _)

theorem trees_perm : (way.trees.renumber ρ).Perm way'.trees := by
  obtain ⟨yield, yield', mirrors⟩ := matched.yields
  have tops := way.tops_eq permutes.sound permutes.modules
  rw [way.trees_eq permutes.sound tops yield.modules_eq, way'.trees_eq permutes.sound' rfl yield'.modules_eq]
  have images : SchemaTrees.renumber ρ (forest.map fun s => (s.name, yield.module s)) =
      (forest.map (Statement.renumber ρ)).map fun s => (s.name, yield'.module s) := by
    rw [SchemaTrees.renumber, List.map_map, List.map_map]
    refine List.map_congr_left fun s member => ?_
    simp only [Function.comp_apply, Statement.renumber_name, mirrors.module s member]
  rw [images]
  exact matched.tops.symm.map _

end Library.Permutes

/-! ## The two runs of augmenting -/

section Renumber

variable {R : Statement × Option Nat → Statement × Option Nat → Prop} {ρ : Nat → Nat}

mutual
theorem SchemaNode.reordered_renumber : ∀ node : SchemaNode,
    (∀ p ∈ node.stamped, R p (p.1.renumber ρ, p.2.map ρ)) → node.Reordered R (node.renumber ρ)
  | ⟨statement, children, augment⟩, each => by
    obtain ⟨here, below⟩ := List.forall_mem_cons.1 each
    rw [SchemaNode.renumber_mk]
    exact .intro here (Reordered.all_of_forall₂ (SchemaNode.forall₂_reordered_renumber children below))

theorem SchemaNode.forall₂_reordered_renumber : ∀ l : List SchemaNode,
    (∀ p ∈ stampedAll l, R p (p.1.renumber ρ, p.2.map ρ)) →
      List.Forall₂ (Reordered R) l (l.map (SchemaNode.renumber ρ))
  | [], _ => .nil
  | node :: rest, each => by
    obtain ⟨here, others⟩ := List.forall_mem_append.1 each
    exact .cons (SchemaNode.reordered_renumber node here) (SchemaNode.forall₂_reordered_renumber rest others)
end

theorem SchemaNode.reordered_matches {start' : Nat} {node : SchemaNode}
    (below : ∀ n ∈ node.nodes, n.Below start ∧ (n.renumber ρ).Below start') :
    node.Reordered (Matches ρ start start') (node.renumber ρ) := by
  refine SchemaNode.reordered_renumber node fun p member => ?_
  rw [← nodes_stamped] at member
  obtain ⟨n, inside, rfl⟩ := List.mem_map.1 member
  obtain ⟨first, second⟩ := below n inside
  have number := (first.statement _ (Statement.mem_within_self _)).id
  have number' := (second.statement _ (Statement.mem_within_self _)).id
  rw [SchemaNode.renumber_statement] at number'
  exact ⟨.inl ⟨number, number', rfl⟩, rfl⟩

theorem below_images {start' : Nat} {l l' : List SchemaNode} (below : ∀ node ∈ nodesOfAll l, node.Below start)
    (below' : ∀ node ∈ nodesOfAll l', node.Below start') (known : l.map (SchemaNode.renumber ρ) ⊆ l') :
    ∀ node ∈ nodesOfAll l, node.Below start ∧ (node.renumber ρ).Below start' := by
  intro node inside
  refine ⟨below node inside, below' _ ?_⟩
  have image := List.mem_map_of_mem (f := SchemaNode.renumber ρ) inside
  rw [← nodesOfAll_renumber] at image
  obtain ⟨tree, inList, inTree⟩ := SchemaNode.mem_nodesOfAll.1 image
  exact SchemaNode.mem_nodesOfAll.2 ⟨tree, known inList, inTree⟩

end Renumber

namespace Library.ExpandsTo

variable {library : Library} {forest : List Statement} (way : library.ExpandsTo forest) (sound : library.Sound)
include sound

theorem below_modules : ∀ node ∈ nodesOfAll way.expansion.modules, node.Below way.grown.next :=
  SchemaNode.below_of_shift (congrArg Expansion.modules (way.shift sound).1)

theorem below_groupings : ∀ node ∈ nodesOfAll way.expansion.groupings, node.Below way.grown.next :=
  SchemaNode.below_of_shift (congrArg Expansion.groupings (way.shift sound).1)

theorem below_augments : ∀ node ∈ nodesOfAll way.expansion.augments, node.Below way.grown.next :=
  SchemaNode.below_of_shift (congrArg Expansion.augments (way.shift sound).1)

end Library.ExpandsTo

namespace Library.Permutes

variable {library library' : Library} {kept : List Statement} (permutes : library.Permutes library' kept)
  {forest forest' : List Statement} {way : library.ExpandsTo forest} {way' : library'.ExpandsTo forest'}
  {ρ : Nat → Nat} (matched : way.Matches way' kept ρ)
include permutes matched

theorem trees_reordered : way.trees.Reordered (Matches ρ way.grown.next way'.grown.next) way'.trees := by
  have order := permutes.trees_perm matched
  have names : ((way.trees.renumber ρ).map (·.1)).Nodup := by
    rw [SchemaTrees.renumber, List.map_map]
    exact (way.ready permutes.sound).names
  intro name
  rw [← lookup_perm order names, SchemaTrees.lookup_renumber]
  cases found : way.trees.lookup name with
  | none => exact .none
  | some tree =>
    have isTree : tree ∈ way.expansion.modules := by
      rw [← (way.trees_spec permutes.sound).2]
      exact List.mem_map_of_mem (mem_of_lookup_eq_some found)
    have images : way.expansion.modules.map (SchemaNode.renumber ρ) ⊆ way'.expansion.modules := by
      rw [← (way.trees_spec permutes.sound).2, ← (way'.trees_spec permutes.sound').2]
      have subset := (order.map (·.2)).subset
      simpa only [SchemaTrees.renumber, List.map_map, Function.comp_def] using subset
    have below := below_images (way.below_modules permutes.sound) (way'.below_modules permutes.sound') images
    exact .some (SchemaNode.reordered_matches fun n inside =>
      below n (SchemaNode.mem_nodesOfAll.2 ⟨tree, isTree, inside⟩))

theorem sameAugments : List.Forall₂
    (SameAugment library.directory library'.directory ρ way.grown.next way'.grown.next)
    way.expansion.augments (way.expansion.augments.map (SchemaNode.renumber ρ)) := by
  rw [List.forall₂_map_right_iff, List.forall₂_same]
  intro a isAugment
  have below := below_images (way.below_augments permutes.sound) (way'.below_augments permutes.sound')
    (permutes.augments_perm matched).subset
  refine ⟨?_, SchemaNode.renumber_id ρ a, ?_⟩
  · rw [SchemaNode.renumber_statement]
    exact augmentPath?_renumber matched.renumbers.moduleFor? a.statement
  · rw [SchemaNode.renumber_children, List.forall₂_map_right_iff, List.forall₂_same]
    intro child isChild
    refine SchemaNode.reordered_matches fun n inside => below n ?_
    refine SchemaNode.nodesOfAll_trans _ ?_ inside
    exact SchemaNode.mem_nodesOfAll_child (mem_nodesOfAll_of_mem isAugment) isChild

theorem exists_augmented {final : SchemaTrees} {h : Growth} (done : way.augmented = (.ok final, h))
    (distinct : final.NamesDistinct) :
    ∃ final' h', way'.augmented = (.ok final', h') ∧
      final.Reordered (Matches ρ way.grown.next way'.grown.next) final' :=
  augmentAll_confluent (permutes.trees_reordered matched) (permutes.sameAugments matched)
    (permutes.augments_perm matched) done distinct

end Library.Permutes

/-! ## One renumbering -/

theorem SchemaTrees.Reordered.exists_forall₂ {R : Statement × Option Nat → Statement × Option Nat → Prop}
    {trees trees' : SchemaTrees} (alike : trees.Reordered R trees') (nodup : (trees.map (·.1)).Nodup)
    (names : (trees.map (·.1)).Perm (trees'.map (·.1))) :
    ∃ m, List.Forall₂ (fun t t' => t'.1 = t.1 ∧ t.2.Reordered R t'.2) trees m ∧ m.Perm trees' := by
  have own : List.Forall₂ (fun name (t : String × SchemaNode) => name = t.1) (trees'.map (·.1)) trees' := by
    rw [List.forall₂_map_left_iff, List.forall₂_same]
    exact fun t _ => rfl
  obtain ⟨m, named, order⟩ := List.perm_comp_forall₂ names own
  have sameNames : trees.map (·.1) = m.map (·.1) := by
    rwa [← List.forall₂_map_right_iff (R := Eq), List.forall₂_eq_eq_eq] at named
  refine ⟨m, SchemaTrees.Reordered.forall₂ (fun name => ?_) nodup sameNames.symm, order⟩
  rw [lookup_perm order (sameNames ▸ nodup)]
  exact alike name

theorem caseFor_renumber (τ : Nat → Nat) (number : Nat) (node : SchemaNode) :
    (caseFor number node).renumber τ = { caseFor number node with id := τ number } := by
  simp [caseFor, Statement.renumber, Statement.renumberAll]

/-- What stands in augmented trees was there before, with no number from `start` on, or is a case made since. -/
structure Augmented (start : Nat) (p : Statement × Option Nat) : Prop where
  old : p.1.id < start → ∀ t ∈ p.1.within, t.Below start
  new : start ≤ p.1.id → ∃ number node, p.1 = caseFor number node
  mark : ∀ i, p.2 = some i → i < start

theorem Matches.restamped {ρ τ : Nat → Nat} {start' : Nat} (agree : ∀ i < start, τ i = ρ i)
    {p p' : Statement × Option Nat} (augmented : Augmented start p) (same : Matches ρ start start' p p')
    (number : p'.1.id = τ p.1.id) : Restamped τ p p' := by
  have mark : p'.2 = p.2.map τ := same.mark.trans (map_eq_of_below agree augmented.mark).symm
  refine Prod.ext ?_ mark
  cases same.statement with
  | inl isOld =>
    obtain ⟨before, -, renumbered⟩ := isOld
    rw [renumbered]
    exact (Statement.renumber_congr agree p.1 (augmented.old before)).symm
  | inr isNew =>
    obtain ⟨since, -, renumbered⟩ := isNew
    obtain ⟨i, node, isCase⟩ := augmented.new since
    rw [renumbered, number, isCase, caseFor_renumber]
    rfl

theorem augmentAll_roots_unmarked {directory : Directory} {trees trees' : SchemaTrees} {augments : List SchemaNode}
    {g h : Growth} (done : (augmentAll directory trees augments).run g = (.ok trees', h))
    (unmarked : ∀ t ∈ trees, t.2.augment = none) : ∀ t ∈ trees', t.2.augment = none := by
  have step : ∀ a ∈ augments, ∀ (trees : SchemaTrees) (h : Growth) (path : String × List String) (target : SchemaNode),
      augmentTarget? directory trees a = some (path, target) → (∀ t ∈ trees, t.2.augment = none) →
      ∀ t ∈ trees.attachAt path (graftAt a target h).1, t.2.augment = none := by
    intro a _ trees h path target _ holds t member
    obtain ⟨tree, isTree, rfl⟩ := List.mem_map.1 member
    by_cases here : tree.1 == path.1
    · simp only [here, if_true, attachAt_augment]
      exact holds tree isTree
    · simp only [here, Bool.false_eq_true, if_false]
      exact holds tree isTree
  have kept := augmentRounds_keeps (Q := fun trees _ => ∀ t ∈ trees, t.2.augment = none) directory augments.length
    step trees g unmarked
  rw [augmentAll_eq_ok.1 done] at kept
  exact kept

theorem mem_nodesOfAll_of_below {l : List SchemaNode} {node : SchemaNode}
    (member : node ∈ nodesOfAll (l.flatMap (·.children))) : node ∈ nodesOfAll l := by
  obtain ⟨child, isBelow, inside⟩ := SchemaNode.mem_nodesOfAll.1 member
  obtain ⟨parent, inList, isChild⟩ := List.mem_flatMap.1 isBelow
  exact SchemaNode.nodesOfAll_trans l (SchemaNode.mem_nodesOfAll_child (mem_nodesOfAll_of_mem inList) isChild) inside

section

variable {library : Library} {forest : List Statement} (way : library.ExpandsTo forest) (sound : library.Sound)
  {final : SchemaTrees} {h : Growth} (done : way.augmented = (.ok final, h))
include way sound done

theorem Library.ExpandsTo.augmented_roots :
    ∀ t ∈ final, (∀ s ∈ t.2.statement.within, s.Below way.grown.next) ∧ t.2.augment = none := by
  intro t isTree
  constructor
  · have isRoot : (t.1, t.2.statement) ∈ way.trees.roots :=
      (way.ready sound).roots_after done ▸ List.mem_map_of_mem isTree
    obtain ⟨tree, isModule, same⟩ := List.mem_map.1 isRoot
    have inModules : tree.2 ∈ way.expansion.modules := (way.trees_spec sound).2 ▸ List.mem_map_of_mem isModule
    rw [← (Prod.mk.inj same).2]
    exact (way.below_modules sound tree.2 (mem_nodesOfAll_of_mem inModules)).statement
  · refine augmentAll_roots_unmarked done (fun tree isModule => ?_) t isTree
    have inModules : tree.2 ∈ way.expansion.modules := (way.trees_spec sound).2 ▸ List.mem_map_of_mem isModule
    obtain ⟨unmarked, -, -⟩ := expandForest_unmarked forest (library.modules.map (·.2)) ⟨library.next, [], way.log⟩
    rw [way.expanded] at unmarked
    exact unmarked _ (mem_stampedAll.2 ⟨tree.2, mem_nodesOfAll_of_mem inModules, rfl⟩)

theorem Library.ExpandsTo.augmented_stamps : ∀ t ∈ final, ∀ p ∈ t.2.stamped, Augmented way.grown.next p := by
  have ready := way.ready sound
  let IsCase : Statement → Prop := fun s => ∃ number node, s = caseFor number node
  obtain ⟨⟨fresh, grows⟩, roots, -⟩ := augmentAll_augments (P := IsCase) (fun number node => ⟨number, node, rfl⟩)
    ready.names ready.tree done
  have below : ∀ s ∈ toPlace way.trees way.expansion.augments, ∀ t ∈ s.within, t.Below way.grown.next := by
    intro s member
    rw [toPlace, way.below_trees sound, ← SchemaNode.placedAll_append, ← SchemaNode.nodesOfAll_statements,
      List.mem_map] at member
    obtain ⟨node, inside, rfl⟩ := member
    rw [← List.flatMap_append] at inside
    obtain ⟨tree, isTree, inTree⟩ := SchemaNode.mem_nodesOfAll.1 (mem_nodesOfAll_of_below inside)
    cases List.mem_append.1 isTree with
    | inl isModule => exact (way.below_modules sound node (SchemaNode.mem_nodesOfAll.2 ⟨tree, isModule, inTree⟩)).statement
    | inr isAugment =>
      exact (way.below_augments sound node (SchemaNode.mem_nodesOfAll.2 ⟨tree, isAugment, inTree⟩)).statement
  have isNew : ∀ s ∈ madeStatements fresh, way.grown.next ≤ s.id ∧ IsCase s := fun s member =>
    ⟨((grows.numbered.mem_iff s.id).1 (List.mem_map_of_mem member)).1, grows.lawful s member⟩
  intro t isTree p stamp
  rw [SchemaNode.stamped_eq, List.mem_cons] at stamp
  cases stamp with
  | inl isRoot =>
    obtain ⟨belowRoot, unmarked⟩ := way.augmented_roots sound done t isTree
    have number := (belowRoot _ (Statement.mem_within_self _)).id
    rw [isRoot]
    refine ⟨fun _ => belowRoot, fun since => ?_, fun i marked => ?_⟩
    · simp only at since
      omega
    · rw [unmarked] at marked
      cases marked
  | inr isBelow =>
    have placed : p.1 ∈ toPlace final [] := by
      rw [toPlace, List.flatMap_nil, SchemaNode.placedAll_nil, List.append_nil, SchemaTrees.below,
        ← SchemaNode.stampedAll_statements]
      refine List.mem_map_of_mem (stampedAll_subset (fun node member => ?_) isBelow)
      exact List.mem_flatMap.2 ⟨t, isTree, member⟩
    refine ⟨fun before => ?_, fun since => ?_, fun i marked => ?_⟩
    · cases grows.member _ placed with
      | inl isOld => exact below _ isOld
      | inr made =>
        have later := (isNew _ made).1
        omega
    · cases grows.member _ placed with
      | inl isOld =>
        have earlier := ready.numbered _ isOld
        omega
      | inr made => exact (isNew _ made).2
    · obtain ⟨node, inside, isStamp⟩ := mem_stampedAll.1 isBelow
      have inTrees : node ∈ nodesOfAll final.below := by
        obtain ⟨child, isChild, inChild⟩ := SchemaNode.mem_nodesOfAll.1 inside
        exact SchemaNode.mem_nodesOfAll.2 ⟨child, List.mem_flatMap.2 ⟨t, isTree, isChild⟩, inChild⟩
      rw [← isStamp] at marked
      obtain ⟨a, isAugment, rfl⟩ := ready.marks done node inTrees i marked
      exact ((way.below_augments sound a (mem_nodesOfAll_of_mem isAugment)).statement _ (Statement.mem_within_self _)).id

end

theorem SchemaTrees.bonds_reordered {τ : Nat → Nat} {trees trees' : SchemaTrees}
    (each : List.Forall₂ (fun t t' => t'.1 = t.1 ∧ t.2.Reordered (Restamped τ) t'.2) trees trees') :
    trees'.bonds.Perm (trees.bonds.map (Made.renumber τ)) := by
  induction each with
  | nil => exact .nil
  | @cons t t' _ _ here _ ih =>
    have sameRoot : t'.2.id = τ t.2.id := by
      have root := congrArg (fun p => p.1.id) here.2.here
      rwa [Statement.renumber_id] at root
    have inside := here.2.children.bonds t.2.id
    rw [← sameRoot] at inside
    rw [SchemaTrees.bonds, SchemaTrees.bonds, List.flatMap_cons, List.flatMap_cons, List.map_append]
    exact inside.append ih

namespace Library.Permutes

variable {library library' : Library} {kept : List Statement} (permutes : library.Permutes library' kept)
  {forest forest' : List Statement} {way : library.ExpandsTo forest} {way' : library'.ExpandsTo forest'}
  {ρ : Nat → Nat} (matched : way.Matches way' kept ρ) {final final' : SchemaTrees} {h h' : Growth}
  (done : way.augmented = (.ok final, h)) (done' : way'.augmented = (.ok final', h'))
include permutes matched done done'

/-- There is one renumbering for what was there before augmenting and for the cases that it made. -/
theorem exists_restamped (alike : final.Reordered (Matches ρ way.grown.next way'.grown.next) final') :
    ∃ τ m, (∀ i < way.grown.next, τ i = ρ i) ∧ m.Perm final' ∧
      List.Forall₂ (fun t t' => t'.1 = t.1 ∧ t.2.Reordered (Restamped τ) t'.2) final m ∧
      ∀ s ∈ placedAll final.below, way'.grown.next ≤ τ s.id ↔ way.grown.next ≤ s.id := by
  have ready := way.ready permutes.sound
  have ready' := way'.ready permutes.sound'
  have names : final.map (·.1) = way.trees.map (·.1) := by
    rw [← SchemaTrees.roots_names, ready.roots_after done, SchemaTrees.roots_names]
  have names' : final'.map (·.1) = way'.trees.map (·.1) := by
    rw [← SchemaTrees.roots_names, ready'.roots_after done', SchemaTrees.roots_names]
  have sameNames : (final.map (·.1)).Perm (final'.map (·.1)) := by
    have order := (permutes.trees_perm matched).map (·.1)
    rw [SchemaTrees.renumber, List.map_map] at order
    rw [names, names']
    exact order
  have nodup : (final.map (·.1)).Nodup := by
    rw [names]
    exact ready.names
  obtain ⟨m, each, order⟩ := alike.exists_forall₂ nodup sameNames
  obtain ⟨τ, agree, numbered⟩ := exists_renumbering each (ready.ids_nodup done) fun t isTree =>
    ((way.augmented_roots permutes.sound done t isTree).1 _ (Statement.mem_within_self _)).id
  refine ⟨τ, m, agree, order, ?_, fun s placed => ?_⟩
  · have stamped := (List.forall₂_and_left _ _).2 ⟨way.augmented_stamps permutes.sound done, numbered⟩
    exact stamped.imp fun t t' here => ⟨here.2.1, here.2.2.mono fun p isStamp p' same =>
      same.1.restamped agree (here.1 p isStamp) same.2⟩
  · obtain ⟨stamps, related, -⟩ := SchemaTrees.exists_stamped_below numbered
    rw [← SchemaNode.stampedAll_statements] at placed
    obtain ⟨p, isStamp, rfl⟩ := List.mem_map.1 placed
    have each : List.Forall₂ (fun p _ => (way'.grown.next ≤ τ p.1.id ↔ way.grown.next ≤ p.1.id) ∧ True)
        (stampedAll final.below) stamps := by
      refine related.imp fun p p' same => ⟨?_, trivial⟩
      rw [← same.2]
      cases same.1.statement with
      | inl isOld => omega
      | inr isNew => omega
    exact ((List.forall₂_and_left _ _).1 each).1 p isStamp

/-- The same statements are made in both orders. -/
theorem made_augmented {τ : Nat → Nat} {m : SchemaTrees} (agree : ∀ i < way.grown.next, τ i = ρ i)
    (order : m.Perm final')
    (each : List.Forall₂ (fun t t' => t'.1 = t.1 ∧ t.2.Reordered (Restamped τ) t'.2) final m)
    (since : ∀ s ∈ placedAll final.below, way'.grown.next ≤ τ s.id ↔ way.grown.next ≤ s.id) :
    (h.made.map (Made.renumber τ)).Perm h'.made := by
  obtain ⟨fresh, made, new, -⟩ := ((way.ready permutes.sound).casesSince done).made
  obtain ⟨fresh', made', new', -⟩ := ((way'.ready permutes.sound').casesSince done').made
  have before : way.grown.made.map (Made.renumber τ) = way.grown.made.map (Made.renumber ρ) := by
    refine List.map_congr_left fun m isMade => ?_
    have fixed := eq_of_map_eq_self (way.shift permutes.sound).2 m isMade
    rw [Made.renumber, Made.renumber, agree _ (lt_of_shiftFrom (congrArg Made.parent fixed)),
      Statement.renumber_congr agree _ (Statement.below_of_shift (congrArg Made.statement fixed))]
  have cases : (madeSince way.grown.next final.bonds).map (Made.renumber τ) =
      madeSince way'.grown.next (final.bonds.map (Made.renumber τ)) := by
    rw [madeSince, madeSince, List.filter_map]
    refine congrArg _ (List.filter_congr fun bond member => ?_)
    have placed : bond.statement ∈ placedAll final.below := by
      rw [← SchemaTrees.bonds_statements]
      exact List.mem_map_of_mem member
    simp [Made.renumber, since _ placed]
  have sameBonds : (final.bonds.map (Made.renumber τ)).Perm final'.bonds :=
    (SchemaTrees.bonds_reordered each).symm.trans (order.flatMap_right _)
  rw [made, made', List.map_append, before]
  refine (permutes.made_perm matched).append ?_
  calc fresh.map (Made.renumber τ)
    List.Perm _ ((madeSince way.grown.next final.bonds).map (Made.renumber τ)) := new.map _
    List.Perm _ (madeSince way'.grown.next (final.bonds.map (Made.renumber τ))) := .of_eq cases
    List.Perm _ (madeSince way'.grown.next final'.bonds) := sameBonds.filter _
    List.Perm _ fresh' := new'.symm

end Library.Permutes

end YangStubs.Schema
