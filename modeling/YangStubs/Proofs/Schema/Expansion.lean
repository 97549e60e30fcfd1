import YangStubs.Proofs.Schema.Growth

/-! # Expansion, step by step

The equations of the functions that grow the schema tree, and what each of them makes and places.
-/

namespace YangStubs.Schema

open Statement (coreOfAll)
open SchemaNode (placed placedAll)

variable {P : Statement → Prop}

/-! ## Placing nodes -/

/-- The case that a node gets right below a choice. -/
def caseFor (number : Nat) (node : SchemaNode) : Statement :=
  ⟨number, "case", node.statement.arg, node.statement.home, none, none, none, []⟩

theorem placeAt_run (site : Site) (node : SchemaNode) (g : Growth) :
    (placeAt site node).run g =
      if needsCase site node.keyword then
        (⟨caseFor g.next node, [node], node.augment⟩,
          { g with next := g.next + 1, made := g.made ++ [⟨site.id, caseFor g.next node⟩] })
      else (node, g) := by
  unfold placeAt
  split <;> rfl

/-- A property of statements that the cases made for nodes have. -/
def HoldsOfCases (P : Statement → Prop) : Prop :=
  ∀ number node, P (caseFor number node)

theorem holdsOfCases_true : HoldsOfCases fun _ => True := fun _ _ => trivial

/-- A property of statements that all copies of some statements have. -/
def HoldsOfCopies (P : Statement → Prop) (templates : List Statement) : Prop :=
  ∀ s ∈ templates, ∀ next, ∀ t ∈ (s.copyFrom next).1.within, P t

theorem placeAt_grows (ofCases : HoldsOfCases P) (site : Site) {node : SchemaNode}
    {own : List Statement} {g mid : Growth} {fresh : List Made} (grown : Grows P own g fresh node.placed mid) :
    ∃ fresh', Grows P own g fresh' ((placeAt site node).run mid).1.placed ((placeAt site node).run mid).2 := by
  rw [placeAt_run]
  split
  · let made : Made := ⟨site.id, caseFor mid.next node⟩
    suffices wrapped : Grows P node.placed mid [made]
        (SchemaNode.mk (caseFor mid.next node) [node] node.augment).placed
        { mid with next := mid.next + 1, made := mid.made ++ [made] } from
      ⟨_, grown.trans wrapped⟩
    have inside : madeStatements [made] = [caseFor mid.next node] := by
      rw [madeStatements_single, Statement.within_eq]
      rfl
    have shape : (SchemaNode.mk (caseFor mid.next node) [node] node.augment).placed =
        caseFor mid.next node :: node.placed := by
      simp [SchemaNode.placed_eq]
    refine ⟨rfl, Statement.numbered_cons rfl (Statement.numbered_nil _) (Statement.numbered_nil _),
      rfl, ?_, ?_, ?_, ?_⟩
    · intro i
      rw [shape, inside, Statement.countOf_cons]
      omega
    · intro s member
      rw [shape, List.mem_cons] at member
      rw [inside, List.mem_singleton]
      exact member.symm
    · intro s member
      rw [shape, List.mem_cons] at member
      rcases member with rfl | member
      · exact (by decide : isTreeKeyword "case" = true)
      · exact grown.tree s member
    · intro s member
      rw [inside, List.mem_singleton] at member
      exact member ▸ ofCases mid.next node
  · exact ⟨fresh, grown⟩

/-! ## Growing nodes -/

theorem grow_run (expand : Expander) (busy : List Nat) (s : Statement) (g : Growth) :
    (grow expand busy s).run g =
      if isSchemaNode s.keyword then
        (⟨s, ((growAll expand busy s.site s.subs).run g).1, none⟩, ((growAll expand busy s.site s.subs).run g).2)
      else (⟨s, [], none⟩, g) := by
  cases s
  simp only [grow]
  split <;> rfl

/-- What one statement brings to a site, where `one` makes the node of a definition. -/
def contribution (expand : Expander) (one : Statement → StateM Growth SchemaNode) (busy : List Nat)
    (site : Site) (s : Statement) : StateM Growth (List SchemaNode) :=
  if s.keyword == "uses" then expand busy site s
  else if isTreeKeyword s.keyword then do
    let node ← one s
    let placed ← placeAt site node
    pure [placed]
  else pure []

section Contribution

variable {expand : Expander} {one : Statement → StateM Growth SchemaNode} {busy : List Nat}
  {site : Site} {s : Statement}

theorem contribution_uses (isUses : s.keyword = "uses") :
    contribution expand one busy site s = expand busy site s := by
  simp [contribution, isUses]

theorem contribution_tree (tree : isTreeKeyword s.keyword = true) (g : Growth) :
    (contribution expand one busy site s).run g =
      (let node := (one s).run g
       let placed := (placeAt site node.1).run node.2
       ([placed.1], placed.2)) := by
  have notUses : s.keyword ≠ "uses" := by
    intro isUses
    rw [isUses] at tree
    exact absurd tree (by decide)
  simp only [contribution, beq_iff_eq, notUses, if_false, tree, if_true]
  rfl

theorem contribution_other (notUses : s.keyword ≠ "uses") (notTree : ¬ isTreeKeyword s.keyword) :
    contribution expand one busy site s = pure [] := by
  simp [contribution, notUses, notTree]

end Contribution

theorem growAll_cons_run (expand : Expander) (busy : List Nat) (site : Site) (s : Statement)
    (rest : List Statement) (g : Growth) :
    (growAll expand busy site (s :: rest)).run g =
      (let here := (contribution expand (grow expand busy) busy site s).run g
       let others := (growAll expand busy site rest).run here.2
       (here.1 ++ others.1, others.2)) := by
  simp only [growAll, contribution]
  split
  · rfl
  · split <;> rfl

/-- The node of a copy that is made for a site. -/
def growCopy (expand : Expander) (busy : List Nat) (site : Site) (s : Statement) : StateM Growth SchemaNode := do
  let copy ← copyTo site s
  grow expand busy copy

theorem copyAllTo_cons_run (expand : Expander) (busy : List Nat) (site : Site) (s : Statement)
    (rest : List Statement) (g : Growth) :
    (copyAllTo expand busy site (s :: rest)).run g =
      (let here := (contribution expand (growCopy expand busy site) busy site s).run g
       let others := (copyAllTo expand busy site rest).run here.2
       (here.1 ++ others.1, others.2)) := by
  simp only [copyAllTo, contribution, growCopy]
  split
  · rfl
  · split <;> rfl

theorem growCopy_run (expand : Expander) (busy : List Nat) (site : Site) (s : Statement)
    (g : Growth) :
    (growCopy expand busy site s).run g =
      (grow expand busy (s.copyFrom g.next).1).run
        { g with
          next := (s.copyFrom g.next).2
          made := g.made ++ [⟨site.id, (s.copyFrom g.next).1⟩] } := rfl

/-- The grouping that a `uses` statement stands for. -/
def groupingOf? (groupings : List Statement) (uses : Statement) : Option Statement :=
  uses.grouping.bind fun id => groupings.find? (·.id == id)

theorem groupingOf?_mem {groupings : List Statement} {uses grouping : Statement}
    (found : groupingOf? groupings uses = some grouping) : grouping ∈ groupings := by
  obtain ⟨id, -, atId⟩ := Option.bind_eq_some_iff.1 found
  exact List.mem_of_find?_eq_some atId

theorem expander_run (groupings : List Statement) (bound : Nat) (busy : List Nat) (site : Site)
    (uses : Statement) (g : Growth) :
    (expander groupings (bound + 1) busy site uses).run g =
      match groupingOf? groupings uses with
      | none => ([], g)
      | some grouping =>
        if busy.contains grouping.id then ([], ((reportRecursiveUse uses).run g).2)
        else (copyAllTo (expander groupings bound) (grouping.id :: busy) site grouping.subs).run g := by
  simp only [expander, ← groupingOf?.eq_1]
  cases groupingOf? groupings uses with
  | none => rfl
  | some grouping =>
    simp only
    split <;> rfl

/-- An expander does nothing but grow: what it places, it makes. -/
def Expander.Growing (P : Statement → Prop) (expand : Expander) : Prop :=
  ∀ busy site uses g, ∃ fresh, Grows P [] g fresh (placedAll ((expand busy site uses).run g).1)
    ((expand busy site uses).run g).2

theorem contribution_grows (ofCases : HoldsOfCases P) {expand : Expander}
    (growing : expand.Growing P)
    (one : Statement → StateM Growth SchemaNode) (busy : List Nat) (site : Site) {s : Statement}
    (own : List Statement) (g : Growth)
    (single : isTreeKeyword s.keyword → ∃ fresh, Grows P own g fresh ((one s).run g).1.placed ((one s).run g).2) :
    ∃ fresh, Grows P (if isTreeKeyword s.keyword then own else []) g fresh
      (placedAll ((contribution expand one busy site s).run g).1)
      ((contribution expand one busy site s).run g).2 := by
  by_cases isUses : s.keyword = "uses"
  · rw [contribution_uses isUses, isUses, if_neg (by decide)]
    exact growing busy site s g
  · by_cases tree : isTreeKeyword s.keyword = true
    · obtain ⟨fresh, grown⟩ := single tree
      obtain ⟨fresh', placed⟩ := placeAt_grows ofCases site grown
      rw [contribution_tree tree, if_pos tree]
      exact ⟨fresh', by simpa using placed⟩
    · rw [contribution_other isUses tree, if_neg tree]
      exact ⟨[], Grows.idle rfl rfl⟩

/-- A definition whose inside has grown. -/
theorem Grows.root {s : Statement} {own placed : List Statement} {g g' : Growth} {fresh : List Made}
    (tree : isTreeKeyword s.keyword) (below : Grows P own g fresh placed g') :
    Grows P (s :: own) g fresh (s :: placed) g' := by
  have here : Grows P [s] g [] [s] g := Grows.keep [s] (by simpa using tree) g
  simpa using here.append below

theorem Grows.node {s : Statement} {node : SchemaNode} {g g' : Growth} {fresh : List Made}
    (same : node.statement = s) (tree : isTreeKeyword s.keyword)
    (below : Grows P s.coreBelow g fresh (placedAll node.children) g') :
    Grows P s.core g fresh node.placed g' := by
  rw [SchemaNode.placed_eq, same, Statement.core_eq]
  exact below.root tree

mutual
theorem grow_grows (ofCases : HoldsOfCases P) {expand : Expander} (growing : expand.Growing P)
    (busy : List Nat) :
    ∀ (s : Statement) (g : Growth), ((grow expand busy s).run g).1.statement = s ∧
      ∃ fresh, Grows P s.coreBelow g fresh (placedAll ((grow expand busy s).run g).1.children)
        ((grow expand busy s).run g).2
  | ⟨id, keyword, arg, home, origin, grouping, typedef, subs⟩, g => by
    rw [grow_run]
    simp only [Statement.coreBelow]
    split
    · exact ⟨rfl, growAll_grows ofCases growing busy ⟨id, keyword⟩ subs g⟩
    · exact ⟨rfl, [], Grows.idle rfl rfl⟩

/-- The nodes that substatements bring to a site are theirs or copies. -/
theorem growAll_grows (ofCases : HoldsOfCases P) {expand : Expander} (growing : expand.Growing P)
    (busy : List Nat) (site : Site) :
    ∀ (l : List Statement) (g : Growth), ∃ fresh,
      Grows P (coreOfAll l) g fresh (placedAll ((growAll expand busy site l).run g).1)
        ((growAll expand busy site l).run g).2
  | [], g => ⟨[], Grows.idle rfl rfl⟩
  | s :: rest, g => by
    rw [growAll_cons_run, Statement.coreOfAll_cons]
    simp only [SchemaNode.placedAll_append]
    obtain ⟨sameStatement, inner, below⟩ := grow_grows ofCases growing busy s g
    obtain ⟨fresh, here⟩ := contribution_grows ofCases growing (grow expand busy) busy site s.core g
      fun tree => ⟨inner, below.node sameStatement tree⟩
    obtain ⟨fresh', others⟩ := growAll_grows ofCases growing busy site rest
      ((contribution expand (grow expand busy) busy site s).run g).2
    exact ⟨fresh ++ fresh', here.append others⟩
end

/-- The node of a copy consists of the copy and of what grows inside it. -/
theorem growCopy_grows (ofCases : HoldsOfCases P) {expand : Expander} (growing : expand.Growing P)
    (busy : List Nat) (site : Site) {s : Statement} (ofCopies : HoldsOfCopies P [s])
    (tree : isTreeKeyword s.keyword) (g : Growth) :
    ∃ fresh, Grows P [] g fresh ((growCopy expand busy site s).run g).1.placed
      ((growCopy expand busy site s).run g).2 := by
  rw [growCopy_run]
  let copy := (s.copyFrom g.next).1
  let made : Made := ⟨site.id, copy⟩
  let mid : Growth := { g with next := (s.copyFrom g.next).2, made := g.made ++ [made] }
  have tree : isTreeKeyword copy.keyword := by cases s; exact tree
  obtain ⟨sameStatement, fresh, below⟩ := grow_grows ofCases growing busy copy mid
  have copied : Grows P [] g [made] copy.core mid := by
    refine ⟨rfl, Statement.copyFrom_numbered g.next s, ?_, ?_, ?_, ?_, ?_⟩
    · simp [made, copy, mid, Statement.copyFrom_next, Statement.copyFrom_size]
    · intro i
      rw [madeStatements_single]
      have fewer := Statement.countOf_sublist i (Statement.core_sublist copy)
      simpa using fewer
    · intro t member
      rw [madeStatements_single]
      exact .inr ((Statement.core_sublist copy).subset member)
    · intro t member
      rw [Statement.core_eq, List.mem_cons] at member
      rcases member with rfl | member
      · exact tree
      · exact Statement.coreBelow_tree _ t member
    · intro t member
      rw [madeStatements_single] at member
      exact ofCopies s (List.mem_singleton_self s) g.next t member
  exact ⟨_, copied.trans (below.node sameStatement tree)⟩

theorem copyAllTo_grows (ofCases : HoldsOfCases P) {expand : Expander} (growing : expand.Growing P)
    (busy : List Nat) (site : Site) (l : List Statement) :
    HoldsOfCopies P l → ∀ g : Growth, ∃ fresh,
      Grows P [] g fresh (placedAll ((copyAllTo expand busy site l).run g).1)
      ((copyAllTo expand busy site l).run g).2 := by
  induction l with
  | nil => exact fun _ g => ⟨[], Grows.idle rfl rfl⟩
  | cons s rest ih =>
    intro ofCopies g
    rw [copyAllTo_cons_run]
    simp only [SchemaNode.placedAll_append]
    obtain ⟨fresh, here⟩ := contribution_grows ofCases growing (growCopy expand busy site) busy site [] g
      fun tree => growCopy_grows ofCases growing busy site
        (fun t member => ofCopies t (List.mem_cons.2 (.inl (List.mem_singleton.1 member)))) tree g
    obtain ⟨fresh', others⟩ := ih (fun t member => ofCopies t (List.mem_cons_of_mem _ member))
      ((contribution expand (growCopy expand busy site) busy site s).run g).2
    exact ⟨fresh ++ fresh', by simpa using here.append others⟩

/-- Whatever the bound, expanding only grows the tree. -/
theorem expander_growing (ofCases : HoldsOfCases P) {groupings : List Statement}
    (ofCopies : ∀ grouping ∈ groupings, HoldsOfCopies P grouping.subs) :
    ∀ bound, (expander groupings bound).Growing P
  | 0 => fun _ _ _ _ => ⟨[], Grows.idle rfl rfl⟩
  | bound + 1 => by
    intro busy site uses g
    rw [expander_run]
    cases found : groupingOf? groupings uses with
    | none => exact ⟨[], Grows.idle rfl rfl⟩
    | some grouping =>
      simp only
      split
      · exact ⟨[], Grows.idle rfl rfl⟩
      · exact copyAllTo_grows ofCases (expander_growing ofCases ofCopies bound) _ site _
          (ofCopies grouping (groupingOf?_mem found)) g

theorem expander_growing_true (groupings : List Statement) (bound : Nat) :
    (expander groupings bound).Growing fun _ => True :=
  expander_growing holdsOfCases_true (fun _ _ _ _ _ _ _ => trivial) bound

/-! ## Modules, groupings and augments -/

theorem growModules_cons_run (expand : Expander) (s : Statement) (rest : List Statement) (g : Growth) :
    (growModules expand (s :: rest)).run g =
      (let node := (grow expand [] s).run g
       let others := (growModules expand rest).run node.2
       (node.1 :: others.1, others.2)) := rfl

theorem growModules_grows (ofCases : HoldsOfCases P) {expand : Expander} (growing : expand.Growing P)
    (tops : List Statement) :
    ∀ g : Growth, ((growModules expand tops).run g).1.map (·.statement) = tops ∧
      ∃ fresh, Grows P (tops.flatMap (·.coreBelow)) g fresh
        (placedAll (((growModules expand tops).run g).1.flatMap (·.children)))
        ((growModules expand tops).run g).2 := by
  induction tops with
  | nil => exact fun g => ⟨rfl, [], Grows.idle rfl rfl⟩
  | cons s rest ih =>
    intro g
    obtain ⟨sameStatement, fresh, here⟩ := grow_grows ofCases growing [] s g
    obtain ⟨sameRest, fresh', others⟩ := ih ((grow expand [] s).run g).2
    rw [growModules_cons_run]
    simp only [List.map_cons, List.flatMap_cons, SchemaNode.placedAll_append]
    exact ⟨by rw [sameStatement, sameRest], fresh ++ fresh', here.append others⟩

/-- The groupings in a listing. -/
def groupingsAmong (listing : List Statement.Placed) : List Statement :=
  (listing.map (·.statement)).filter (·.keyword == "grouping")

/-- The augments at the top level of a module in a listing. -/
def topAugments (listing : List Statement.Placed) : List Statement :=
  (listing.filter isTopAugment).map (·.statement)

theorem groupingsAmong_cons (s : Statement.Placed) (rest : List Statement.Placed) :
    groupingsAmong (s :: rest) =
      if s.statement.keyword == "grouping" then s.statement :: groupingsAmong rest
      else groupingsAmong rest := by
  simp only [groupingsAmong, List.map_cons, List.filter_cons]

theorem topAugments_cons (s : Statement.Placed) (rest : List Statement.Placed) :
    topAugments (s :: rest) =
      if isTopAugment s then s.statement :: topAugments rest else topAugments rest := by
  simp only [topAugments, List.filter_cons]
  split <;> rfl

theorem growDefinitions_cons_run (expand : Expander) (s : Statement.Placed)
    (rest : List Statement.Placed) (g : Growth) :
    (growDefinitions expand (s :: rest)).run g =
      if s.statement.keyword == "grouping" then
        (let node := (grow expand [s.statement.id] s.statement).run g
         let others := (growDefinitions expand rest).run node.2
         ((node.1 :: others.1.1, others.1.2), others.2))
      else if isTopAugment s then
        (let node := (grow expand [] s.statement).run g
         let others := (growDefinitions expand rest).run node.2
         ((others.1.1, node.1 :: others.1.2), others.2))
      else (growDefinitions expand rest).run g := by
  simp only [growDefinitions]
  split
  · rfl
  · split <;> rfl

theorem growDefinitions_grows (ofCases : HoldsOfCases P) {expand : Expander} (growing : expand.Growing P)
    (listing : List Statement.Placed) :
    ∀ g : Growth, let r := (growDefinitions expand listing).run g
      r.1.1.map (·.statement) = groupingsAmong listing ∧
      r.1.2.map (·.statement) = topAugments listing ∧
      ∃ fresh, Grows P ((groupingsAmong listing ++ topAugments listing).flatMap (·.coreBelow)) g fresh
        (placedAll ((r.1.1 ++ r.1.2).flatMap (·.children))) r.2 := by
  induction listing with
  | nil => exact fun g => ⟨rfl, rfl, [], Grows.idle rfl rfl⟩
  | cons s rest ih =>
    intro g
    rw [growDefinitions_cons_run]
    rw [groupingsAmong_cons, topAugments_cons]
    by_cases isGrouping : s.statement.keyword = "grouping"
    · have notAugment : isTopAugment s = false := by simp [isTopAugment, isGrouping]
      obtain ⟨sameStatement, fresh, here⟩ := grow_grows ofCases growing [s.statement.id] s.statement g
      obtain ⟨sameGroupings, sameAugments, fresh', others⟩ := ih ((grow expand [s.statement.id] s.statement).run g).2
      simp only [isGrouping, beq_self_eq_true, if_true, notAugment, Bool.false_eq_true, if_false,
        List.map_cons, List.cons_append, List.flatMap_cons, SchemaNode.placedAll_append]
      exact ⟨by rw [sameStatement, sameGroupings], sameAugments, fresh ++ fresh', here.append others⟩
    · by_cases isAugment : isTopAugment s = true
      · obtain ⟨sameStatement, fresh, here⟩ := grow_grows ofCases growing [] s.statement g
        obtain ⟨sameGroupings, sameAugments, fresh', others⟩ := ih ((grow expand [] s.statement).run g).2
        simp only [beq_iff_eq, isGrouping, if_false, isAugment, if_true, List.map_cons]
        refine ⟨sameGroupings, by rw [sameStatement, sameAugments], fresh ++ fresh', ?_⟩
        -- The augment has grown before the groupings after it, but is listed after all groupings.
        refine (here.append others).perm ?_ ?_
        · exact (List.Perm.flatMap_right Statement.coreBelow List.perm_middle).symm
        · rw [← SchemaNode.placedAll_append, SchemaNode.placedAll_eq_flatMap,
            SchemaNode.placedAll_eq_flatMap]
          exact (List.Perm.flatMap_right SchemaNode.children List.perm_middle).symm.flatMap_right placed
      · simp only [beq_iff_eq, isGrouping, if_false, isAugment, Bool.false_eq_true]
        exact ih g

/-- The statements of the modules, in load order. -/
def topsOf (forest : List Statement) (modules : List Nat) : List Statement :=
  modules.filterMap fun id => forest.find? (·.id == id)

/-- The groupings of a forest, in the order of their numbers. -/
def groupingsOfForest (forest : List Statement) : List Statement :=
  groupingsAmong (Statement.listingOfAll none none forest)

/-- The augments of a forest that are applied, in the order of their numbers. -/
def augmentsOfForest (forest : List Statement) : List Statement :=
  topAugments (Statement.listingOfAll none none forest)

/-- What expands the `uses` statements of a forest. -/
def forestExpander (forest : List Statement) : Expander :=
  expander (groupingsOfForest forest) (groupingsOfForest forest).length

theorem expandForest_run (forest : List Statement) (modules : List Nat) (g : Growth) :
    (expandForest forest modules).run g =
      (let tops := (growModules (forestExpander forest) (topsOf forest modules)).run g
       let definitions := (growDefinitions (forestExpander forest)
         (Statement.listingOfAll none none forest)).run tops.2
       (⟨tops.1, definitions.1.1, definitions.1.2⟩, definitions.2)) := rfl

/-- The nodes from which the expansion of a forest starts, with their statements. -/
structure Expansion.Roots (expansion : Expansion) (forest : List Statement) (modules : List Nat) :
    Prop where
  modules : expansion.modules.map (·.statement) = topsOf forest modules
  groupings : expansion.groupings.map (·.statement) = groupingsOfForest forest
  augments : expansion.augments.map (·.statement) = augmentsOfForest forest

/-- All nodes right below the roots of an expansion. -/
def Expansion.below (expansion : Expansion) : List SchemaNode :=
  expansion.modules.flatMap (·.children) ++ expansion.groupings.flatMap (·.children) ++
    expansion.augments.flatMap (·.children)

/-- All statements from which the expansion of a forest starts. -/
def rootStatements (forest : List Statement) (modules : List Nat) : List Statement :=
  topsOf forest modules ++ groupingsOfForest forest ++ augmentsOfForest forest

theorem expandForest_grows (ofCases : HoldsOfCases P) (forest : List Statement) (modules : List Nat)
    (ofCopies : ∀ grouping ∈ groupingsOfForest forest, HoldsOfCopies P grouping.subs) (g : Growth) :
    ((expandForest forest modules).run g).1.Roots forest modules ∧
      ∃ fresh, Grows P ((rootStatements forest modules).flatMap (·.coreBelow)) g fresh
        (placedAll ((expandForest forest modules).run g).1.below)
        ((expandForest forest modules).run g).2 := by
  rw [expandForest_run]
  have growing : (forestExpander forest).Growing P := expander_growing ofCases ofCopies _
  obtain ⟨sameTops, fresh, tops⟩ := growModules_grows ofCases growing (topsOf forest modules) g
  obtain ⟨sameGroupings, sameAugments, fresh', definitions⟩ := growDefinitions_grows ofCases growing
    (Statement.listingOfAll none none forest)
    ((growModules (forestExpander forest) (topsOf forest modules)).run g).2
  refine ⟨⟨sameTops, sameGroupings, sameAugments⟩, fresh ++ fresh', ?_⟩
  have both := tops.append definitions
  simpa only [rootStatements, groupingsOfForest, augmentsOfForest, Expansion.below,
    List.flatMap_append, SchemaNode.placedAll_append, List.append_assoc] using both

end YangStubs.Schema
