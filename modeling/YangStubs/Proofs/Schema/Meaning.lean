import YangStubs.Proofs.Schema.Resolved

/-! # What expanding means

The schema tree of a statement is defined here without numbers, states and bounds: `meaning` takes the
substatements in order, and every grouping is open while what it brings in is expanded.  Expanding computes
this tree, up to the numbers of the statements that it makes.
-/

namespace YangStubs.Schema

open Statement (withinAll)

/-! ## Numbers taken out -/

mutual
/-- The statement with the numbers from `start` on taken out. -/
def Statement.forget (start : Nat) : Statement → Statement
  | ⟨id, keyword, arg, home, origin, grouping, typedef, subs⟩ =>
    ⟨if id < start then id else 0, keyword, arg, home, origin, grouping, typedef, Statement.forgetAll start subs⟩

/-- The statements with the numbers from `start` on taken out. -/
def Statement.forgetAll (start : Nat) : List Statement → List Statement
  | [] => []
  | s :: rest => s.forget start :: forgetAll start rest
end

mutual
/-- The tree with the numbers from `start` on taken out. -/
def SchemaNode.forget (start : Nat) : SchemaNode → SchemaNode
  | ⟨statement, children, augment⟩ =>
    ⟨statement.forget start, SchemaNode.forgetAll start children, augment⟩

/-- The trees with the numbers from `start` on taken out. -/
def SchemaNode.forgetAll (start : Nat) : List SchemaNode → List SchemaNode
  | [] => []
  | node :: rest => node.forget start :: forgetAll start rest
end

mutual
/-- A copy of a statement that was read, without a number of its own: it remembers the statement. -/
def Statement.copied : Statement → Statement
  | ⟨id, keyword, arg, home, _, grouping, typedef, subs⟩ =>
    ⟨0, keyword, arg, home, some id, grouping, typedef, Statement.copiedAll subs⟩

/-- Copies of statements that were read. -/
def Statement.copiedAll : List Statement → List Statement
  | [] => []
  | s :: rest => s.copied :: copiedAll rest
end

namespace SchemaNode

theorem forgetAll_eq_map (start : Nat) (nodes : List SchemaNode) :
    forgetAll start nodes = nodes.map (·.forget start) := by
  induction nodes with
  | nil => rfl
  | cons node rest ih => rw [forgetAll, List.map_cons, ih]

theorem forget_statement (start : Nat) (node : SchemaNode) :
    (node.forget start).statement = node.statement.forget start := by
  cases node; rfl

end SchemaNode

namespace Statement

variable (start : Nat)

@[simp] theorem forget_keyword (s : Statement) : (s.forget start).keyword = s.keyword := by
  cases s; rfl

@[simp] theorem forget_grouping (s : Statement) : (s.forget start).grouping = s.grouping := by
  cases s; rfl

@[simp] theorem copied_keyword (s : Statement) : s.copied.keyword = s.keyword := by
  cases s; rfl

@[simp] theorem copied_grouping (s : Statement) : s.copied.grouping = s.grouping := by
  cases s; rfl

variable {start}

mutual
theorem forget_of_lt : ∀ s : Statement, (∀ t ∈ s.within, t.id < start) → s.forget start = s
  | ⟨id, keyword, arg, home, origin, grouping, typedef, subs⟩, below => by
    have here : id < start := below _ (mem_within_self _)
    have inside := forgetAll_of_lt subs fun t member => below t (List.mem_cons_of_mem _ member)
    simp only [forget, if_pos here, inside]

theorem forgetAll_of_lt :
    ∀ l : List Statement, (∀ t ∈ withinAll l, t.id < start) → forgetAll start l = l
  | [], _ => rfl
  | s :: rest, below => by
    rw [forgetAll, forget_of_lt s fun t member => below t (List.mem_append_left _ member),
      forgetAll_of_lt rest fun t member => below t (List.mem_append_right _ member)]
end

mutual
theorem copyFrom_forget :
    ∀ (s : Statement) {next : Nat}, start ≤ next → (∀ t ∈ s.within, t.origin = none) →
      (s.copyFrom next).1.forget start = s.copied
  | ⟨id, keyword, arg, home, origin, grouping, typedef, subs⟩, next, later, read => by
    have made : ¬ next < start := by omega
    have isRead : origin = none := read _ (mem_within_self _)
    have inside := copyAllFrom_forget subs (Nat.le_succ_of_le later) fun t member =>
      read t (List.mem_cons_of_mem _ member)
    simp only [copyFrom, forget, if_neg made, isRead, Option.getD_none, inside, copied]

/-- Copies of what was read differ from it in their numbers and in what they remember. -/
theorem copyAllFrom_forget :
    ∀ (l : List Statement) {next : Nat}, start ≤ next → (∀ t ∈ withinAll l, t.origin = none) →
      forgetAll start (copyAllFrom next l).1 = copiedAll l
  | [], _, _, _ => rfl
  | s :: rest, next, later, read => by
    have here := copyFrom_forget s later fun t member => read t (List.mem_append_left _ member)
    have afterwards : start ≤ (s.copyFrom next).2 := by
      rw [copyFrom_next]
      omega
    have others := copyAllFrom_forget rest afterwards fun t member =>
      read t (List.mem_append_right _ member)
    simp only [copyAllFrom, forgetAll, here, others, copiedAll]
end

end Statement

/-! ## The meaning of a statement -/

/-- The node as it stands below a statement with the keyword `above`: a data definition right below a
    choice is in a case of its own name, unless it is a case. -/
def inCase (above : String) (node : SchemaNode) : SchemaNode :=
  if above = "choice" ∧ node.keyword ≠ "case" ∧ isDataDefinition node.keyword then
    ⟨⟨0, "case", node.statement.arg, node.statement.home, none, none, none, []⟩, [node], node.augment⟩
  else node

/-- How many groupings are not open. -/
def unopened (groupings : List Statement) (opened : List Nat) : Nat :=
  (groupings.filter fun g => !opened.contains g.id).length

theorem unopened_lt {groupings : List Statement} {opened : List Nat} {g : Statement}
    (member : g ∈ groupings) (notOpen : g.id ∉ opened) :
    unopened groupings (g.id :: opened) < unopened groupings opened := by
  refine length_filter_lt (fun t _ kept => ?_) member (by simpa using notOpen) (by simp)
  simp only [List.contains_cons, Bool.not_or, Bool.and_eq_true] at kept
  exact kept.2

section Meaning

variable (opens : String → Bool) (groupings : List Statement)

mutual
/-- The schema tree of a statement while some groupings are open.  Nodes are below statements whose
    keyword `opens`. -/
def meaning (opened : List Nat) : Statement → SchemaNode
  | ⟨id, keyword, arg, home, origin, grouping, typedef, subs⟩ =>
    ⟨⟨id, keyword, arg, home, origin, grouping, typedef, subs⟩,
      if opens keyword then meaningOfAll opened keyword subs else [], none⟩
termination_by s => (unopened groupings opened, sizeOf s)

/-- The schema trees that substatements bring to a statement with the keyword `above`.  A `uses` brings what
    copies of the grouping's substatements bring while the grouping is open, too; nothing if it is open
    already. -/
def meaningOfAll (opened : List Nat) (above : String) : List Statement → List SchemaNode
  | [] => []
  | s :: rest =>
    (if s.keyword = "uses" then
      match _ : groupingOf? groupings s with
      | none => []
      | some g =>
        if _ : g.id ∈ opened then []
        else meaningOfAll (g.id :: opened) above (Statement.copiedAll g.subs)
    else if isTreeKeyword s.keyword then [inCase above (meaning opened s)]
    else []) ++ meaningOfAll opened above rest
termination_by l => (unopened groupings opened, sizeOf l)
decreasing_by
  -- A copy may be larger than the `uses` it replaces, but one grouping less is left to open.
  · rename_i found notOpen
    exact Prod.Lex.left _ _ (unopened_lt (groupingOf?_mem found) notOpen)
  all_goals exact Prod.Lex.right _ (by simp; try omega)
end

/-- The schema trees that a `uses` brings to a statement with the keyword `above`. -/
def usesMeaning (opened : List Nat) (above : String) (uses : Statement) : List SchemaNode :=
  match groupingOf? groupings uses with
  | none => []
  | some g =>
    if g.id ∈ opened then []
    else meaningOfAll opens groupings (g.id :: opened) above (Statement.copiedAll g.subs)

/-- The schema trees that one substatement brings. -/
def meaningOfSub (opened : List Nat) (above : String) (s : Statement) : List SchemaNode :=
  if s.keyword = "uses" then usesMeaning opens groupings opened above s
  else if isTreeKeyword s.keyword then [inCase above (meaning opens groupings opened s)]
  else []

theorem meaning_eq (opened : List Nat) (s : Statement) :
    meaning opens groupings opened s =
      ⟨s, if opens s.keyword then meaningOfAll opens groupings opened s.keyword s.subs else [], none⟩ := by
  cases s
  rw [meaning]

theorem meaningOfAll_nil (opened : List Nat) (above : String) : meaningOfAll opens groupings opened above [] = [] := by
  rw [meaningOfAll]

theorem meaningOfAll_cons (opened : List Nat) (above : String) (s : Statement)
    (rest : List Statement) :
    meaningOfAll opens groupings opened above (s :: rest) =
      meaningOfSub opens groupings opened above s ++ meaningOfAll opens groupings opened above rest := by
  rw [meaningOfAll, meaningOfSub, usesMeaning]
  congr 2
  cases groupingOf? groupings s with
  | none => rfl
  | some g => simp only [dite_eq_ite]

end Meaning

/-! ## Expanding computes the meaning -/

/-- A step after which numbers are at least `start` if they were before, and whose answer looks like the
    value. -/
def Yields {α β : Type} (start : Nat) (view : α → β) (x : StateM Growth α) (value : β) : Prop :=
  ∀ g : Growth, start ≤ g.next → view (x.run g).1 = value ∧ start ≤ (x.run g).2.next

section Yields

variable {start : Nat} {groupings : List Statement}

theorem placeAt_yields (site : Site) (node : SchemaNode) :
    Yields start (·.forget start) (placeAt site node) (inCase site.keyword (node.forget start)) := by
  intro g later
  have made : ¬ g.next < start := by omega
  have sameKeyword : (node.forget start).keyword = node.keyword := by
    rw [SchemaNode.keyword, SchemaNode.forget_statement, Statement.forget_keyword]
    rfl
  rw [placeAt_run, inCase, sameKeyword]
  by_cases needed : needsCase site node.keyword = true
  · have cased : site.keyword = "choice" ∧ node.keyword ≠ "case" ∧ isDataDefinition node.keyword := by
      simpa [needsCase, and_assoc] using needed
    rw [if_pos needed, if_pos cased]
    refine ⟨?_, Nat.le_succ_of_le later⟩
    obtain ⟨⟨id, keyword, arg, home, origin, grouping, typedef, subs⟩, children, augment⟩ := node
    simp [SchemaNode.forget, SchemaNode.forgetAll, Statement.forget, Statement.forgetAll, caseFor, made]
  · have plain : ¬ (site.keyword = "choice" ∧ node.keyword ≠ "case" ∧ isDataDefinition node.keyword) := by
      simpa [needsCase, and_assoc] using needed
    rw [if_neg needed, if_neg plain]
    exact ⟨rfl, later⟩

/-- An expander brings what a `uses` means while the groupings `busy` are open. -/
def Expander.Means (start : Nat) (groupings : List Statement) (expand : Expander) (busy : List Nat) :
    Prop :=
  ∀ site uses, Yields start (List.map (·.forget start)) (expand busy site uses)
    (usesMeaning isSchemaNode groupings busy site.keyword uses)

/-- One substatement brings what it means, be it that `one` makes the node of the statement itself or of a
    copy. -/
theorem contribution_yields {expand : Expander} {busy : List Nat}
    (means : expand.Means start groupings busy)
    {one : Statement → StateM Growth SchemaNode} {s s' : Statement}
    (sameKeyword : s'.keyword = s.keyword) (sameGrouping : s'.grouping = s.grouping)
    (single : Yields start (·.forget start) (one s) (meaning isSchemaNode groupings busy s')) (site : Site) :
    Yields start (List.map (·.forget start)) (contribution expand one busy site s)
      (meaningOfSub isSchemaNode groupings busy site.keyword s') := by
  intro g later
  rw [meaningOfSub, sameKeyword]
  by_cases isUses : s.keyword = "uses"
  · have sameUses : usesMeaning isSchemaNode groupings busy site.keyword s' =
        usesMeaning isSchemaNode groupings busy site.keyword s := by
      rw [usesMeaning, usesMeaning, groupingOf?, groupingOf?, sameGrouping]
    rw [contribution_uses isUses, if_pos isUses, sameUses]
    exact means site s g later
  · rw [if_neg isUses]
    by_cases tree : isTreeKeyword s.keyword = true
    · obtain ⟨node, mid⟩ := single g later
      obtain ⟨placed, last⟩ := placeAt_yields site ((one s).run g).1 _ mid
      rw [contribution_tree tree, if_pos tree]
      refine ⟨?_, last⟩
      rw [← node]
      exact congrArg (fun n => [n]) placed
    · rw [contribution_other isUses tree, if_neg tree]
      exact ⟨rfl, later⟩

mutual
theorem grow_yields {expand : Expander} {busy : List Nat} (means : expand.Means start groupings busy) :
    ∀ s : Statement, Yields start (·.forget start) (grow expand busy s)
      (meaning isSchemaNode groupings busy (s.forget start))
  | ⟨id, keyword, arg, home, origin, grouping, typedef, subs⟩ => by
    intro g later
    obtain ⟨below, last⟩ := growAll_yields means ⟨id, keyword⟩ subs g later
    rw [grow_run, meaning_eq]
    simp only [Statement.forget_keyword]
    split
    · refine ⟨?_, last⟩
      rw [SchemaNode.forget, SchemaNode.forgetAll_eq_map]
      simp only [Statement.site, below]
      rfl
    · exact ⟨rfl, later⟩

/-- What grows below a site is what the substatements mean. -/
theorem growAll_yields {expand : Expander} {busy : List Nat} (means : expand.Means start groupings busy)
    (site : Site) :
    ∀ l : List Statement, Yields start (List.map (·.forget start)) (growAll expand busy site l)
      (meaningOfAll isSchemaNode groupings busy site.keyword (Statement.forgetAll start l))
  | [] => by
    intro g later
    rw [Statement.forgetAll, meaningOfAll_nil]
    exact ⟨rfl, later⟩
  | s :: rest => by
    intro g later
    obtain ⟨here, mid⟩ := contribution_yields means (Statement.forget_keyword start s)
      (Statement.forget_grouping start s) (grow_yields means s) site g later
    obtain ⟨others, last⟩ := growAll_yields means site rest _ mid
    rw [growAll_cons_run, Statement.forgetAll, meaningOfAll_cons, ← here, ← others]
    exact ⟨List.map_append, last⟩
end

section

variable {expand : Expander} {busy : List Nat} (means : expand.Means start groupings busy) (site : Site)
include means site

theorem growCopy_yields {s : Statement} (read : ∀ t ∈ s.within, t.origin = none) :
    Yields start (·.forget start) (growCopy expand busy site s) (meaning isSchemaNode groupings busy s.copied) := by
  intro g later
  rw [growCopy_run, ← Statement.copyFrom_forget s later read]
  refine grow_yields means (s.copyFrom g.next).1 _ ?_
  rw [Statement.copyFrom_next]
  exact Nat.le_add_right_of_le later

theorem copyAllTo_yields (l : List Statement) (read : ∀ t ∈ withinAll l, t.origin = none) :
    Yields start (List.map (·.forget start)) (copyAllTo expand busy site l)
      (meaningOfAll isSchemaNode groupings busy site.keyword (Statement.copiedAll l)) := by
  induction l with
  | nil =>
    intro g later
    rw [Statement.copiedAll, meaningOfAll_nil]
    exact ⟨rfl, later⟩
  | cons s rest ih =>
    intro g later
    have copy := growCopy_yields means site (s := s) fun t member =>
      read t (List.mem_append_left _ member)
    obtain ⟨here, mid⟩ := contribution_yields means (Statement.copied_keyword s)
      (Statement.copied_grouping s) copy site g later
    obtain ⟨others, last⟩ := ih (fun t member => read t (List.mem_append_right _ member)) _ mid
    rw [copyAllTo_cons_run, Statement.copiedAll, meaningOfAll_cons, ← here, ← others]
    exact ⟨List.map_append, last⟩

end

/-- A bound of as many groupings as are not open is enough: at the bound, all of them are open. -/
theorem expander_means (read : ∀ g ∈ groupings, ∀ t ∈ withinAll g.subs, t.origin = none) :
    ∀ (bound : Nat) (busy : List Nat), unopened groupings busy ≤ bound →
      (expander groupings bound).Means start groupings busy
  | 0, busy, enough => by
    -- Nothing is left to open here, so being cut at the bound and being cut as open are the same.
    intro site uses g later
    refine ⟨?_, later⟩
    rw [usesMeaning]
    cases found : groupingOf? groupings uses with
    | none => rfl
    | some grouping =>
      have isOpen : grouping.id ∈ busy := by
        by_contra notOpen
        have fewer := unopened_lt (groupingOf?_mem found) notOpen
        omega
      simp only [if_pos isOpen]
      rfl
  | bound + 1, busy, enough => by
    intro site uses g later
    rw [expander_run, usesMeaning]
    cases found : groupingOf? groupings uses with
    | none => exact ⟨rfl, later⟩
    | some grouping =>
      have known := groupingOf?_mem found
      by_cases isOpen : grouping.id ∈ busy
      · simp only [List.contains_eq_mem, isOpen, decide_true, if_true]
        exact ⟨rfl, later⟩
      · have fewer := unopened_lt known isOpen
        have inside := expander_means read bound (grouping.id :: busy) (by omega)
        simp only [List.contains_eq_mem, isOpen, decide_false, Bool.false_eq_true, if_false]
        exact copyAllTo_yields inside site grouping.subs (read grouping known) g later

/-! ## Modules, groupings and augments -/

/-- A statement that was read grows into its meaning. -/
theorem grow_yields_of_lt {expand : Expander} {busy : List Nat} (means : expand.Means start groupings busy)
    {s : Statement} (below : ∀ t ∈ s.within, t.id < start) :
    Yields start (·.forget start) (grow expand busy s) (meaning isSchemaNode groupings busy s) := by
  have grown := grow_yields means s
  rwa [Statement.forget_of_lt s below] at grown

theorem growModules_yields {expand : Expander} (means : expand.Means start groupings [])
    (tops : List Statement) (below : ∀ t ∈ withinAll tops, t.id < start) :
    Yields start (List.map (·.forget start)) (growModules expand tops)
      (tops.map (meaning isSchemaNode groupings [])) := by
  induction tops with
  | nil => exact fun g later => ⟨rfl, later⟩
  | cons s rest ih =>
    intro g later
    obtain ⟨here, mid⟩ := grow_yields_of_lt means (fun t member => below t (List.mem_append_left _ member)) g later
    obtain ⟨others, last⟩ := ih (fun t member => below t (List.mem_append_right _ member)) _ mid
    rw [growModules_cons_run]
    exact ⟨congrArg₂ List.cons here others, last⟩

theorem growDefinitions_yields {expand : Expander} (means : ∀ busy, expand.Means start groupings busy)
    (listing : List Statement.Placed) (below : ∀ p ∈ listing, ∀ t ∈ p.statement.within, t.id < start) :
    Yields start (Prod.map (List.map (·.forget start)) (List.map (·.forget start)))
      (growDefinitions expand listing)
      ((groupingsAmong listing).map (fun g => meaning isSchemaNode groupings [g.id] g),
        (topAugments listing).map (meaning isSchemaNode groupings [])) := by
  induction listing with
  | nil => exact fun g later => ⟨rfl, later⟩
  | cons p rest ih =>
    intro g later
    have belowRest := fun q member => below q (List.mem_cons_of_mem p member)
    have grown := fun busy => grow_yields_of_lt (means busy) (below p List.mem_cons_self) g later
    rw [growDefinitions_cons_run, groupingsAmong_cons, topAugments_cons]
    by_cases isGrouping : p.statement.keyword = "grouping"
    · have notAugment : isTopAugment p = false := by simp [isTopAugment, isGrouping]
      obtain ⟨here, mid⟩ := grown [p.statement.id]
      obtain ⟨others, last⟩ := ih belowRest _ mid
      obtain ⟨groupingNodes, augmentNodes⟩ := Prod.mk.inj others
      simp only [isGrouping, beq_self_eq_true, if_true, notAugment, Bool.false_eq_true, if_false,
        List.map_cons, ← here, ← groupingNodes, ← augmentNodes]
      exact ⟨rfl, last⟩
    · by_cases isAugment : isTopAugment p = true
      · obtain ⟨here, mid⟩ := grown []
        obtain ⟨others, last⟩ := ih belowRest _ mid
        obtain ⟨groupingNodes, augmentNodes⟩ := Prod.mk.inj others
        simp only [beq_iff_eq, isGrouping, if_false, isAugment, if_true, List.map_cons, ← here,
          ← groupingNodes, ← augmentNodes]
        exact ⟨rfl, last⟩
      · simp only [beq_iff_eq, isGrouping, if_false, isAugment, Bool.false_eq_true]
        exact ih belowRest g later

end Yields

/-- An expansion has the meaning of the forest, up to numbers from `start` on: modules and augments with no
    grouping open, every grouping while it is open itself. -/
structure Expansion.Means (opens : String → Bool) (start : Nat) (forest : List Statement)
    (modules : List Nat) (expansion : Expansion) : Prop where
  modules : expansion.modules.map (·.forget start) =
    (topsOf forest modules).map (meaning opens (groupingsOfForest forest) [])
  groupings : expansion.groupings.map (·.forget start) =
    (groupingsOfForest forest).map fun g => meaning opens (groupingsOfForest forest) [g.id] g
  augments : expansion.augments.map (·.forget start) =
    (augmentsOfForest forest).map (meaning opens (groupingsOfForest forest) [])

theorem topsOf_subset (forest : List Statement) (modules : List Nat) : topsOf forest modules ⊆ forest := by
  intro s member
  obtain ⟨id, -, found⟩ := List.mem_filterMap.1 member
  exact List.mem_of_find?_eq_some found

/-- Expanding a forest of statements that were read and have numbers below `start`. -/
theorem expandForest_means {start : Nat} {forest : List Statement} (modules : List Nat)
    (below : ∀ t ∈ withinAll forest, t.id < start) (read : ∀ t ∈ withinAll forest, t.origin = none)
    {g : Growth} (later : start ≤ g.next) :
    ((expandForest forest modules).run g).1.Means isSchemaNode start forest modules := by
  let groupings := groupingsOfForest forest
  have readGroupings : ∀ g ∈ groupings, ∀ t ∈ withinAll g.subs, t.origin = none := by
    intro g isGrouping t inside
    refine read t (Statement.withinAll_trans _ (mem_groupingsOfForest.1 isGrouping).1 ?_)
    rw [Statement.within_eq]
    exact List.mem_cons_of_mem _ inside
  have means : ∀ busy, (forestExpander forest).Means start groupings busy := fun busy =>
    expander_means readGroupings _ busy (List.length_filter_le _ _)
  have belowTops : ∀ t ∈ withinAll (topsOf forest modules), t.id < start := by
    intro t member
    obtain ⟨s, isTop, inside⟩ := Statement.mem_withinAll.1 member
    exact below t (Statement.mem_withinAll.2 ⟨s, topsOf_subset forest modules isTop, inside⟩)
  have belowListing : ∀ p ∈ Statement.listingOfAll none none forest, ∀ t ∈ p.statement.within, t.id < start := by
    intro p member t inside
    have known : p.statement ∈ withinAll forest := by
      rw [← Statement.listingOfAll_statements none none forest]
      exact List.mem_map_of_mem member
    exact below t (Statement.withinAll_trans _ known inside)
  obtain ⟨tops, mid⟩ := growModules_yields (means []) _ belowTops g later
  obtain ⟨definitions, -⟩ := growDefinitions_yields means _ belowListing _ mid
  obtain ⟨groupingNodes, augmentNodes⟩ := Prod.mk.inj definitions
  rw [expandForest_run]
  exact ⟨tops, groupingNodes, augmentNodes⟩

/-- In whatever has been loaded and linked, the statements are those that were read, and expanding gives
    every module, grouping and augment its meaning, up to the numbers of the statements that it makes.  The
    meaning has no bound: recursive groupings are cut where they are open, and nowhere else. -/
theorem expandForest_linked_means (texts : List String) (sources : List Source) (files : FileTree)
    (library : Library) (loaded : library = ((Library.ofTexts texts).loadAll sources files).library)
    (forest : List Statement) (log : Log)
    (linked : (linkAll library.directory [] library.forest).run.run [] = (.ok forest, log)) :
    (∀ t ∈ withinAll forest, t.origin = none ∧ 0 < t.id ∧ t.id < library.next) ∧
      ((expandForest forest (library.modules.map (·.2))).run ⟨library.next, [], log⟩).1.Means
        isSchemaNode library.next forest (library.modules.map (·.2)) := by
  have sound : library.Sound := loaded ▸ (Library.sound_ofTexts texts).loadAll sources files
  have read := sound.read_forest (Library.linkAll_forest linked).1
  exact ⟨read, expandForest_means _ (fun t member => (read t member).2.2)
    (fun t member => (read t member).1) (Nat.le_refl _)⟩

/-- A module with a choice that uses a grouping that uses itself. -/
def recursiveChoice : String :=
  "<module name='m' xmlns='urn:ietf:params:xml:ns:yang:yin:1'><grouping name='g'><list name='a'>" ++
  "<uses name='g'/></list></grouping><choice name='c'><uses name='g'/></choice></module>"

theorem expandForest_linked_means_recursiveChoice :
    let library := ((Library.ofTexts [recursiveChoice]).loadAll [] ⟨[]⟩).library
    ∃ forest log, (linkAll library.directory [] library.forest).run.run [] = (.ok forest, log) ∧
      (let expansion := ((expandForest forest (library.modules.map (·.2))).run ⟨library.next, [], log⟩).1
       expansion.Means isSchemaNode library.next forest (library.modules.map (·.2)) ∧
       expansion.modules.map (fun n => n.placed.map (·.keyword)) = [["module", "choice", "case", "list"]]) := by
  intro library
  obtain ⟨forest, log, linked, trees⟩ := exists_run_ok ((linkAll library.directory [] library.forest).run.run [])
    (fun forest log => ((expandForest forest (library.modules.map (·.2))).run ⟨library.next, [], log⟩).1.modules.map
      (fun n => n.placed.map (·.keyword)) == [["module", "choice", "case", "list"]]) (by decide +kernel)
  have means := (expandForest_linked_means [recursiveChoice] [] ⟨[]⟩ library rfl forest log linked).2
  exact ⟨forest, log, linked, means, by simpa using trees⟩

/-! ## Statements that do not open

A leaf, and a statement that is not standard, has no nodes below it, whatever is written inside it. -/

/-- A module with a leaf that holds a statement that is not standard. -/
def annotatedLeaf : String :=
  "<module name='m' xmlns='urn:ietf:params:xml:ns:yang:yin:1'><leaf name='l'><e:x xmlns:e='u'/>" ++
  "</leaf></module>"

/-- How many nodes there are below each child. -/
def SchemaNode.grandchildren (node : SchemaNode) : List Nat :=
  node.children.map (·.children.length)

theorem SchemaNode.forget_children_length (start : Nat) (node : SchemaNode) :
    (node.forget start).children.length = node.children.length := by
  cases node
  rw [SchemaNode.forget, SchemaNode.forgetAll_eq_map, List.length_map]

theorem SchemaNode.forget_grandchildren (start : Nat) (node : SchemaNode) :
    (node.forget start).grandchildren = node.grandchildren := by
  cases node
  simp only [SchemaNode.forget, SchemaNode.grandchildren, SchemaNode.forgetAll_eq_map, List.map_map]
  exact List.map_congr_left fun child _ => child.forget_children_length start

/-- If everything opened, a leaf would have what is not standard inside it below it. -/
theorem meaning_grandchildren_of_leaf (groupings : List Statement) {top leaf inner : Statement}
    (isModule : top.keyword = "module") (holdsLeaf : top.subs = [leaf]) (isLeaf : leaf.keyword = "leaf")
    (holdsInner : leaf.subs = [inner]) (notUses : inner.keyword ≠ "uses")
    (isTree : isTreeKeyword inner.keyword) :
    (meaning (fun _ => true) groupings [] top).grandchildren = [1] := by
  have leafTree : isTreeKeyword "leaf" = true := by decide
  simp [SchemaNode.grandchildren, meaning_eq, meaningOfAll_cons, meaningOfAll_nil, meaningOfSub, inCase,
    isModule, holdsLeaf, isLeaf, holdsInner, notUses, isTree, leafTree]

theorem not_means_of_annotatedLeaf :
    let library := ((Library.ofTexts [annotatedLeaf]).loadAll [] ⟨[]⟩).library
    ∃ forest log, (linkAll library.directory [] library.forest).run.run [] = (.ok forest, log) ∧
      ¬ ((expandForest forest (library.modules.map (·.2))).run ⟨library.next, [], log⟩).1.Means
        (fun _ => true) library.next forest (library.modules.map (·.2)) := by
  intro library
  obtain ⟨forest, log, linked, shape⟩ := exists_run_ok ((linkAll library.directory [] library.forest).run.run [])
    (fun forest log => ((topsOf forest (library.modules.map (·.2))).map fun top =>
        (top.keyword, top.subs.map fun leaf => (leaf.keyword, leaf.subs.map (·.keyword)))) ==
          [("module", [("leaf", ["e:x"])])] &&
      ((expandForest forest (library.modules.map (·.2))).run
        ⟨library.next, [], log⟩).1.modules.map SchemaNode.grandchildren == [[0]]) (by decide +kernel)
  refine ⟨forest, log, linked, fun means => ?_⟩
  simp only [Bool.and_eq_true, beq_iff_eq] at shape
  obtain ⟨tops, grown⟩ := shape
  obtain ⟨top, topsEq, topShape⟩ := List.map_eq_singleton_iff.1 tops
  obtain ⟨isModule, subs⟩ := Prod.mk.inj topShape
  obtain ⟨leaf, holdsLeaf, leafShape⟩ := List.map_eq_singleton_iff.1 subs
  obtain ⟨isLeaf, inside⟩ := Prod.mk.inj leafShape
  obtain ⟨inner, holdsInner, isInner⟩ := List.map_eq_singleton_iff.1 inside
  have counts := congrArg (List.map SchemaNode.grandchildren) means.modules
  have meant := meaning_grandchildren_of_leaf (groupingsOfForest forest) isModule holdsLeaf isLeaf
    holdsInner (by rw [isInner]; decide) (by rw [isInner]; decide)
  rw [List.map_map, List.map_congr_left fun n _ => n.forget_grandchildren library.next, grown,
    topsEq, List.map_singleton, List.map_singleton, meant] at counts
  simp at counts

end YangStubs.Schema
