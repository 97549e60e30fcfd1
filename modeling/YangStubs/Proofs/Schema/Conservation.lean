import YangStubs.Proofs.Schema.Cases
import YangStubs.Proofs.Schema.Documents
import YangStubs.Proofs.Schema.Forest

/-! # What resolving keeps

Resolving fills in links and makes new statements.  What was read keeps its number, its words and its place, and what
is made comes after it.  A statement is made for one that is there already, so climbing from any statement passes
smaller and smaller numbers, and ends at a module.
-/

namespace YangStubs.Schema

open Statement (within withinAll listingOfAll Numbered bare)
open SchemaNode (placedAll)

variable {g : Growth} {s : Statement}

/-! ## Made for what is there -/

/-- Made for a statement with a smaller number. -/
def Made.IsLater (m : Made) : Prop :=
  0 < m.parent ∧ m.parent < m.statement.id

namespace Growth

/-- The number has been given to a statement. -/
def Has (g : Growth) (id : Nat) : Prop :=
  0 < id ∧ id < g.next

/-- What is made on the way from one state to another is made for statements that are there. -/
structure Ascends (g g' : Growth) : Prop where
  next : g.next ≤ g'.next
  made : (∀ m ∈ g.made, m.IsLater) → ∀ m ∈ g'.made, m.IsLater

theorem Ascends.refl (g : Growth) : g.Ascends g :=
  ⟨Nat.le_refl _, fun earlier => earlier⟩

theorem Ascends.trans {mid g' : Growth} (first : g.Ascends mid) (second : mid.Ascends g') : g.Ascends g' :=
  ⟨Nat.le_trans first.next second.next, fun earlier => second.made (first.made earlier)⟩

theorem Ascends.has {g g' : Growth} (ascends : g.Ascends g') {id : Nat} (has : g.Has id) : g'.Has id :=
  ⟨has.1, Nat.lt_of_lt_of_le has.2 ascends.next⟩

/-- One more statement, for one that is there. -/
theorem ascends_make {m : Made} (isLater : m.IsLater) {next : Nat} (later : g.next ≤ next) :
    g.Ascends { g with next, made := g.made ++ [m] } := by
  refine ⟨later, fun earlier other member => ?_⟩
  cases List.mem_append.1 member with
  | inl old => exact earlier other old
  | inr new => exact List.mem_singleton.1 new ▸ isLater

end Growth

theorem placeAt_ascends {site : Site} (has : g.Has site.id) (node : SchemaNode) :
    g.Ascends ((placeAt site node).run g).2 := by
  rw [placeAt_run]
  split
  · have isLater : Made.IsLater ⟨site.id, caseFor g.next node⟩ := has
    exact Growth.ascends_make isLater (Nat.le_succ _)
  · exact .refl g

/-- An expander that makes statements only for what is there. -/
def Expander.Ascending (expand : Expander) : Prop :=
  ∀ busy site uses (g : Growth), g.Has site.id → g.Ascends ((expand busy site uses).run g).2

theorem contribution_ascends {expand : Expander} (ascending : expand.Ascending) (busy : List Nat)
    {one : Statement → StateM Growth SchemaNode} {site : Site} (has : g.Has site.id)
    (single : g.Ascends ((one s).run g).2) : g.Ascends ((contribution expand one busy site s).run g).2 := by
  by_cases isUses : s.keyword = "uses"
  · rw [contribution_uses isUses]
    exact ascending busy site s g has
  · by_cases tree : isTreeKeyword s.keyword = true
    · rw [contribution_tree tree]
      exact single.trans (placeAt_ascends (single.has has) _)
    · rw [contribution_other isUses tree]
      exact .refl g

mutual
theorem grow_ascends {expand : Expander} (ascending : expand.Ascending) (busy : List Nat) :
    ∀ (s : Statement) {g : Growth}, (∀ t ∈ s.within, g.Has t.id) → g.Ascends ((grow expand busy s).run g).2
  | ⟨id, keyword, arg, home, origin, grouping, typedef, subs⟩, g, has => by
    rw [grow_run]
    split
    · exact growAll_ascends ascending busy ⟨id, keyword⟩ subs (has _ List.mem_cons_self)
        fun t inside => has t (List.mem_cons_of_mem _ inside)
    · exact .refl g

theorem growAll_ascends {expand : Expander} (ascending : expand.Ascending) (busy : List Nat) (site : Site) :
    ∀ (l : List Statement) {g : Growth}, g.Has site.id → (∀ t ∈ withinAll l, g.Has t.id) →
      g.Ascends ((growAll expand busy site l).run g).2
  | [], g, _, _ => .refl g
  | s :: rest, g, atSite, has => by
    rw [growAll_cons_run]
    have here := contribution_ascends ascending busy atSite
      (grow_ascends ascending busy s fun t inside => has t (List.mem_append_left _ inside))
    exact here.trans (growAll_ascends ascending busy site rest (here.has atSite) fun t inside =>
      here.has (has t (List.mem_append_right _ inside)))
end

theorem growCopy_ascends {expand : Expander} (ascending : expand.Ascending) (busy : List Nat) {site : Site}
    (s : Statement) (has : g.Has site.id) : g.Ascends ((growCopy expand busy site s).run g).2 := by
  rw [growCopy_run]
  have atStart : (s.copyFrom g.next).1.id = g.next := (Statement.copyFrom_id_subs g.next s).1
  have isLater : Made.IsLater ⟨site.id, (s.copyFrom g.next).1⟩ := ⟨has.1, atStart.symm ▸ has.2⟩
  have copied : g.next ≤ (s.copyFrom g.next).2 := by
    rw [Statement.copyFrom_next]
    exact Nat.le_add_right _ _
  refine (Growth.ascends_make isLater copied).trans (grow_ascends ascending busy _ fun t inside => ?_)
  -- The numbers inside a copy are those that were taken for it.
  have number := ((Statement.copyFrom_numbered g.next s).mem_iff t.id).1 (List.mem_map_of_mem (by simpa using inside))
  simp only [Statement.sizeOfAll_cons, Statement.sizeOfAll_nil, Statement.copyFrom_size] at number
  refine ⟨Nat.lt_of_lt_of_le (Nat.zero_lt_of_lt has.2) number.1, ?_⟩
  show t.id < (s.copyFrom g.next).2
  rw [Statement.copyFrom_next]
  exact number.2

theorem copyAllTo_ascends {expand : Expander} (ascending : expand.Ascending) (busy : List Nat) (site : Site)
    (l : List Statement) : ∀ {g : Growth}, g.Has site.id → g.Ascends ((copyAllTo expand busy site l).run g).2 := by
  induction l with
  | nil => exact fun {g} _ => .refl g
  | cons s rest ih =>
    intro g has
    rw [copyAllTo_cons_run]
    have here := contribution_ascends ascending busy has (growCopy_ascends ascending busy s has)
    exact here.trans (ih (here.has has))

theorem expander_ascending (groupings : List Statement) : ∀ bound, (expander groupings bound).Ascending
  | 0 => fun _ _ _ g _ => ⟨Nat.le_refl _, fun earlier => earlier⟩
  | bound + 1 => by
    intro busy site uses g has
    rw [expander_run]
    cases groupingOf? groupings uses with
    | none => exact .refl g
    | some grouping =>
      simp only
      split
      · exact ⟨Nat.le_refl _, fun earlier => earlier⟩
      · exact copyAllTo_ascends (expander_ascending groupings bound) _ site _ has

section Definitions

variable {expand : Expander} (ascending : expand.Ascending)
include ascending

theorem growModules_ascends (tops : List Statement) : ∀ {g : Growth}, (∀ t ∈ withinAll tops, g.Has t.id) →
    g.Ascends ((growModules expand tops).run g).2 := by
  induction tops with
  | nil => exact fun {g} _ => .refl g
  | cons s rest ih =>
    intro g has
    rw [growModules_cons_run]
    have here := grow_ascends ascending [] s fun t inside => has t (List.mem_append_left _ inside)
    exact here.trans (ih fun t inside => here.has (has t (List.mem_append_right _ inside)))

theorem growDefinitions_ascends (listing : List Statement.Placed) :
    ∀ {g : Growth}, (∀ p ∈ listing, ∀ t ∈ p.statement.within, g.Has t.id) →
      g.Ascends ((growDefinitions expand listing).run g).2 := by
  induction listing with
  | nil => exact fun {g} _ => .refl g
  | cons p rest ih =>
    intro g has
    have grown : ∀ busy, g.Ascends ((grow expand busy p.statement).run g).2 :=
      fun busy => grow_ascends ascending busy _ (has p List.mem_cons_self)
    have others : ∀ p ∈ rest, ∀ t ∈ p.statement.within, g.Has t.id :=
      fun q member => has q (List.mem_cons_of_mem _ member)
    rw [growDefinitions_cons_run]
    split
    · exact (grown _).trans (ih fun q member t inside => (grown _).has (others q member t inside))
    · split
      · exact (grown _).trans (ih fun q member t inside => (grown _).has (others q member t inside))
      · exact ih others

end Definitions

theorem expandForest_ascends {forest : List Statement} (modules : List Nat) (has : ∀ t ∈ withinAll forest, g.Has t.id) :
    g.Ascends ((expandForest forest modules).run g).2 := by
  rw [expandForest_run]
  have ascending : (forestExpander forest).Ascending := expander_ascending _ _
  have modulesGrown := growModules_ascends ascending (topsOf forest modules) (g := g) fun t inside => by
    obtain ⟨top, isTop, inside⟩ := Statement.mem_withinAll.1 inside
    obtain ⟨id, -, found⟩ := List.mem_filterMap.1 isTop
    exact has t (Statement.mem_withinAll.2 ⟨top, List.mem_of_find?_eq_some found, inside⟩)
  refine modulesGrown.trans (growDefinitions_ascends ascending _ fun p listed t inside => ?_)
  have known : p.statement ∈ withinAll forest := by
    rw [← Statement.listingOfAll_statements none none]
    exact List.mem_map_of_mem listed
  exact modulesGrown.has (has t (Statement.withinAll_trans _ known inside))

/-! ## Augmenting -/

theorem Grows.has {P : Statement → Prop} {own placed : List Statement} {g g' : Growth} {fresh : List Made}
    (grown : Grows P own g fresh placed g') (some : 0 < g.next) (known : ∀ s ∈ own, g.Has s.id) :
    ∀ s ∈ placed, g'.Has s.id := by
  intro s member
  have later := grown.next
  cases grown.member s member with
  | inl before =>
    have := known s before
    exact ⟨this.1, by have := this.2; omega⟩
  | inr isMade =>
    have number := (grown.numbered.mem_iff s.id).1 (List.mem_map_of_mem isMade)
    exact ⟨by omega, by omega⟩

theorem graft_ascends (augment : Nat) (site : Site) (nodes : List SchemaNode) :
    ∀ {g : Growth}, g.Has site.id → g.Ascends ((graft augment site nodes).run g).2 := by
  induction nodes with
  | nil => exact fun {g} _ => .refl g
  | cons node rest ih =>
    intro g has
    rw [graft_cons_run]
    have here := placeAt_ascends has { node with augment := some augment }
    exact here.trans (ih (here.has has))

/-- The trees while augments are applied: all numbers in them have been given. -/
structure Rising (start : Growth) (trees : SchemaTrees) (g : Growth) : Prop where
  names : (trees.map (·.1)).Nodup
  tree : ∀ s ∈ placedAll trees.below, isTreeKeyword s.keyword
  roots : ∀ r ∈ trees.roots, g.Has r.2.id
  below : ∀ s ∈ placedAll trees.below, g.Has s.id
  ascends : start.Ascends g

theorem Rising.step {start g : Growth} {trees : SchemaTrees} (rising : Rising start trees g) {directory : Directory}
    {a target : SchemaNode} {path : String × List String}
    (tree : ∀ s ∈ placedAll a.children, isTreeKeyword s.keyword) (known : ∀ s ∈ placedAll a.children, start.Has s.id)
    (found : augmentTarget? directory trees a = some (path, target)) :
    Rising start (trees.attachAt path (graftAt a target g).1) (graftAt a target g).2 := by
  have leads := augmentTarget?_leads found
  have hasTarget : g.Has target.id := by
    have stands : target.statement ∈ placedAll (trees.map (·.2)) := by
      rw [← SchemaNode.nodesOfAll_statements]
      exact List.mem_map_of_mem (SchemaTrees.at?_mem leads)
    rw [(SchemaNode.placedAll_perm _).mem_iff, List.mem_append, List.flatMap_map, List.map_map] at stands
    cases stands with
    | inl isRoot =>
      obtain ⟨tree, isTree, same⟩ := List.mem_map.1 isRoot
      rw [SchemaNode.id, ← same]
      exact rising.roots (tree.1, tree.2.statement) (List.mem_map_of_mem isTree)
    | inr isBelow => exact rising.below _ isBelow
  -- The message that is written first changes only the log.
  have grafted : g.Ascends (graftAt a target g).2 := by
    have ascends := graft_ascends a.id target.statement.site a.children (g := ((reportGrowth .debug
      ("augmenting " ++ Text.quoted a.name ++ " from module " ++ a.statement.home)).run g).2) hasTarget
    exact ⟨ascends.next, ascends.made⟩
  obtain ⟨fresh, grown⟩ := graftAt_grows (P := fun _ => True) (fun _ _ => trivial) a target g tree
  have placed := SchemaTrees.attachAt_placed (graftAt a target g).1 rising.names (by rw [leads]; rfl)
  refine ⟨?_, fun s member => ?_, fun r member => ?_, fun s member => ?_, rising.ascends.trans grafted⟩
  · rw [← SchemaTrees.roots_names, SchemaTrees.roots_attachAt, SchemaTrees.roots_names]
    exact rising.names
  · exact (List.mem_append.1 (placed.mem_iff.1 member)).elim (rising.tree s) (grown.tree s)
  · rw [SchemaTrees.roots_attachAt] at member
    exact grafted.has (rising.roots r member)
  · refine (List.mem_append.1 (placed.mem_iff.1 member)).elim (fun old => grafted.has (rising.below s old)) ?_
    exact grown.has (Nat.zero_lt_of_lt hasTarget.2) (fun t inside => rising.ascends.has (known t inside)) s

namespace Library.LinksTo

variable {library : Library} {schema : Resolved}

/-- All that is made is made for a statement with a smaller number. -/
theorem made_isLater (way : library.LinksTo schema) (sound : library.Sound) : ∀ m ∈ schema.made, m.IsLater := by
  let start : Growth := ⟨library.next, [], way.log⟩
  have read : ∀ t ∈ withinAll schema.forest, start.Has t.id :=
    fun t inside => (sound.read_forest way.same t inside).2
  have expanded : start.Ascends way.grown := by
    have ascends := expandForest_ascends (library.modules.map (·.2)) read
    rwa [way.expanded] at ascends
  have ready := way.ready sound
  obtain ⟨fresh, grown⟩ := way.grows
  have placed := grown.has (Nat.succ_pos _) fun s inside =>
    read s (coreBelow_roots_known way.toExpandsTo sound inside)
  have belowAugments : ∀ a ∈ way.expansion.augments, ∀ s ∈ placedAll a.children,
      s ∈ placedAll way.expansion.below ∧ s ∈ toPlace way.trees way.expansion.augments := by
    intro a isAugment s inside
    have among : s ∈ placedAll (way.expansion.augments.flatMap (·.children)) := by
      rw [SchemaNode.placedAll_eq_flatMap, List.flatMap_assoc] at *
      exact List.mem_flatMap.2 ⟨a, isAugment, inside⟩
    refine ⟨?_, List.mem_append_right _ among⟩
    simp only [Expansion.below, SchemaNode.placedAll_append, List.mem_append]
    exact .inr among
  have rising : Rising way.grown way.trees way.grown := by
    refine ⟨ready.names, fun s member => ready.tree s (List.mem_append_left _ member), fun r member => ?_,
      fun s member => placed s ?_, .refl _⟩
    · obtain ⟨tree, isTree, rfl⟩ := List.mem_map.1 member
      have isModule : tree.2.statement ∈ topsOf schema.forest (library.modules.map (·.2)) := by
        rw [← way.roots.modules, ← (way.trees_spec sound).2, List.map_map]
        exact List.mem_map_of_mem isTree
      obtain ⟨inForest, -⟩ := (topsOf_eq way.toExpandsTo sound (List.Subset.refl _)).2 _ isModule
      exact expanded.has (read _ (Statement.mem_withinAll_of_mem inForest))
    · simp only [Expansion.below, SchemaNode.placedAll_append, List.mem_append, ← way.below_trees sound]
      exact .inl (.inl member)
  have kept := augmentRounds_keeps (Q := Rising way.grown) library.directory way.expansion.augments.length
    (fun a isAugment trees g path target found rising => rising.step
      (fun s inside => ready.tree s (belowAugments a isAugment s inside).2)
      (fun s inside => placed s (belowAugments a isAugment s inside).1) found) way.trees way.grown rising
  have augmented : (augmentRounds library.directory way.expansion.augments.length way.trees
      way.expansion.augments).run way.grown = _ := augmentAll_eq_ok.1 way.augmented
  rw [augmented] at kept
  rw [way.made]
  exact (expanded.trans kept.ascends).made fun m member => absurd member List.not_mem_nil

end Library.LinksTo

/-! ## What was read -/

/-- What adding a text appends is a module, as far as it could be read. -/
theorem Library.add_forest (library : Library) (text : String) :
    ∃ read, (library.add text).library.forest = library.forest ++ read ∧ ∀ s ∈ read, s.keyword = "module" := by
  have nothing : ∃ read, library.forest = library.forest ++ read ∧ ∀ s ∈ read, s.keyword = "module" :=
    ⟨[], (List.append_nil _).symm, by simp⟩
  unfold Library.add
  split
  · exact nothing
  · rename_i root _
    unfold Library.addElement
    split
    · exact nothing
    · rename_i name named
      obtain ⟨s, statements, -, keyword, -⟩ := readElement_module library.next named
      refine ⟨[s], ?_, fun t member => List.mem_singleton.1 member ▸ keyword⟩
      simp only [statements]
      split
      · rfl
      · split <;> rfl

/-- A library that holds what another one holds, and modules only. -/
structure Library.Extends (library before : Library) : Prop where
  kept : before.forest <+: library.forest
  modules : ∀ s ∈ library.forest, s.keyword = "module"

theorem Library.Extends.add {library before : Library} (extended : library.Extends before) (text : String) :
    (library.add text).library.Extends before := by
  obtain ⟨read, forest, modules⟩ := library.add_forest text
  refine ⟨?_, fun s member => ?_⟩
  · rw [forest]
    exact extended.kept.trans (List.prefix_append _ _)
  · rw [forest] at member
    exact (List.mem_append.1 member).elim (extended.modules s) (modules s)

theorem Library.Extends.addTexts {before : Library} (texts : List String) : ∀ {library : Library},
    library.Extends before → (texts.foldl (fun library text => (library.add text).library) library).Extends before := by
  induction texts with
  | nil => exact fun extended => extended
  | cons text rest ih => exact fun extended => ih (extended.add text)

theorem Library.ofTexts_extends (texts : List String) : (Library.ofTexts texts).Extends .empty :=
  .addTexts texts ⟨List.prefix_rfl, by simp [Library.empty]⟩

theorem Library.Extends.loadAll {library before : Library} (extended : library.Extends before) (sources : List Source)
    (files : FileTree) : (library.loadAll sources files).library.Extends library :=
  Library.loadAll_keeps (P := fun loaded => loaded.Extends library) files (fun _ text extended => extended.add text)
    (fun _ _ extended => ⟨extended.kept, extended.modules⟩) sources ⟨List.prefix_rfl, extended.modules⟩

theorem Library.Extends.records {library before : Library} (extended : library.Extends before) :
    before.records <+: library.records := by
  obtain ⟨more, forest⟩ := extended.kept
  rw [Library.records, Library.records, ← forest, Statement.listingOfAll_append, List.map_append]
  exact List.prefix_append _ _

/-- What a record says that was written: without the links. -/
def Record.written (r : Record) : Record :=
  { r with children := [], schemaParent := none, grouping := none, typedef := none, augment := none, target := none }

namespace Statement

theorem Placed.written_eq {p q : Placed} (parent : p.parent = q.parent) (same : p.statement.bare = q.statement.bare) :
    p.record.written = q.record.written := by
  have subs : p.statement.subs.map (·.id) = q.statement.subs.map (·.id) := by
    simpa [Function.comp_def] using congrArg (List.map (·.id)) (subs_bare_eq same)
  have keyword : p.statement.keyword = q.statement.keyword := by rw [← bare_keyword, same, bare_keyword]
  have arg : p.statement.arg = q.statement.arg := by rw [← bare_arg, same, bare_arg]
  have home : p.statement.home = q.statement.home := by rw [← bare_home, same, bare_home]
  have origin : p.statement.origin = q.statement.origin := by rw [← bare_origin, same, bare_origin]
  simp only [Placed.record, Record.written, id_eq_of_bare_eq same, parent, subs, keyword, arg, home, origin]

/-- Trees that differ in links only are listed as the same statements, up to links. -/
theorem listingOfAll_written : ∀ (parent : Option Nat) (around around' : Option Statement) {l k : List Statement},
    l.map bare = k.map bare → (listingOfAll parent around l).map (·.record.written) =
      (listingOfAll parent around' k).map (·.record.written)
  | _, _, _, [], [], _ => rfl
  | parent, around, around', s :: rest, t :: others, same => by
    obtain ⟨here, there⟩ := List.cons.inj same
    have below := listingOfAll_written (some t.id) (some s) (some t) (subs_bare_eq here)
    simp only [listingOfAll, List.cons_append, List.map_cons, List.map_append, listingBelow_eq, id_eq_of_bare_eq here,
      below, listingOfAll_written parent around around' there,
      Placed.written_eq (p := ⟨parent, around, s⟩) (q := ⟨parent, around', t⟩) rfl here]
termination_by _ _ _ l => sizeOfAll l
decreasing_by all_goals rw [sizeOfAll_cons, size_eq]; omega

/-! ## Numbers and places -/

theorem within_isInfix {t : Statement} : ∀ {l : List Statement}, t ∈ withinAll l → t.within <:+: withinAll l
  | s :: rest, member => by
    rw [withinAll_cons, List.mem_append] at member
    rw [withinAll_cons]
    cases member with
    | inr later => exact (within_isInfix later).trans (List.suffix_append _ _).isInfix
    | inl here =>
      refine List.IsInfix.trans ?_ (List.prefix_append _ _).isInfix
      rw [within_eq, List.mem_cons] at here
      cases here with
      | inl isFirst => exact isFirst ▸ List.infix_rfl
      | inr below =>
        rw [within_eq s]
        exact (within_isInfix below).trans (List.suffix_cons _ _).isInfix
termination_by l => sizeOfAll l
decreasing_by all_goals rw [sizeOfAll_cons, size_eq]; omega

/-- A statement has a smaller number than all that is written inside it. -/
theorem Numbered.lt_of_sub {next : Nat} {l : List Statement} (numbered : Numbered next l) {t : Statement}
    (member : s ∈ withinAll l) (sub : t ∈ s.subs) : s.id < t.id := by
  have ascending : ((withinAll l).map (·.id)).Pairwise (· < ·) := by
    rw [numbered]
    exact List.pairwise_lt_range'
  have inside := ascending.sublist ((within_isInfix member).sublist.map _)
  rw [within_eq, List.map_cons, List.pairwise_cons] at inside
  exact inside.1 t.id (List.mem_map_of_mem (mem_withinAll_of_mem sub))

theorem Numbered.subs_nodup {next : Nat} {l : List Statement} (numbered : Numbered next l) (member : s ∈ withinAll l) :
    (s.subs.map (·.id)).Nodup := by
  refine List.Nodup.sublist ?_ numbered.nodup
  have inside := (within_isInfix member).sublist
  rw [within_eq] at inside
  exact ((sublist_withinAll s.subs).trans ((List.sublist_cons_self _ _).trans inside)).map _

mutual
theorem listingBelow_parent : ∀ (s : Statement), ∀ p ∈ s.listingBelow, p.parent = p.around.map (·.id)
  | ⟨_, _, _, _, _, _, _, subs⟩, p, member => listingOfAll_parent (by rfl) subs p member

theorem listingOfAll_parent {parent : Option Nat} {around : Option Statement} (above : parent = around.map (·.id)) :
    ∀ (l : List Statement), ∀ p ∈ listingOfAll parent around l, p.parent = p.around.map (·.id)
  | [], p, member => by cases member
  | s :: rest, p, member => by
    rw [listingOfAll, List.cons_append, List.mem_cons, List.mem_append] at member
    rcases member with rfl | below | later
    · exact above
    · exact listingBelow_parent s p below
    · exact listingOfAll_parent above rest p later
end

end Statement

namespace Resolved

variable {schema : Resolved}

/-- A statement is a tree of its own, was made for another one, or is written in another one. -/
theorem statements_cases {p : Statement.Placed} (listed : p ∈ schema.statements) :
    (p.parent = none ∧ p.statement ∈ schema.forest) ∨
      (∃ m ∈ schema.made, p.parent = some m.parent ∧ p.statement = m.statement) ∨
      ∃ a ∈ schema.all, p.parent = some a.id ∧ p.statement ∈ a.subs := by
  cases List.mem_append.1 listed with
  | inl inForest =>
    have above := Statement.listingOfAll_parent (by rfl) _ p inForest
    rcases Statement.listingOfAll_around none none schema.forest p inForest with ⟨isTop, member⟩ | ⟨a, inside, around, sub⟩
    · exact .inl ⟨by rw [above, isTop]; rfl, member⟩
    · exact .inr (.inr ⟨a, List.mem_append_left _ inside, by rw [above, around]; rfl, sub⟩)
  | inr inMade =>
    obtain ⟨m, isMade, inside⟩ := List.mem_flatMap.1 inMade
    refine .inr ?_
    rcases List.mem_cons.1 inside with rfl | below
    · exact .inl ⟨m, isMade, rfl, rfl⟩
    · obtain ⟨a, within, around, sub⟩ := Statement.listingBelow_around m.statement p below
      refine .inr ⟨a, List.mem_append_right _ ?_, ?_, sub⟩
      · exact Statement.mem_withinAll.2 ⟨m.statement, List.mem_map_of_mem isMade, within⟩
      · rw [Statement.listingBelow_parent _ p below, around]
        rfl

theorem mem_statements_sub {a t : Statement} (known : a ∈ schema.all) (sub : t ∈ a.subs) :
    ⟨some a.id, some a, t⟩ ∈ schema.statements := by
  refine List.mem_append.2 ((List.mem_append.1 known).imp (Statement.mem_listingOfAll_sub sub _) fun isMade => ?_)
  obtain ⟨s, isTree, inside⟩ := Statement.mem_withinAll.1 isMade
  obtain ⟨m, member, rfl⟩ := List.mem_map.1 isTree
  exact List.mem_flatMap.2 ⟨m, member, List.mem_cons_of_mem _ (Statement.mem_listingBelow_sub sub _ inside)⟩

namespace Sound

theorem numbered_trees (sound : schema.Sound) : Numbered 1 (schema.forest ++ schema.made.map (·.statement)) := by
  have all : withinAll (schema.forest ++ schema.made.map (·.statement)) = schema.all := Statement.withinAll_append _ _
  rw [Statement.Numbered, ← Statement.length_withinAll, all]
  exact sound.numbered

theorem mem_trees (known : s ∈ schema.all) : s ∈ withinAll (schema.forest ++ schema.made.map (·.statement)) := by
  rw [Statement.withinAll_append]
  exact known

theorem parent?_eq (sound : schema.Sound) {p : Statement.Placed} (listed : p ∈ schema.statements) :
    schema.parent? p.statement.id = p.parent := by
  have nodup : (schema.statements.map (·.statement.id)).Nodup := by
    have nodup := sound.nodup
    rwa [← statements_eq_all, List.map_map] at nodup
  rw [parent?, find?_key_eq nodup listed, Option.bind_some]

theorem lt_of_parent (sound : schema.Sound) (later : ∀ m ∈ schema.made, m.IsLater) {p : Statement.Placed}
    (listed : p ∈ schema.statements) {i : Nat} (above : p.parent = some i) :
    i < p.statement.id ∧ ∃ a ∈ schema.all, a.id = i := by
  have known : p.statement ∈ schema.all := statements_eq_all schema ▸ List.mem_map_of_mem listed
  rcases statements_cases listed with ⟨isTop, -⟩ | ⟨m, isMade, atParent, same⟩ | ⟨a, inAll, atParent, sub⟩
  · cases isTop.symm.trans above
  · cases atParent.symm.trans above
    have isLater := later m isMade
    rw [Made.IsLater, ← same] at isLater
    refine ⟨isLater.2, ?_⟩
    have number : p.statement.id ∈ schema.all.map (·.id) := List.mem_map_of_mem known
    have between : m.parent ∈ schema.all.map (·.id) := by
      rw [sound.numbered, List.mem_range'_1] at number ⊢
      exact ⟨isLater.1, Nat.lt_trans isLater.2 number.2⟩
    exact List.mem_map.1 between
  · cases atParent.symm.trans above
    exact ⟨sound.numbered_trees.lt_of_sub (mem_trees inAll) sub, a, inAll, rfl⟩

end Sound

/-! ## Climbing -/

/-- Going up from one statement to the next ends at `top`, by way of the statements with the numbers of a chain. -/
inductive Climbs (schema : Resolved) (top : Nat) : Nat → List Nat → Prop
  | last (isTop : schema.parent? top = none) : Climbs schema top top []
  | up {id parent : Nat} {chain : List Nat} (above : schema.parent? id = some parent)
      (rest : Climbs schema top parent chain) : Climbs schema top id (parent :: chain)

/-- The statement with that number is a module that belongs to nothing. -/
def IsOutermost (schema : Resolved) (id : Nat) : Prop :=
  ∃ m ∈ schema.records, m.id = id ∧ m.keyword = "module" ∧ m.parent = none

theorem Climbs.topWithin_eq {top id : Nat} {chain : List Nat} (climbs : schema.Climbs top id chain)
    (smaller : ∀ i p, schema.parent? i = some p → p < i) :
    ∀ bound, id ≤ bound → schema.topWithin bound id = top := by
  induction climbs with
  | last isTop =>
    intro bound _
    cases bound with
    | zero => rfl
    | succ bound => rw [topWithin, isTop]
  | up above _ ih =>
    intro bound within
    have less := smaller _ _ above
    cases bound with
    | zero => omega
    | succ bound =>
      rw [topWithin, above]
      exact ih bound (by omega)

namespace Sound

theorem smaller_parent (sound : schema.Sound) (later : ∀ m ∈ schema.made, m.IsLater) {i p : Nat}
    (above : schema.parent? i = some p) : p < i ∧ ∃ a ∈ schema.all, a.id = p := by
  obtain ⟨q, found, parent⟩ := Option.bind_eq_some_iff.1 above
  have atId : q.statement.id = i := by simpa using List.find?_some found
  exact atId ▸ sound.lt_of_parent later (List.mem_of_find?_eq_some found) parent

theorem isOutermost (modules : ∀ s ∈ schema.forest, s.keyword = "module") {p : Statement.Placed}
    (listed : p ∈ schema.statements) (isTop : p.parent = none) : schema.IsOutermost p.statement.id := by
  refine ⟨_, List.mem_map_of_mem listed, rfl, ?_, isTop⟩
  rcases statements_cases listed with ⟨-, inForest⟩ | ⟨m, -, above, -⟩ | ⟨a, -, above, -⟩
  · exact modules _ inForest
  · cases isTop.symm.trans above
  · cases isTop.symm.trans above

/-- The numbers of parents get smaller, so climbing ends, at a module. -/
theorem exists_climb (sound : schema.Sound) (later : ∀ m ∈ schema.made, m.IsLater)
    (modules : ∀ s ∈ schema.forest, s.keyword = "module") (id : Nat) :
    ∀ p ∈ schema.statements, p.statement.id = id →
      ∃ top chain, schema.Climbs top id chain ∧ schema.IsOutermost top := by
  induction id using Nat.strongRecOn with
  | ind id ih =>
    rintro p listed rfl
    have parent := sound.parent?_eq listed
    cases above : p.parent with
    | none => exact ⟨_, [], .last (parent.trans above), isOutermost modules listed above⟩
    | some i =>
      obtain ⟨less, a, known, rfl⟩ := sound.lt_of_parent later listed above
      rw [← statements_eq_all] at known
      obtain ⟨q, isListed, rfl⟩ := List.mem_map.1 known
      obtain ⟨top, chain, climbs, outermost⟩ := ih _ less q isListed rfl
      exact ⟨top, _, .up (parent.trans above) climbs, outermost⟩

theorem top_eq (sound : schema.Sound) (later : ∀ m ∈ schema.made, m.IsLater) {top id : Nat} {chain : List Nat}
    (climbs : schema.Climbs top id chain) : schema.top id = top :=
  climbs.topWithin_eq (fun _ _ above => (sound.smaller_parent later above).1) id (Nat.le_refl id)

/-- Climbing from a statement that was read passes the statements around it. -/
theorem climbs_around (sound : schema.Sound) {chain : List Statement} (around : Around schema.forest s chain) :
    ∃ top, schema.Climbs top s.id (chain.map (·.id)) := by
  induction around with
  | @top s member =>
    have listed : ⟨none, none, s⟩ ∈ schema.statements :=
      List.mem_append_left _ (Statement.mem_listingOfAll_of_mem none none member)
    exact ⟨s.id, .last (sound.parent?_eq listed)⟩
  | @inside s outer chain around member ih =>
    obtain ⟨top, climbs⟩ := ih
    have listed := mem_statements_sub (List.mem_append_left _ around.mem_withinAll) member
    exact ⟨top, .up (sound.parent?_eq listed) climbs⟩

end Sound

/-! ## Resolving keeps what was read -/

/-- The names in a statement were looked up in scopes that are the substatements of the statements with these numbers,
    innermost first. -/
def LookedUpIn (schema : Resolved) (directory : Directory) (s : Statement) (chain : List Nat) : Prop :=
  ∃ (original : Statement) (scopes : List (List Statement)) (log log' : Log),
    (link directory scopes original).run.run log = (.ok s, log') ∧
    List.Forall₂ (fun scope id => ∃ outer ∈ withinAll schema.forest,
      outer.id = id ∧ scope.map bare = outer.subs.map bare) scopes chain

/-- A schema keeps what a library holds, and adds to it. -/
structure Conserves (schema : Resolved) (library : Library) : Prop where
  /-- The statements that were read come first and keep all but their links. -/
  kept : library.records <+: schema.records.map Record.written
  /-- The others have larger numbers. -/
  added : ∀ r ∈ schema.records.drop library.records.length, ∀ q ∈ library.records, q.id < r.id
  /-- The statement that another one belongs to has a smaller number. -/
  parents : ∀ r ∈ schema.records, ∀ i, r.parent = some i → i < r.id ∧ ∃ p ∈ schema.records, p.id = i
  /-- What is listed in a statement belongs to it. -/
  subs : ∀ p ∈ schema.records, ∀ i ∈ p.subs, ∃ s ∈ schema.records, s.id = i ∧ s.parent = some p.id
  /-- No statement is listed twice, neither in one statement nor in two. -/
  once : ∀ p ∈ schema.records, p.subs.Nodup
  apart : ∀ p ∈ schema.records, ∀ q ∈ schema.records, ∀ i ∈ p.subs, i ∈ q.subs → p = q
  /-- Climbing ends at a module that belongs to nothing. -/
  tops : ∀ r ∈ schema.records, (∃ chain, schema.Climbs (schema.top r.id) r.id chain) ∧
    schema.IsOutermost (schema.top r.id)
  /-- So does the search for a definition, which climbs in the same way. -/
  scopes : ∀ s ∈ withinAll schema.forest, ∃ chain, schema.LookedUpIn library.directory s chain ∧
    schema.Climbs (schema.top s.id) s.id chain

theorem records_written (schema : Resolved) :
    schema.records.map Record.written = schema.statements.map (·.record.written) := by
  rw [records, List.map_map]
  rfl

theorem Sound.added (sound : schema.Sound) {n : Nat} : ∀ r ∈ schema.records.drop n, n < r.id := by
  intro r member
  have number := List.mem_map_of_mem (f := (·.id)) member
  rw [List.map_drop, records_ids, sound.numbered, List.drop_range', List.mem_range'_1] at number
  omega

theorem Sound.subs_listed {p : Record} (member : p ∈ schema.records) {i : Nat} (listed : i ∈ p.subs) :
    ∃ s ∈ schema.records, s.id = i ∧ s.parent = some p.id := by
  obtain ⟨q, isListed, rfl⟩ := List.mem_map.1 member
  have known : q.statement ∈ schema.all := statements_eq_all schema ▸ List.mem_map_of_mem isListed
  obtain ⟨t, sub, rfl⟩ := List.mem_map.1 listed
  exact ⟨_, List.mem_map_of_mem (mem_statements_sub known sub), rfl, rfl⟩

end Resolved

namespace Library.LinksTo

variable {library : Library} {schema : Resolved}

theorem kept (way : library.LinksTo schema) (sound : library.Sound) :
    library.records <+: schema.records.map Record.written := by
  have plain : library.records = (listingOfAll none none library.forest).map (·.record.written) := by
    refine List.map_congr_left fun p member => ?_
    have inside : p.statement ∈ withinAll library.forest :=
      Statement.listingOfAll_statements none none library.forest ▸ List.mem_map_of_mem member
    obtain ⟨-, grouping, typedef⟩ := sound.plain _ inside
    simp only [Statement.Placed.record, Record.written, grouping, typedef]
  rw [Resolved.records_written, Resolved.statements, statementsOf, List.map_append, plain,
    Statement.listingOfAll_written none none none way.same]
  exact List.prefix_append _ _

theorem conserves (way : library.LinksTo schema) (isSound : library.Sound) (sound : schema.Sound)
    (modules : ∀ s ∈ library.forest, s.keyword = "module") : schema.Conserves library := by
  have later := way.made_isLater isSound
  have roots : ∀ s ∈ schema.forest, s.keyword = "module" := by
    intro s member
    have inBoth : s.bare ∈ library.forest.map bare := way.same ▸ List.mem_map_of_mem member
    obtain ⟨t, inLibrary, same⟩ := List.mem_map.1 inBoth
    rw [← Statement.bare_keyword, ← same, Statement.bare_keyword, modules t inLibrary]
  have known : ∀ p ∈ schema.statements, p.statement ∈ schema.all := fun p listed =>
    Resolved.statements_eq_all schema ▸ List.mem_map_of_mem listed
  refine ⟨way.kept isSound, fun r member q isRead => ?_, fun r member i above => ?_,
    fun p member i => Resolved.Sound.subs_listed member, fun p member => ?_, fun p member q isOther i inP inQ => ?_,
    fun r member => ?_, fun s inside => ?_⟩
  · obtain ⟨read, isListed, rfl⟩ := List.mem_map.1 isRead
    have number := (isSound.numbered.mem_iff read.statement.id).1 (List.mem_map_of_mem
      (Statement.listingOfAll_statements none none library.forest ▸ List.mem_map_of_mem isListed))
    have length := length_records library
    have added := sound.added r member
    have next : library.next = Statement.sizeOfAll library.forest + 1 := rfl
    show read.statement.id < r.id
    omega
  · obtain ⟨p, listed, rfl⟩ := List.mem_map.1 member
    obtain ⟨less, a, inAll, rfl⟩ := sound.lt_of_parent later listed above
    exact ⟨less, Resolved.exists_record_of_mem_all inAll⟩
  · obtain ⟨q, listed, rfl⟩ := List.mem_map.1 member
    exact sound.numbered_trees.subs_nodup (Resolved.Sound.mem_trees (known q listed))
  · obtain ⟨s, isRecord, rfl, parent⟩ := Resolved.Sound.subs_listed member inP
    obtain ⟨t, isRecord', same, parent'⟩ := Resolved.Sound.subs_listed isOther inQ
    cases List.inj_on_of_nodup_map sound.records_nodup isRecord' isRecord same
    exact List.inj_on_of_nodup_map sound.records_nodup member isOther (Option.some.inj (parent.symm.trans parent'))
  · obtain ⟨p, listed, rfl⟩ := List.mem_map.1 member
    obtain ⟨top, chain, climbs, outermost⟩ := sound.exists_climb later roots _ p listed rfl
    rw [show schema.top p.statement.id = top from sound.top_eq later climbs]
    exact ⟨⟨chain, climbs⟩, outermost⟩
  · obtain ⟨chain, around⟩ := exists_around inside
    obtain ⟨original, scopes, log, log', linked, same⟩ := around.linked way.linked
    obtain ⟨top, climbs⟩ := sound.climbs_around around
    refine ⟨_, ⟨original, scopes, log, log', linked, List.forall₂_map_right_iff.2 ?_⟩, sound.top_eq later climbs ▸ climbs⟩
    have together := (List.forall₂_and_left chain scopes).2 ⟨fun outer => around.chain_known outer, same.flip⟩
    exact together.flip.imp fun scope outer both => ⟨outer, both.1, rfl, both.2⟩

end Library.LinksTo

/-- Whatever texts are added and whichever modules the sources give, resolving keeps what was read before and what was
    loaded on the way. -/
theorem resolve_conserves (texts : List String) (sources : List Source) (files : FileTree) (schema : Resolved)
    (resolved : ((Library.ofTexts texts).resolve sources files).result = .ok schema) :
    (Library.ofTexts texts).records <+: ((Library.ofTexts texts).loadAll sources files).library.records ∧
      schema.Conserves ((Library.ofTexts texts).loadAll sources files).library := by
  have sound := Library.sound_ofTexts texts
  have extended := (Library.ofTexts_extends texts).loadAll sources files
  obtain ⟨way⟩ := Library.link_ok (Library.link_loadAll resolved)
  exact ⟨extended.records, way.conserves (sound.loadAll sources files) (sound.schema_sound resolved) extended.modules⟩

/-- A module in which an augment brings the copy of a grouping below a choice. -/
def copiedIntoChoice : String :=
  "<module name='m' xmlns='urn:ietf:params:xml:ns:yang:yin:1'><grouping name='g'><leaf name='x'/></grouping>" ++
  "<choice name='c'/><augment target-node='/c'><uses name='g'/></augment></module>"

theorem resolve_conserves_copiedIntoChoice :
    ∃ schema, ((Library.ofTexts [copiedIntoChoice]).resolve [] ⟨[]⟩).result = .ok schema ∧
      schema.Conserves ((Library.ofTexts [copiedIntoChoice]).loadAll [] ⟨[]⟩).library ∧
      schema.records.map (·.parent) = [none, some 1, some 2, some 1, some 1, some 5, some 5, some 4] := by
  have outcome : ((Library.ofTexts [copiedIntoChoice]).resolve [] ⟨[]⟩).result.toOption.any (fun schema =>
      schema.records.map (·.parent) == [none, some 1, some 2, some 1, some 1, some 5, some 5, some 4]) = true := by
    decide +kernel
  obtain ⟨schema, resolved, parents⟩ := exists_ok outcome
  exact ⟨schema, resolved, (resolve_conserves _ _ _ schema resolved).2, by simpa using parents⟩

end YangStubs.Schema
