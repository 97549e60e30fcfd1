import Mathlib.Data.List.Flatten
import Mathlib.Data.List.Nodup
import Mathlib.Data.List.Perm.Subperm
import YangStubs.Proofs.Schema.Augmentation
import YangStubs.Proofs.Schema.DataPath
import YangStubs.Schema.Record

/-! # What holds of every resolved schema

Resolving is linking, expanding, augmenting and following leafrefs, one after the other.  The statements of
the result are numbered without gaps, every link leads to a definition, and no statement stands at two places
of the schema trees.
-/

namespace YangStubs.Schema

open Statement (within withinAll core Numbered sizeOfAll bare countOf outsiders)
open SchemaNode (placed placedAll nodesOfAll)

variable {s t : Statement}

/-! ## The parts of resolving -/

/-- The linked forest of a library and its expansion, before augments are applied. -/
structure Library.ExpandsTo (library : Library) (forest : List Statement) where
  log : Log
  linked : (linkAll library.directory [] library.forest).run.run [] = (.ok forest, log)
  expansion : Expansion
  grown : Growth
  expanded : (expandForest forest (library.modules.map (·.2))).run ⟨library.next, [], log⟩ = (expansion, grown)

/-- A schema that a library is linked to, with what happened on the way. -/
structure Library.LinksTo (library : Library) (schema : Resolved) extends
    library.ExpandsTo schema.forest where
  final : Growth
  augmented : (augmentAll library.directory ((library.modules.map (·.1)).zip expansion.modules)
    expansion.augments).run grown = (.ok schema.modules, final)
  made : schema.made = final.made
  groupings : schema.groupings = expansion.groupings
  augments : schema.augments = expansion.augments
  targets : schema.targets = (linkLeafrefs library.directory schema.modules schema.groupings
    ((statementsOf schema.forest schema.made).filterMap leafref?)).1

theorem Library.link_ok {library : Library} {schema : Resolved}
    (resolved : library.link.result = .ok schema) : Nonempty (library.LinksTo schema) := by
  unfold Library.link at resolved
  simp only at resolved
  cases linking : (linkAll library.directory [] library.forest).run.run [] with
  | mk result log =>
    rw [linking] at resolved
    cases result with
    | error e => simp at resolved
    | ok forest =>
      simp only at resolved
      cases expanding : (expandForest forest (library.modules.map (·.2))).run ⟨library.next, [], log⟩ with
      | mk expansion grown =>
        rw [expanding] at resolved
        simp only at resolved
        cases augmenting : (augmentAll library.directory
            ((library.modules.map (·.1)).zip expansion.modules) expansion.augments).run grown with
        | mk outcome final =>
          rw [augmenting] at resolved
          cases outcome with
          | error e => simp at resolved
          | ok trees =>
            cases resolved
            exact ⟨⟨⟨log, linking, expansion, grown, expanding⟩, final, augmenting, rfl, rfl, rfl, rfl⟩⟩

theorem exists_ok {ε α : Type} {result : Except ε α} {f : α → Bool}
    (evaluated : result.toOption.any f = true) : ∃ a, result = .ok a ∧ f a = true := by
  cases result with
  | error e => cases evaluated
  | ok a => exact ⟨a, rfl, evaluated⟩

theorem eq_mk_of_fst_eq {α β : Type} {pair : α × β} {a : α} (first : pair.1 = a) : pair = (a, pair.2) := by
  rw [← first]

theorem exists_run_ok {ε α β : Type} (outcome : Except ε α × β) (f : α → β → Bool)
    (evaluated : outcome.1.toOption.any (f · outcome.2) = true) : ∃ a b, outcome = (.ok a, b) ∧ f a b = true := by
  obtain ⟨a, isOk, value⟩ := exists_ok evaluated
  exact ⟨a, outcome.2, eq_mk_of_fst_eq isOk, value⟩

/-! ## The linked forest -/

theorem Library.Sound.read_forest {library : Library} (sound : library.Sound) {forest : List Statement}
    (same : forest.map Statement.bare = library.forest.map Statement.bare) :
    ∀ t ∈ withinAll forest, t.origin = none ∧ 0 < t.id ∧ t.id < library.next := by
  intro t member
  obtain ⟨u, inLibrary, sameBare⟩ := Statement.exists_of_bare_eq same member
  have number := (sound.numbered.mem_iff u.id).1 (List.mem_map_of_mem inLibrary)
  rw [← Statement.bare_origin t, ← Statement.bare_id t, ← sameBare, Statement.bare_origin,
    Statement.bare_id, Library.next]
  exact ⟨(sound.plain u inLibrary).1, by omega, by omega⟩

namespace Library.ExpandsTo

variable {library : Library} {forest : List Statement}

section

variable (way : library.ExpandsTo forest)
include way

theorem same : forest.map bare = library.forest.map bare :=
  (Library.linkAll_forest way.linked).1

theorem numbered (sound : library.Sound) : Numbered 1 forest := by
  unfold Statement.Numbered
  rw [Statement.withinAll_ids_eq way.same, Statement.sizeOfAll_bare_eq way.same]
  exact sound.numbered

theorem next_eq : library.next = 1 + sizeOfAll forest := by
  rw [Library.next, Statement.sizeOfAll_bare_eq way.same, Nat.add_comm]

theorem refers_forest : ∀ s ∈ withinAll forest, s.Refers (withinAll forest) := by
  intro s member
  refine ((Library.linkAll_forest way.linked).2 s member).mono fun d known => ?_
  obtain ⟨d', member', same⟩ := Statement.exists_of_bare_eq way.same.symm known
  refine ⟨d', member', ?_, ?_⟩
  · rw [← Statement.bare_keyword, same, Statement.bare_keyword]
  · rw [← Statement.bare_id, same, Statement.bare_id]

end

/-- The statement of a loaded module in the linked forest. -/
theorem module (way : library.ExpandsTo forest) (sound : library.Sound) {name : String} {id : Nat}
    (member : (name, id) ∈ library.modules) :
    ∃ s ∈ forest, s.id = id ∧ s.keyword = "module" ∧ s.name = name := by
  obtain ⟨s, inForest, atId, keyword, named⟩ := sound.modules _ member
  have inBoth : s.bare ∈ forest.map bare := by
    rw [way.same]
    exact List.mem_map_of_mem inForest
  obtain ⟨t, inLinked, same⟩ := List.mem_map.1 inBoth
  refine ⟨t, inLinked, ?_, ?_, ?_⟩
  · rw [← Statement.bare_id, same, Statement.bare_id, atId]
  · rw [← Statement.bare_keyword, same, Statement.bare_keyword, keyword]
  · rw [← Statement.bare_name, same, Statement.bare_name, named]

end Library.ExpandsTo

section Related

variable {α β γ : Type} {r : α → β → Prop} {l : List α} {m : List β}

theorem map_eq_of_forall₂ {f : α → γ} {g : β → γ} (same : ∀ {a b}, r a b → g b = f a) (each : List.Forall₂ r l m) :
    m.map g = l.map f := by
  induction each with
  | nil => rfl
  | cons here _ ih => rw [List.map_cons, List.map_cons, same here, ih]

theorem exists_right_of_forall₂ (each : List.Forall₂ r l m) {a : α} (member : a ∈ l) : ∃ b ∈ m, r a b := by
  induction each with
  | nil => cases member
  | cons here _ ih =>
    cases List.mem_cons.1 member with
    | inl isFirst => exact ⟨_, List.mem_cons_self, isFirst ▸ here⟩
    | inr isLater =>
      obtain ⟨b, inRest, related⟩ := ih isLater
      exact ⟨b, List.mem_cons_of_mem _ inRest, related⟩

theorem exists_left_of_forall₂ (each : List.Forall₂ r l m) {b : β} (member : b ∈ m) : ∃ a ∈ l, r a b :=
  exists_right_of_forall₂ each.flip member

end Related

/-- Looking for the key of a member finds it, if no key is there twice. -/
theorem find?_key_eq {α κ : Type} [BEq κ] [LawfulBEq κ] {key : α → κ} {l : List α}
    (nodup : (l.map key).Nodup) {x : α} (member : x ∈ l) : l.find? (key · == key x) = some x := by
  cases found : l.find? (key · == key x) with
  | none => simpa using List.find?_eq_none.1 found x member
  | some y =>
    have sameKey : key y = key x := by simpa using List.find?_some found
    rw [List.inj_on_of_nodup_map nodup (List.mem_of_find?_eq_some found) member sameKey]

theorem lookup_eq_some_of_mem {α : Type} {l : List (String × α)} (nodup : (l.map (·.1)).Nodup)
    {entry : String × α} (member : entry ∈ l) : l.lookup entry.1 = some entry.2 := by
  induction l with
  | nil => simp at member
  | cons first rest ih =>
    rw [List.map_cons, List.nodup_cons] at nodup
    rw [List.lookup_cons]
    cases List.mem_cons.1 member with
    | inl here => simp [here]
    | inr later =>
      have different : entry.1 ≠ first.1 := fun same =>
        nodup.1 (same ▸ List.mem_map_of_mem later)
      simp only [show (entry.1 == first.1) = false by simpa using different, ih nodup.2 later]

/-- Filtering by less keeps fewer, if it loses one. -/
theorem length_filter_lt {α : Type} {p q : α → Bool} {l : List α} (weaker : ∀ x ∈ l, q x → p x) {x : α}
    (member : x ∈ l) (kept : p x = true) (lost : q x = false) :
    (l.filter q).length < (l.filter p).length := by
  have nested : l.filter q = (l.filter p).filter q := by
    rw [List.filter_filter]
    refine List.filter_congr fun y inList => ?_
    cases holds : q y with
    | false => rfl
    | true => rw [weaker y inList holds]; rfl
  rw [nested]
  exact List.length_filter_lt_length_iff_exists.2 ⟨x, List.mem_filter.2 ⟨member, kept⟩, by simp [lost]⟩

theorem Statement.Numbered.eq_of_id_eq {next : Nat} {l : List Statement} (numbered : Numbered next l)
    (inS : s ∈ withinAll l) (inT : t ∈ withinAll l) (same : s.id = t.id) : s = t :=
  List.inj_on_of_nodup_map numbered.nodup inS inT same

theorem Statement.Numbered.find?_eq {next : Nat} {l : List Statement} (numbered : Numbered next l) (member : s ∈ l) :
    l.find? (·.id == s.id) = some s :=
  find?_key_eq (((Statement.sublist_withinAll l).map _).nodup numbered.nodup) member

theorem topsOf_eq {library : Library} {forest : List Statement} (way : library.ExpandsTo forest)
    (sound : library.Sound) {modules : List (String × Nat)} (loaded : modules ⊆ library.modules) :
    (topsOf forest (modules.map (·.2))).map (fun s => (s.name, s.id)) = modules ∧
      ∀ s ∈ topsOf forest (modules.map (·.2)), s ∈ forest ∧ s.keyword = "module" := by
  induction modules with
  | nil => exact ⟨rfl, by simp [topsOf]⟩
  | cons m rest ih =>
    obtain ⟨rest_eq, rest_mem⟩ := ih fun x member => loaded (List.mem_cons_of_mem _ member)
    obtain ⟨s, inForest, atId, keyword, named⟩ := way.module sound (loaded List.mem_cons_self)
    have found := (way.numbered sound).find?_eq inForest
    rw [atId] at found
    have first : topsOf forest ((m :: rest).map (·.2)) = s :: topsOf forest (rest.map (·.2)) := by
      simp only [topsOf, List.map_cons, List.filterMap_cons, found]
    rw [first]
    refine ⟨?_, ?_⟩
    · rw [List.map_cons, rest_eq, named, atId]
    · intro t member
      rcases List.mem_cons.1 member with rfl | member
      · exact ⟨inForest, keyword⟩
      · exact rest_mem t member

/-! ## No statement stands twice -/

theorem mem_groupingsOfForest {forest : List Statement} :
    s ∈ groupingsOfForest forest ↔ s ∈ withinAll forest ∧ s.keyword = "grouping" := by
  simp only [groupingsOfForest, groupingsAmong, Statement.listingOfAll_statements, List.mem_filter, beq_iff_eq]

theorem groupingsOfForest_sublist (forest : List Statement) :
    (groupingsOfForest forest).Sublist (withinAll forest) := by
  rw [groupingsOfForest, groupingsAmong, Statement.listingOfAll_statements]
  exact List.filter_sublist

theorem augmentsOfForest_sublist (forest : List Statement) : (augmentsOfForest forest).Sublist (withinAll forest) := by
  rw [augmentsOfForest, topAugments, ← Statement.listingOfAll_statements none none forest]
  exact List.filter_sublist.map _

theorem augmentsOfForest_keyword {forest : List Statement} (member : s ∈ augmentsOfForest forest) :
    s.keyword = "augment" := by
  simp only [augmentsOfForest, topAugments, List.mem_map, List.mem_filter, isTopAugment,
    Bool.and_eq_true, beq_iff_eq] at member
  obtain ⟨p, ⟨-, keyword, -⟩, rfl⟩ := member
  exact keyword

section Roots

variable {library : Library} {forest : List Statement} (way : library.ExpandsTo forest)
  (sound : library.Sound)
include way sound

theorem modules_ids_nodup : (library.modules.map (·.2)).Nodup := by
  obtain ⟨tops_eq, tops_mem⟩ := topsOf_eq way sound (List.Subset.refl library.modules)
  have names := sound.names
  rw [← tops_eq] at names ⊢
  rw [List.map_map] at names ⊢
  refine List.Nodup.map_on ?_ (List.Nodup.of_map _ names)
  intro s inS t inT sameId
  exact (way.numbered sound).eq_of_id_eq (Statement.mem_withinAll_of_mem (tops_mem s inS).1)
    (Statement.mem_withinAll_of_mem (tops_mem t inT).1) sameId

/-- Modules, groupings and augments are different statements of the forest, and no node of another one. -/
theorem rootStatements_spec :
    (rootStatements forest (library.modules.map (·.2))).Nodup ∧
      rootStatements forest (library.modules.map (·.2)) ⊆ outsiders forest := by
  obtain ⟨tops_eq, tops_mem⟩ := topsOf_eq way sound (List.Subset.refl library.modules)
  have forestNodup : (withinAll forest).Nodup :=
    List.Nodup.of_map _ (way.numbered sound).nodup
  have topsNodup : (topsOf forest (library.modules.map (·.2))).Nodup := by
    have ids := modules_ids_nodup way sound
    rw [← tops_eq, List.map_map] at ids
    exact List.Nodup.of_map _ ids
  constructor
  · refine List.nodup_append.2 ⟨List.nodup_append.2 ⟨topsNodup,
      (groupingsOfForest_sublist _).nodup forestNodup, ?_⟩,
      (augmentsOfForest_sublist _).nodup forestNodup, ?_⟩
    · rintro s inTops t inGroupings rfl
      have both := (tops_mem s inTops).2.symm.trans (mem_groupingsOfForest.1 inGroupings).2
      exact absurd both (by decide)
    · rintro s inOthers t inAugments rfl
      have keyword := augmentsOfForest_keyword inAugments
      rcases List.mem_append.1 inOthers with inTops | inGroupings
      · exact absurd ((tops_mem s inTops).2.symm.trans keyword) (by decide)
      · exact absurd ((mem_groupingsOfForest.1 inGroupings).2.symm.trans keyword) (by decide)
  · intro s member
    simp only [rootStatements, List.mem_append] at member
    refine List.mem_filter.2 ?_
    rcases member with (inTops | inGroupings) | inAugments
    · obtain ⟨inForest, keyword⟩ := tops_mem s inTops
      rw [keyword]
      exact ⟨Statement.mem_withinAll_of_mem inForest, by decide⟩
    · obtain ⟨inForest, keyword⟩ := mem_groupingsOfForest.1 inGroupings
      rw [keyword]
      exact ⟨inForest, by decide⟩
    · rw [augmentsOfForest_keyword inAugments]
      exact ⟨(augmentsOfForest_sublist _).subset inAugments, by decide⟩

/-- The trees that start at modules, groupings and augments have no statement in common. -/
theorem countOf_roots_le (i : Nat) :
    countOf i (rootStatements forest (library.modules.map (·.2))) +
      countOf i ((rootStatements forest (library.modules.map (·.2))).flatMap (·.coreBelow)) ≤
      countOf i (withinAll forest) := by
  obtain ⟨nodup, subset⟩ := rootStatements_spec way sound
  obtain ⟨roots, perm, sublist⟩ := List.subperm_of_subset nodup subset
  have all := Statement.countOf_coreOfAll_le i forest
  have fewer := Statement.countOf_sublist i (sublist.flatMap core)
  have same := Statement.countOf_perm i (perm.flatMap_right core)
  have split := Statement.countOf_flatMap_core i (rootStatements forest (library.modules.map (·.2)))
  omega

theorem coreBelow_roots_known (below : s ∈ (rootStatements forest (library.modules.map (·.2))).flatMap (·.coreBelow)) :
    s ∈ withinAll forest := by
  obtain ⟨root, isRoot, inCore⟩ := List.mem_flatMap.1 below
  have outside := List.mem_filter.1 ((rootStatements_spec way sound).2 isRoot)
  refine Statement.withinAll_trans _ outside.1 ((Statement.core_sublist root).subset ?_)
  rw [Statement.core_eq]
  exact List.mem_cons_of_mem _ inCore

end Roots

/-! ## Sound schemas -/

namespace Resolved

/-- All statements of a schema, those that were read before those that were made. -/
def all (schema : Resolved) : List Statement :=
  withinAll schema.forest ++ madeStatements schema.made

/-- The statements that stand in the trees of the modules and groupings. -/
def standing (schema : Resolved) : List Statement :=
  placedAll (schema.modules.map (·.2)) ++ placedAll schema.groupings

/-- The statements that stand below a module or grouping. -/
def standingBelow (schema : Resolved) : List Statement :=
  placedAll schema.modules.below ++ placedAll (schema.groupings.flatMap (·.children))

theorem statements_eq_all (schema : Resolved) : schema.statements.map (·.statement) = schema.all := by
  simp only [statements, statementsOf, all, List.map_append, Statement.listingOfAll_statements,
    List.map_flatMap, Statement.listing_statements]
  congr 1
  induction schema.made with
  | nil => rfl
  | cons m rest ih => simp [madeStatements] at ih ⊢; exact ih

section

variable {schema : Resolved} {p : Statement.Placed} (listed : p ∈ schema.statements) {a : Statement}
  (around : p.around = some a)
include listed around

theorem around_spec : a ∈ schema.all ∧ p.statement ∈ a.subs := by
  rcases List.mem_append.1 listed with inForest | inMade
  · rcases Statement.listingOfAll_around none none schema.forest p inForest with
      ⟨isTop, -⟩ | ⟨b, inside, same, sub⟩
    · exact absurd (isTop.symm.trans around) nofun
    · cases same.symm.trans around
      exact ⟨List.mem_append_left _ inside, sub⟩
  · obtain ⟨m, isMade, inside⟩ := List.mem_flatMap.1 inMade
    rcases List.mem_cons.1 inside with rfl | below
    · exact absurd around nofun
    · obtain ⟨b, within, same, sub⟩ := Statement.listingBelow_around m.statement p below
      have known : b ∈ madeStatements schema.made :=
        Statement.mem_withinAll.2 ⟨m.statement, List.mem_map_of_mem isMade, within⟩
      cases same.symm.trans around
      exact ⟨List.mem_append_right _ known, sub⟩

theorem mem_all_of_around : a ∈ schema.all :=
  (around_spec listed around).1

end

theorem leafref?_leaf {schema : Resolved} {item : Statement × Statement × String}
    (member : item ∈ schema.statements.filterMap leafref?) : item.2.1 ∈ schema.all := by
  obtain ⟨p, listed, isLeafref⟩ := List.mem_filterMap.1 member
  unfold leafref? at isLeafref
  obtain ⟨-, -, inLeaf⟩ := Option.bind_eq_some_iff.1 isLeafref
  obtain ⟨leaf, around, isLeaf⟩ := Option.bind_eq_some_iff.1 inLeaf
  obtain ⟨-, -, withPath⟩ := Option.bind_eq_some_iff.1 isLeaf
  obtain ⟨path, -, same⟩ := Option.bind_eq_some_iff.1 withPath
  cases same
  exact mem_all_of_around listed around

/-- What holds of every resolved schema. -/
structure Sound (schema : Resolved) : Prop where
  numbered : schema.all.map (·.id) = List.range' 1 schema.all.length
  forest : Numbered 1 schema.forest
  read : ∀ s ∈ withinAll schema.forest, s.origin = none
  refers : ∀ s ∈ schema.all, s.Refers (withinAll schema.forest)
  copies : ∀ s ∈ schema.all, s.origin = none ∨ ∃ t ∈ withinAll schema.forest, Statement.CopyOf t s
  names : (schema.modules.map (·.1)).Nodup
  modules : ∀ m ∈ schema.modules, m.2.statement ∈ schema.forest ∧ m.2.keyword = "module" ∧ m.2.name = m.1
  groupings : schema.groupings.map (·.statement) = groupingsOfForest schema.forest
  augments : schema.augments.map (·.statement) = augmentsOfForest schema.forest
  known : ∀ s ∈ schema.standing, s ∈ schema.all
  tree : ∀ s ∈ schema.standingBelow, isTreeKeyword s.keyword
  once : ∀ i, countOf i schema.standing + countOf i (schema.augments.map (·.statement)) ≤ 1
  targets : ∀ t ∈ schema.targets, ∃ s ∈ schema.all, s.id = t.2 ∧ isLeafKeyword s.keyword

namespace Sound

variable {schema : Resolved}

theorem nodup (sound : schema.Sound) : (schema.all.map (·.id)).Nodup := by
  rw [sound.numbered]
  exact List.nodup_range'

theorem eq_of_id_eq (sound : schema.Sound) (inS : s ∈ schema.all) (inT : t ∈ schema.all) (same : s.id = t.id) : s = t :=
  List.inj_on_of_nodup_map sound.nodup inS inT same

theorem statement?_eq (sound : schema.Sound) (known : s ∈ schema.all) : schema.statement? s.id = some s := by
  have found := find?_key_eq sound.nodup known
  rw [← statements_eq_all, List.find?_map] at found
  exact found

theorem statement?_spec {id : Nat} (found : schema.statement? id = some s) : s ∈ schema.all ∧ s.id = id := by
  obtain ⟨p, atId, rfl⟩ := Option.map_eq_some_iff.1 found
  refine ⟨?_, by simpa using List.find?_some atId⟩
  rw [← statements_eq_all]
  exact List.mem_map_of_mem (List.mem_of_find?_eq_some atId)

theorem nodes_statements (schema : Resolved) :
    (nodesOfAll (schema.modules.map (·.2) ++ schema.groupings)).map (·.statement) = schema.standing := by
  rw [SchemaNode.nodesOfAll_statements, SchemaNode.placedAll_append]
  rfl

theorem nodes_nodup (sound : schema.Sound) :
    ((nodesOfAll (schema.modules.map (·.2) ++ schema.groupings)).map (·.id)).Nodup := by
  have ids := congrArg (List.map (·.id)) (nodes_statements schema)
  rw [List.map_map] at ids
  refine ids ▸ List.nodup_iff_count_le_one.2 fun i => ?_
  exact Nat.le_trans (Nat.le_add_right _ _) (sound.once i)

theorem node_known (sound : schema.Sound) {node : SchemaNode}
    (member : node ∈ nodesOfAll (schema.modules.map (·.2) ++ schema.groupings)) : node.statement ∈ schema.all :=
  sound.known _ (nodes_statements schema ▸ List.mem_map_of_mem member)

/-- A known statement holds known statements only. -/
theorem within_known (known : s ∈ schema.all) (inside : t ∈ s.within) : t ∈ schema.all := by
  rcases List.mem_append.1 known with inForest | isMade
  · exact List.mem_append_left _ (Statement.withinAll_trans _ inForest inside)
  · exact List.mem_append_right _ (Statement.withinAll_trans _ isMade inside)

theorem subs_known (known : s ∈ schema.all) (sub : t ∈ s.subs) : t ∈ schema.all := by
  refine within_known known ?_
  rw [Statement.within_eq]
  exact List.mem_cons_of_mem _ (Statement.mem_withinAll_of_mem sub)

/-- Whatever stands in the schema says what some statement says that was read, or made on its own. -/
theorem exists_source (sound : schema.Sound) (known : s ∈ schema.all) :
    ∃ r ∈ schema.all, r.id = s.source ∧ r.face = s.face := by
  cases sound.copies s known with
  | inl isOwn => exact ⟨s, known, by rw [Statement.source, isOwn, Option.getD_none], rfl⟩
  | inr isCopy =>
    obtain ⟨r, inForest, copy⟩ := isCopy
    refine ⟨r, List.mem_append_left _ inForest, ?_, ?_⟩
    · rw [Statement.source, copy.origin, sound.read r inForest]
      rfl
    · exact Statement.face_eq_iff.2 ⟨copy.keyword.symm, copy.arg.symm, copy.home.symm, copy.subs.symm⟩

theorem face_eq_of_source_eq (sound : schema.Sound) (inS : s ∈ schema.all) (inT : t ∈ schema.all)
    (same : s.source = t.source) : s.face = t.face := by
  obtain ⟨r, known, atId, ofS⟩ := sound.exists_source inS
  obtain ⟨r', known', atId', ofT⟩ := sound.exists_source inT
  have one := sound.eq_of_id_eq known known' (by rw [atId, atId', same])
  rw [← ofS, ← ofT, one]

theorem size_le (known : s ∈ schema.all) : s.size ≤ schema.all.length := by
  rw [all, List.length_append, madeStatements, Statement.length_withinAll, Statement.length_withinAll]
  rcases List.mem_append.1 known with inForest | isMade
  · exact Nat.le_trans (Statement.size_le_of_mem_withinAll inForest) (Nat.le_add_right _ _)
  · exact Nat.le_trans (Statement.size_le_of_mem_withinAll isMade) (Nat.le_add_left _ _)

end Sound

end Resolved

/-- A statement that is made while a linked forest is expanded: its links lead into the forest, and it is a case
    around another statement or remembers what it is a copy of. -/
structure Statement.Derived (forest : List Statement) (s : Statement) : Prop where
  refers : s.Refers (withinAll forest)
  copied : s.keyword = "case" ∧ s.origin = none ∨ ∃ t ∈ withinAll forest, Statement.CopyOf t s

theorem holdsOfCases_derived (forest : List Statement) : HoldsOfCases (Statement.Derived forest) := by
  intro number node
  have notUses : ¬ "case" = "uses" := by decide
  exact ⟨⟨fun isUses => absurd isUses notUses, by simp [caseFor], by simp [caseFor]⟩, .inl ⟨rfl, rfl⟩⟩

namespace Library.ExpandsTo

variable {library : Library} {forest : List Statement}

theorem holdsOfCopies_derived (way : library.ExpandsTo forest) :
    ∀ grouping ∈ groupingsOfForest forest, HoldsOfCopies (Statement.Derived forest) grouping.subs := by
  intro grouping isGrouping s sub next t member
  obtain ⟨u, inside, copy⟩ := Statement.copyFrom_within next s t member
  have inForest := Statement.withinAll_of_mem_subs (mem_groupingsOfForest.1 isGrouping).1 sub
  have read := Statement.withinAll_trans _ inForest inside
  exact ⟨(way.refers_forest u read).copy copy, .inr ⟨u, read, copy⟩⟩

/-- The schema trees before augments are applied. -/
def trees (way : library.ExpandsTo forest) : SchemaTrees :=
  (library.modules.map (·.1)).zip way.expansion.modules

section

variable (way : library.ExpandsTo forest)
include way

theorem roots : way.expansion.Roots forest (library.modules.map (·.2)) := by
  have grown := expandForest_grows (holdsOfCases_derived _) forest (library.modules.map (·.2))
    way.holdsOfCopies_derived ⟨library.next, [], way.log⟩
  rw [way.expanded] at grown
  exact grown.1

theorem grows :
    ∃ fresh, Grows (Statement.Derived forest)
      ((rootStatements forest (library.modules.map (·.2))).flatMap (·.coreBelow))
      ⟨library.next, [], way.log⟩ fresh (placedAll way.expansion.below) way.grown := by
  have grown := expandForest_grows (holdsOfCases_derived _) forest (library.modules.map (·.2))
    way.holdsOfCopies_derived ⟨library.next, [], way.log⟩
  rw [way.expanded] at grown
  exact grown.2

theorem trees_spec (sound : library.Sound) :
    way.trees.map (·.1) = library.modules.map (·.1) ∧ way.trees.map (·.2) = way.expansion.modules := by
  have sameLength : (library.modules.map (·.1)).length = way.expansion.modules.length := by
    have tops := congrArg List.length (topsOf_eq way sound (List.Subset.refl library.modules)).1
    have modules := congrArg List.length way.roots.modules
    simp only [List.length_map] at tops modules ⊢
    rw [← tops, modules]
  exact ⟨List.map_fst_zip (Nat.le_of_eq sameLength), List.map_snd_zip (Nat.le_of_eq sameLength.symm)⟩

theorem below_trees (sound : library.Sound) : way.trees.below = way.expansion.modules.flatMap (·.children) := by
  rw [← (way.trees_spec sound).2, List.flatMap_map]
  rfl

theorem toPlace_subset (sound : library.Sound) :
    toPlace way.trees way.expansion.augments ⊆ placedAll way.expansion.below := by
  intro s member
  simp only [toPlace, way.below_trees sound, Expansion.below, SchemaNode.placedAll_append, List.mem_append] at member ⊢
  exact member.imp_left .inl

end

end Library.ExpandsTo

namespace Library.LinksTo

variable {library : Library} {schema : Resolved}

section

variable (way : library.LinksTo schema)
include way

theorem augments_spec (sound : library.Sound) :
    Augments (Statement.Derived schema.forest) way.trees way.expansion.augments way.grown
      schema.modules [] way.final := by
  obtain ⟨fresh, grown⟩ := way.grows
  refine augmentAll_augments (holdsOfCases_derived _) ?_ ?_ way.augmented
  · rw [(way.trees_spec sound).1]
    exact sound.names
  · exact fun s member => grown.tree s (way.toPlace_subset sound member)

/-- Expanding and augmenting together: they make what the schema holds besides the forest, and place what
    stands below its modules and groupings. -/
theorem grows_standing (sound : library.Sound) :
    Grows (Statement.Derived schema.forest)
      ((rootStatements schema.forest (library.modules.map (·.2))).flatMap (·.coreBelow))
      ⟨library.next, [], way.log⟩ schema.made schema.standingBelow way.final := by
  obtain ⟨fresh, grown⟩ := way.grows
  obtain ⟨⟨fresh', augmented⟩, -, -⟩ := way.augments_spec sound
  let untouched := placedAll (way.expansion.groupings.flatMap (·.children))
  have reordered : (placedAll way.expansion.below).Perm (toPlace way.trees way.expansion.augments ++ untouched) := by
    simp only [toPlace, way.below_trees sound, Expansion.below, SchemaNode.placedAll_append, untouched]
    exact perm_append_swap _ _ _
  have first := grown.perm (List.Perm.refl _) reordered
  have kept : Grows (Statement.Derived schema.forest) untouched way.final [] untouched way.final :=
    Grows.keep untouched (fun s member => first.tree s (List.mem_append_right _ member)) way.final
  have both := first.trans (augmented.append kept)
  have made := both.made
  rw [← way.made, List.nil_append] at made
  rw [← made] at both
  simpa [toPlace, Resolved.standingBelow, way.groupings, untouched] using both

theorem modules_roots (sound : library.Sound) :
    schema.modules.roots = (topsOf schema.forest (library.modules.map (·.2))).map fun s => (s.name, s) := by
  obtain ⟨tops_eq, -⟩ := topsOf_eq way.toExpandsTo sound (List.Subset.refl library.modules)
  have names : library.modules.map (·.1) = (topsOf schema.forest (library.modules.map (·.2))).map (·.name) := by
    rw [← congrArg (List.map Prod.fst) tops_eq, List.map_map]
    rfl
  calc schema.modules.roots
      = way.trees.roots := (way.augments_spec sound).roots
    _ = (library.modules.map (·.1)).zip (way.expansion.modules.map (·.statement)) := by
        rw [List.zip_map_right]
        rfl
    _ = _ := by
        rw [way.roots.modules, names, ← List.map_prod_right_eq_zip]

theorem groupings_eq : schema.groupings.map (·.statement) = groupingsOfForest schema.forest := by
  rw [way.groupings, way.roots.groupings]

theorem augments_eq : schema.augments.map (·.statement) = augmentsOfForest schema.forest := by
  rw [way.augments, way.roots.augments]

theorem modules_spec (sound : library.Sound) :
    ∀ m ∈ schema.modules, m.2.statement ∈ schema.forest ∧ m.2.keyword = "module" ∧ m.2.name = m.1 := by
  intro m member
  have root : (m.1, m.2.statement) ∈ schema.modules.roots := List.mem_map_of_mem member
  rw [way.modules_roots sound] at root
  obtain ⟨s, isTop, same⟩ := List.mem_map.1 root
  obtain ⟨inForest, keyword⟩ := (topsOf_eq way.toExpandsTo sound (List.Subset.refl library.modules)).2 s isTop
  obtain ⟨named, rfl⟩ := Prod.mk.inj same
  exact ⟨inForest, keyword, named⟩

theorem all_numbered (sound : library.Sound) : schema.all.map (·.id) = List.range' 1 schema.all.length := by
  have fresh := (way.grows_standing sound).numbered
  rw [way.next_eq] at fresh
  have whole := (way.numbered sound).append fresh
  rw [Statement.Numbered, Statement.withinAll_append, ← Statement.length_withinAll,
    Statement.withinAll_append] at whole
  exact whole

theorem standingBelow_known (sound : library.Sound) : ∀ s ∈ schema.standingBelow, s ∈ schema.all := by
  intro s member
  refine List.mem_append.2 (((way.grows_standing sound).member s member).imp_left ?_)
  exact coreBelow_roots_known way.toExpandsTo sound

theorem standing_known (sound : library.Sound) : ∀ s ∈ schema.standing, s ∈ schema.all := by
  intro s member
  simp only [Resolved.standing, ← SchemaNode.placedAll_append] at member
  rw [(SchemaNode.placedAll_perm _).mem_iff, List.mem_append, List.map_append, List.mem_append,
    List.flatMap_append, List.flatMap_map, SchemaNode.placedAll_append] at member
  rcases member with (isModule | isGrouping) | below
  · simp only [List.map_map, List.mem_map] at isModule
    obtain ⟨m, member, rfl⟩ := isModule
    exact List.mem_append_left _ (Statement.mem_withinAll_of_mem (way.modules_spec sound m member).1)
  · rw [way.groupings_eq] at isGrouping
    exact List.mem_append_left _ (mem_groupingsOfForest.1 isGrouping).1
  · exact way.standingBelow_known sound s below

/-- No statement stands twice: the roots and what is below them are different statements. -/
theorem standing_once (sound : library.Sound) (i : Nat) :
    countOf i schema.standing + countOf i (schema.augments.map (·.statement)) ≤ 1 := by
  have tops_eq : (schema.modules.map (·.2)).map (·.statement) = topsOf schema.forest (library.modules.map (·.2)) := by
    have statements := congrArg (List.map Prod.snd) (way.modules_roots sound)
    simpa [SchemaTrees.roots, Function.comp_def] using statements
  have placed := Statement.countOf_perm i (SchemaNode.placedAll_perm (schema.modules.map (·.2)))
  have placed' := Statement.countOf_perm i (SchemaNode.placedAll_perm schema.groupings)
  have below := (way.grows_standing sound).count i
  have roots := countOf_roots_le way.toExpandsTo sound i
  have single : countOf i schema.all ≤ 1 := by
    refine List.nodup_iff_count_le_one.1 ?_ i
    rw [way.all_numbered sound]
    exact List.nodup_range'
  rw [tops_eq, List.flatMap_map] at placed
  rw [way.groupings_eq] at placed'
  simp only [Resolved.standing, Resolved.standingBelow, Resolved.all, way.augments_eq, rootStatements,
    Statement.countOf_append] at placed placed' below roots single ⊢
  rw [placed, placed']
  simp only [SchemaTrees.below] at below
  omega

end

theorem sound (way : library.LinksTo schema) (sound : library.Sound) : schema.Sound where
  numbered := way.all_numbered sound
  forest := way.numbered sound
  read := fun s member => (sound.read_forest way.same s member).1
  refers := fun s member =>
    (List.mem_append.1 member).elim (way.refers_forest s) fun made =>
      ((way.grows_standing sound).lawful s made).refers
  copies := fun s member =>
    (List.mem_append.1 member).elim (fun read => .inl (sound.read_forest way.same s read).1) fun made =>
      ((way.grows_standing sound).lawful s made).copied.imp_left And.right
  names := by
    rw [← SchemaTrees.roots_names, (way.augments_spec sound).roots, SchemaTrees.roots_names, (way.trees_spec sound).1]
    exact sound.names
  modules := way.modules_spec sound
  groupings := way.groupings_eq
  augments := way.augments_eq
  known := way.standing_known sound
  tree := (way.grows_standing sound).tree
  once := way.standing_once sound
  targets := by
    rw [way.targets]
    refine linkLeafrefs_spec _ ?_ _ fun item member => Resolved.leafref?_leaf member
    rw [SchemaNode.placedAll_append]
    exact way.standing_known sound

end Library.LinksTo

theorem Library.Sound.schema_sound {library : Library} (sound : library.Sound) {sources : List Source}
    {files : FileTree} {schema : Resolved}
    (resolved : (library.resolve sources files).result = .ok schema) : schema.Sound := by
  obtain ⟨loaded, loadedSound, linked⟩ := Library.resolve_eq_link sound resolved
  obtain ⟨way⟩ := Library.link_ok linked
  exact way.sound loadedSound

end YangStubs.Schema
