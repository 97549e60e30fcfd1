import YangStubs.Proofs.Model.Keeping
import YangStubs.Proofs.Schema.Forest
import YangStubs.Proofs.Schema.Rounds

/-! # Augmented nodes

A node is augmented if some node below it was brought there by an augment.  That is so for the target of an augment,
and for the cases around the nodes of an augment whose target is a choice.  The groupings that an augment uses are
used by just these nodes.
-/

namespace YangStubs.Model

open YangStubs.Schema
open YangStubs.Schema.SchemaNode (nodesOfAll)

/-! ## Where the nodes of an augment are -/

/-- The statement of a number has a node of an augment below it: it is what the augment leads to, or it is the case
    that the node needs because the augment leads to a choice. -/
inductive Receives (directory : Directory) (schema : Resolved) (a : SchemaNode) (id : Nat) : Prop
  | target {path : String × List String} {target : SchemaNode}
      (leads : augmentTarget? directory schema.modules a = some (path, target)) (brings : a.children ≠ [])
      (isTarget : target.id = id)
  | inCase {path : String × List String} {target child wrapper inner : SchemaNode}
      (leads : augmentTarget? directory schema.modules a = some (path, target)) (isChild : child ∈ a.children)
      (needs : needsCase target.statement.site child.keyword = true) (stands : wrapper ∈ target.children)
      (made : wrapper.statement = caseFor id child) (holds : inner ∈ wrapper.children)
      (own : inner.statement = child.statement)

theorem target_mem_trees {directory : Directory} {schema : Resolved} {a target : SchemaNode}
    {path : String × List String} (leads : augmentTarget? directory schema.modules a = some (path, target)) :
    target ∈ nodesOfAll (treesOf schema) := by
  obtain ⟨tree, isTree, inTree⟩ :=
    SchemaNode.mem_nodesOfAll.1 (SchemaTrees.at?_mem (augmentTarget?_leads leads))
  exact SchemaNode.mem_nodesOfAll.2 ⟨tree, List.mem_append_left _ isTree, inTree⟩

section Linked

variable {library : Library} {schema : Resolved} (way : library.LinksTo schema) (sound : library.Sound)
include way sound

/-- In a schema all augments have been applied. -/
theorem augments_applied : AugmentOutcome library.directory way.grown.next schema.augments schema.modules [] := by
  have outcome : AugmentOutcome library.directory _ _ _ _ := (way.ready sound).outcome
  have run : (augmentAll library.directory way.trees way.expansion.augments).run way.grown =
      (.ok schema.modules, way.final) := way.augmented
  rw [augmentAll_run] at run
  obtain ⟨result, -⟩ := Prod.mk.inj run
  split at result
  case h_1 noneLeft =>
    rw [noneLeft, Except.ok.inj result] at outcome
    rwa [way.augments]
  case h_2 => cases result

omit sound in
theorem mem_below_of_marked {x c : SchemaNode} (inTrees : x ∈ nodesOfAll (treesOf schema))
    (isChild : c ∈ x.children) {i : Nat} (marked : c.augment = some i) :
    c ∈ nodesOfAll schema.modules.below := by
  obtain ⟨tree, isTree, inTree⟩ := SchemaNode.mem_nodesOfAll.1 inTrees
  rcases List.mem_append.1 isTree with isModule | isGrouping
  · have below := SchemaNode.mem_nodesOfAll_below (SchemaNode.mem_nodesOfAll.2 ⟨tree, isModule, inTree⟩) isChild
    rwa [List.flatMap_map] at below
  · have unmarked := (expandForest_unmarked schema.forest (library.modules.map (·.2))
      ⟨library.next, [], way.log⟩).2.1
    rw [way.expanded, ← way.groupings] at unmarked
    have inside := SchemaNode.mem_nodesOfAll_child (SchemaNode.mem_nodesOfAll.2 ⟨tree, isGrouping, inTree⟩) isChild
    exact absurd (marked.symm.trans (unmarked _ (mem_stampedAll.2 ⟨c, inside, rfl⟩))) nofun

theorem receives_of_marked {x c a : SchemaNode} (inTrees : x ∈ nodesOfAll (treesOf schema))
    (isChild : c ∈ x.children) (isAugment : a ∈ schema.augments) (marked : c.augment = some a.id) :
    Receives library.directory schema a x.id := by
  obtain ⟨target, mine, place⟩ := (augments_applied way sound).applied a isAugment List.not_mem_nil
  obtain ⟨path, leads⟩ := place.leads
  have targetStands := target_mem_trees leads
  -- A node has one parent, so finding it below a second node shows that this one is the first.
  have parent : ∀ {y d : SchemaNode}, y ∈ nodesOfAll (treesOf schema) → d ∈ y.children →
      c.statement = d.statement → y = x := by
    intro y d inTrees' isChild' same
    exact SchemaNode.eq_of_common_child (nodes_ids_nodup (way.sound sound)) inTrees' inTrees isChild' isChild
      (congrArg Statement.id same.symm)
  rcases (place.marked c (mem_below_of_marked way inTrees isChild marked)).1 marked with
    ⟨child, isOwn, same⟩ | ⟨placed, isMine, same⟩
  · obtain ⟨node, isMine, stands⟩ := exists_right_of_forall₂ place.stands isOwn
    cases stands with
    | itself _ grown =>
      have isTarget := parent targetStands (place.mine_subset isMine) (same.trans grown.statement.symm)
      exact .target leads (List.ne_nil_of_mem isOwn) (congrArg SchemaNode.id isTarget)
    | inCase needs _ grown =>
      have inTarget := place.mine_subset isMine
      have isCase := parent (SchemaNode.mem_nodesOfAll_child targetStands inTarget) List.mem_cons_self
        (same.trans grown.statement.symm)
      refine .inCase leads isOwn needs inTarget ?_ List.mem_cons_self grown.statement
      rw [← isCase]
      rfl
  · have isTarget := parent targetStands (place.mine_subset isMine) same
    obtain ⟨child, isOwn, -⟩ := exists_left_of_forall₂ place.stands isMine
    exact .target leads (List.ne_nil_of_mem isOwn) (congrArg SchemaNode.id isTarget)

theorem Receives.exists_marked {a : SchemaNode} (isAugment : a ∈ schema.augments) {id : Nat}
    (receives : Receives library.directory schema a id) :
    ∃ x ∈ nodesOfAll (treesOf schema), x.id = id ∧ ∃ c ∈ x.children, c.augment = some a.id := by
  obtain ⟨target, mine, place⟩ := (augments_applied way sound).applied a isAugment List.not_mem_nil
  obtain ⟨path, leads⟩ := place.leads
  have targetStands := target_mem_trees leads
  cases receives with
  | target leads' brings isTarget =>
    cases leads.symm.trans leads'
    obtain ⟨child, isOwn⟩ := List.exists_mem_of_ne_nil _ brings
    obtain ⟨placed, isMine, -⟩ := exists_right_of_forall₂ place.stands isOwn
    have isChild := place.mine_subset isMine
    have below := SchemaTrees.children_mem_below (augmentTarget?_leads leads) isChild
    exact ⟨target, targetStands, isTarget, placed, isChild, (place.marked placed below).2 (.inr ⟨placed, isMine, rfl⟩)⟩
  | @inCase _ _ child wrapper inner leads' isOwn needs stands made holds own =>
    cases leads.symm.trans leads'
    have below : inner ∈ nodesOfAll schema.modules.below :=
      SchemaNode.mem_nodesOfAll_child (SchemaTrees.children_mem_below (augmentTarget?_leads leads) stands) holds
    exact ⟨wrapper, SchemaNode.mem_nodesOfAll_child targetStands stands, congrArg Statement.id made, inner, holds,
      (place.marked inner below).2 (.inl ⟨child, isOwn, own⟩)⟩

/-- The statements that receive an augment are those whose node has a node of the augment below it. -/
theorem receives_iff {a : SchemaNode} (isAugment : a ∈ schema.augments) {s : Statement} (known : s ∈ schema.all) :
    Receives library.directory schema a s.id ↔ ∃ c ∈ (schemaNode schema s).children, c.augment = some a.id := by
  have schemaSound := way.sound sound
  constructor
  · intro receives
    obtain ⟨x, inTrees, atId, marked⟩ := receives.exists_marked way sound isAugment
    have same := schemaSound.eq_of_id_eq (statement_known schemaSound inTrees) known atId
    rwa [← same, schemaNode_eq schemaSound inTrees]
  · rintro ⟨c, isChild, marked⟩
    rcases schemaNode_cases schemaSound known with ⟨inTrees, same⟩ | alone
    · have receives := receives_of_marked way sound inTrees isChild isAugment marked
      rwa [SchemaNode.id, same] at receives
    · rw [alone] at isChild
      exact absurd isChild List.not_mem_nil

/-- A node below that of a statement is of an augment exactly if the statement receives one. -/
theorem receives_any_iff {s : Statement} (known : s ∈ schema.all) :
    (∃ a ∈ schema.augments, Receives library.directory schema a s.id) ↔
      ∃ c ∈ (schemaNode schema s).children, c.augment.isSome := by
  constructor
  · rintro ⟨a, isAugment, receives⟩
    obtain ⟨c, isChild, marked⟩ := (receives_iff way sound isAugment known).1 receives
    exact ⟨c, isChild, Option.isSome_of_eq_some marked⟩
  · rintro ⟨c, isChild, isMarked⟩
    obtain ⟨i, marked⟩ := Option.isSome_iff_exists.1 isMarked
    rcases schemaNode_cases (way.sound sound) known with ⟨inTrees, -⟩ | alone
    · obtain ⟨a, isAugment, rfl, -⟩ :=
        (augments_applied way sound).marks c (mem_below_of_marked way inTrees isChild marked) i marked
      exact ⟨a, isAugment, (receives_iff way sound isAugment known).2 ⟨c, isChild, marked⟩⟩
    · rw [alone] at isChild
      exact absurd isChild List.not_mem_nil

/-- A node of a statement has the `uses` of the statement, and those of the augments that the statement receives. -/
theorem mem_usesOf_iff {s : Statement} (known : s ∈ schema.all) (backend : Backend) (tree : SchemaNode)
    {u : Statement} :
    u ∈ (shopOf schema backend tree).usesOf s ↔ u ∈ s.subsWith "uses" ∨
      ∃ a ∈ schema.augments, Receives library.directory schema a s.id ∧ u ∈ a.statement.subsWith "uses" := by
  have distinct : (schema.augments.map (·.id)).Nodup := way.augments ▸ (way.ready sound).distinct
  rw [Workshop.usesOf, List.mem_append]
  refine or_congr_right ?_
  simp only [List.mem_flatMap, List.mem_eraseDups, List.mem_filterMap]
  constructor
  · rintro ⟨i, ⟨c, isChild, marked⟩, isUses⟩
    unfold Workshop.augmentUses at isUses
    cases found : schema.augments.find? (·.id == i) with
    | none => simp [shopOf, found] at isUses
    | some a =>
      have isAugment := List.mem_of_find?_eq_some found
      have atId : a.id = i := by simpa using List.find?_some found
      refine ⟨a, isAugment, (receives_iff way sound isAugment known).2 ⟨c, isChild, atId ▸ marked⟩, ?_⟩
      simpa [shopOf, found] using isUses
  · rintro ⟨a, isAugment, receives, isUses⟩
    obtain ⟨c, isChild, marked⟩ := (receives_iff way sound isAugment known).1 receives
    refine ⟨a.id, ⟨c, isChild, marked⟩, ?_⟩
    rw [Workshop.augmentUses, shopOf, find?_key_eq distinct isAugment]
    exact isUses

end Linked

/-! ## What the nodes of a model show of augments -/

/-- In the model of a loaded module, a node that can have members is augmented exactly if its statement receives an
    augment.  It keeps the groupings that its statement uses, and those that such augments use, but no others. -/
theorem build_augmented_iff (texts : List String) (sources : List Source) (files : FileTree) (schema : Resolved)
    (resolved : ((Library.ofTexts texts).resolve sources files).result = .ok schema) (backend : Backend)
    (m : String × SchemaNode) (isModule : m ∈ schema.modules) :
    let directory := ((Library.ofTexts texts).loadAll sources files).library.directory
    let shop := shopOf schema backend m.2
    let model := (Module.build schema backend m.2).1
    ∀ n ∈ model.listing, n.members.isSome → ∃ s, schema.statement? n.statement = some s ∧
      (n.isAugmented = true ↔ ∃ a ∈ schema.augments, Receives directory schema a s.id) ∧
      (∀ u, u ∈ shop.usesOf s ↔ u ∈ s.subsWith "uses" ∨
        ∃ a ∈ schema.augments, Receives directory schema a s.id ∧ u ∈ a.statement.subsWith "uses") ∧
      n.uses = lastOfEach ((shop.usesOf s).filterMap (shop.usedIn model.ledger)) := by
  intro directory shop model n inListing isOpen
  have librarySound := (Library.sound_ofTexts texts).loadAll sources files
  obtain ⟨way⟩ := Library.link_ok (Library.link_loadAll resolved)
  have sound := way.sound librarySound
  obtain ⟨s, known, atId, -⟩ := ((build_kept sound backend isModule).lawful n inListing).records
  obtain ⟨records, shows, -⟩ := lawful_of_statement sound backend isModule inListing known atId
  refine ⟨s, ?_, ?_, fun u => mem_usesOf_iff way librarySound known backend m.2, ?_⟩
  · rw [atId]
    exact sound.statement?_eq known
  · rw [receives_any_iff way librarySound known]
    exact shows.augmented isOpen
  · obtain ⟨members, isMembers⟩ := Option.isSome_iff_exists.1 isOpen
    rw [Node.uses, isMembers]
    exact records.uses members isMembers

/-- A module with an augment of a choice that uses a grouping, and with a container that has no augment. -/
def usedInChoice : String :=
  "<module name='m' xmlns='urn:ietf:params:xml:ns:yang:yin:1'><grouping name='g'><leaf name='y'/></grouping>" ++
  "<choice name='ch'/><container name='d'/><augment target-node='/ch'><uses name='g'/></augment></module>"

/-- The choice and the case below it receive the augment; the container does not. -/
theorem build_augmented_iff_usedInChoice :
    ∃ schema m, ((Library.ofTexts [usedInChoice]).resolve [] ⟨[]⟩).result = .ok schema ∧ m ∈ schema.modules ∧
      (let directory := ((Library.ofTexts [usedInChoice]).loadAll [] ⟨[]⟩).library.directory
       let model := (Module.build schema (.root 0) m.2).1
       (∀ keyword ∈ ["choice", "case"], ∃ n ∈ model.listing, n.keyword = keyword ∧ n.isAugmented = true ∧
         ∃ a ∈ schema.augments, Receives directory schema a n.statement) ∧
       ∃ n ∈ model.listing, n.keyword = "container" ∧ n.members.isSome ∧
         ¬ ∃ a ∈ schema.augments, Receives directory schema a n.statement) := by
  have evaluated : ((Library.ofTexts [usedInChoice]).resolve [] ⟨[]⟩).result.toOption.any (fun schema =>
      schema.modules.any fun m =>
        let model := (Module.build schema (.root 0) m.2).1
        let shown (keyword : String) (augmented : Bool) : Bool := model.listing.any fun n =>
          n.keyword == keyword && n.members.isSome && n.isAugmented == augmented
        shown "choice" true && shown "case" true && shown "container" false) = true := by
    decide +kernel
  obtain ⟨schema, resolved, found⟩ := exists_ok evaluated
  simp only [List.any_eq_true, Bool.and_eq_true, beq_iff_eq] at found
  obtain ⟨m, isModule, ⟨⟨n₁, inListing₁, ⟨choice, isOpen₁⟩, augmented₁⟩, n₂, inListing₂, ⟨isCase, isOpen₂⟩, augmented₂⟩,
    n₃, inListing₃, ⟨container, isOpen₃⟩, notAugmented⟩ := found
  -- The statement of a node has the number that the node says.
  have receives : ∀ n ∈ (Module.build schema (.root 0) m.2).1.listing, n.members.isSome →
      (n.isAugmented = true ↔ ∃ a ∈ schema.augments,
        Receives ((Library.ofTexts [usedInChoice]).loadAll [] ⟨[]⟩).library.directory schema a n.statement) := by
    intro n inListing isOpen
    obtain ⟨s, isOf, iff, -⟩ := build_augmented_iff _ _ _ schema resolved (.root 0) m isModule n inListing isOpen
    rw [← (Resolved.Sound.statement?_spec isOf).2]
    exact iff
  refine ⟨schema, m, resolved, isModule, ?_, n₃, inListing₃, container, isOpen₃, ?_⟩
  · rw [List.forall_mem_cons, List.forall_mem_singleton]
    exact ⟨⟨n₁, inListing₁, choice, augmented₁, (receives n₁ inListing₁ isOpen₁).1 augmented₁⟩,
      n₂, inListing₂, isCase, augmented₂, (receives n₂ inListing₂ isOpen₂).1 augmented₂⟩
  · rw [← receives n₃ inListing₃ isOpen₃, notAugmented]
    exact nofun

/-- The case is augmented and has the grouping that the augment uses, though no augment leads to it and it uses no
    grouping itself. -/
theorem augmented_of_no_target :
    ∃ schema m, ((Library.ofTexts [usedInChoice]).resolve [] ⟨[]⟩).result = .ok schema ∧ m ∈ schema.modules ∧
      (let directory := ((Library.ofTexts [usedInChoice]).loadAll [] ⟨[]⟩).library.directory
       ∃ n ∈ (Module.build schema (.root 0) m.2).1.listing,
         n.members.isSome ∧ n.isAugmented = true ∧ n.uses = [("g", 5)] ∧
         (∀ a ∈ schema.augments, ∀ path target,
           augmentTarget? directory schema.modules a = some (path, target) → target.id ≠ n.statement) ∧
         ∃ s, schema.statement? n.statement = some s ∧ s.subsWith "uses" = []) := by
  have evaluated : ((Library.ofTexts [usedInChoice]).resolve [] ⟨[]⟩).result.toOption.any (fun schema =>
      schema.modules.any fun m => (Module.build schema (.root 0) m.2).1.listing.any fun n =>
        n.members.isSome && n.isAugmented && n.uses == [("g", 5)] &&
        (schema.augments.all fun a =>
          (augmentTarget? ((Library.ofTexts [usedInChoice]).loadAll [] ⟨[]⟩).library.directory schema.modules a).all
            fun found => found.2.id != n.statement) &&
        (schema.statement? n.statement).any fun s => (s.subsWith "uses").isEmpty) = true := by
    decide +kernel
  obtain ⟨schema, resolved, found⟩ := exists_ok evaluated
  simp only [List.any_eq_true, Bool.and_eq_true, beq_iff_eq, List.all_eq_true, Option.any_eq_true,
    List.isEmpty_iff] at found
  obtain ⟨m, isModule, n, inListing, ⟨⟨⟨isOpen, augmented⟩, uses⟩, elsewhere⟩, s, isOf, noUses⟩ := found
  refine ⟨schema, m, resolved, isModule, n, inListing, isOpen, augmented, uses, ?_, s, isOf, noUses⟩
  intro a isAugment path target leads
  have differs := elsewhere a isAugment
  rw [leads] at differs
  simpa using differs

end YangStubs.Model
