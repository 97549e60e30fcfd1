import YangStubs.Proofs.Schema.Grafting

/-! # Rounds of augments

The augments are gone through in rounds, and each is applied in the first round in which its path leads
somewhere.  `Settled` is what holds of the trees in between; one augment keeps it, hence a round, hence all
rounds.  A round that applies nothing leaves only augments without a target.
-/

namespace YangStubs.Schema

open SchemaNode (placed placedAll stamped stampedAll nodes nodesOfAll)
open Statement (withinAll countOf)

variable {target : SchemaNode} {start : Nat}

/-- The trees after some augments have been applied: each is in its place, and no others have left marks. -/
structure Settled (directory : Directory) (start : Nat) (trees : SchemaTrees)
    (applied : List SchemaNode) : Prop where
  names : (trees.map (·.1)).Nodup
  each : ∀ a ∈ applied, ∃ target mine, AppliedAt directory start trees a target mine
  marks : ∀ stamp ∈ stampedAll trees.below, ∀ i, stamp.2 = some i → i ∈ applied.map (·.id)

/-- Augments that wait to be applied after others. -/
structure Waiting (applied pending : List SchemaNode) : Prop where
  distinct : ((applied ++ pending).map (·.id)).Nodup
  unmarked : Unmarked (pending.flatMap (·.children))

theorem stampedAll_below_sublist (l : List SchemaNode) :
    (stampedAll (l.flatMap (·.children))).Sublist (stampedAll l) := by
  induction l with
  | nil => exact List.Sublist.refl _
  | cons node rest ih =>
    simp only [List.flatMap_cons, SchemaNode.stampedAll_append, SchemaNode.stampedAll_cons, SchemaNode.stamped_eq]
    exact (List.Sublist.cons _ (List.Sublist.refl _)).append ih

section

variable {applied pending : List SchemaNode} {a : SchemaNode} (waiting : Waiting applied (a :: pending))
include waiting

theorem Waiting.below : Unmarked (a.children.flatMap (·.children)) := by
  intro stamp member
  refine waiting.unmarked stamp ?_
  rw [List.flatMap_cons, SchemaNode.stampedAll_append]
  exact List.mem_append_left _ ((stampedAll_below_sublist _).subset member)

theorem Waiting.not_mem : a.id ∉ applied.map (·.id) := by
  have distinct := waiting.distinct
  rw [List.map_append, List.map_cons] at distinct
  intro member
  exact (List.disjoint_of_nodup_append distinct) member List.mem_cons_self

theorem Waiting.tail : Waiting applied pending := by
  refine ⟨waiting.distinct.sublist ?_, fun stamp member => waiting.unmarked stamp ?_⟩
  · exact ((List.sublist_cons_self a pending).append_left applied).map _
  · rw [List.flatMap_cons, SchemaNode.stampedAll_append]
    exact List.mem_append_right _ member

theorem Waiting.next : Waiting (applied ++ [a]) pending := by
  refine ⟨?_, waiting.tail.unmarked⟩
  have distinct := waiting.distinct
  rwa [List.append_assoc]

end

/-- One augment more. -/
theorem Settled.step {directory : Directory} {start : Nat} {trees : SchemaTrees}
    {applied pending : List SchemaNode} {a target : SchemaNode} {path : String × List String} {g : Growth}
    (settled : Settled directory start trees applied) (waiting : Waiting applied (a :: pending))
    (found : augmentTarget? directory trees a = some (path, target)) (later : start ≤ g.next) :
    Settled directory start (trees.attachAt path (graftAt a target g).1) (applied ++ [a]) := by
  obtain ⟨-, leads⟩ := augmentTarget?_eq_some.1 found
  -- A statement that grafting brings is marked by this augment or not at all.
  have graftMarks : ∀ stamp ∈ stampedAll (graftAt a target g).1, ∀ i, stamp.2 = some i → i = a.id := by
    intro stamp member i isMarked
    obtain ⟨g', -, isGraft⟩ := graftAt_eq_graft a target g
    rw [isGraft] at member
    cases graft_stamped _ _ _ g' stamp member with
    | inl own => exact Option.some.inj (isMarked.symm.trans own.1)
    | inr below =>
      rw [waiting.below stamp below] at isMarked
      exact absurd isMarked nofun
  refine ⟨?_, ?_, ?_⟩
  · rw [← SchemaTrees.roots_names, SchemaTrees.roots_attachAt, SchemaTrees.roots_names]
    exact settled.names
  · intro b member
    cases List.mem_append.1 member with
    | inl before =>
      -- Earlier augments stay in place, since the trees only grow and the new marks are not theirs.
      obtain ⟨target', mine, appliedAt⟩ := settled.each b before
      refine appliedAt.later (SchemaTrees.extends_attachAt _ _ _) fun stamp inTrees isMarked => ?_
      cases (stamped_attachAt_graftAt settled.names leads g stamp).1 inTrees with
      | inl known => exact known
      | inr now =>
        have same := graftMarks stamp now _ isMarked
        exact absurd (List.mem_map_of_mem before) (same ▸ waiting.not_mem)
    | inr now =>
      cases List.mem_singleton.1 now
      exact ⟨_, _, AppliedAt.of_graft settled.names found waiting.below
        (fun stamp inTrees isMarked => waiting.not_mem (settled.marks stamp inTrees _ isMarked)) later⟩
  · intro stamp member i isMarked
    rw [List.map_append, List.mem_append]
    cases (stamped_attachAt_graftAt settled.names leads g stamp).1 member with
    | inl known => exact .inl (settled.marks stamp known i isMarked)
    | inr now => exact .inr (by simpa using graftMarks stamp now i isMarked)

theorem graft_next (augment : Nat) (site : Site) (children : List SchemaNode) :
    ∀ g : Growth, g.next ≤ ((graft augment site children).run g).2.next := by
  induction children with
  | nil => exact fun g => Nat.le_refl g.next
  | cons child rest ih =>
    intro g
    rw [graft_cons_run]
    refine Nat.le_trans ?_ (ih _)
    rw [placeAt_run]
    split
    · exact Nat.le_succ g.next
    · exact Nat.le_refl g.next

/-- One round: what is not left has been applied. -/
theorem augmentRound_settles (directory : Directory) (pending : List SchemaNode) :
    ∀ (trees : SchemaTrees) (applied : List SchemaNode) (g : Growth),
      Settled directory start trees applied → Waiting applied pending → start ≤ g.next →
      let r := (augmentRound directory trees pending).run g
      start ≤ r.2.next ∧ r.1.2.Sublist pending ∧
        ∃ more, (more ++ r.1.2).Perm pending ∧ Settled directory start r.1.1 (applied ++ more) := by
  induction pending with
  | nil =>
    intro trees applied g settled _ later
    exact ⟨later, List.Sublist.refl _, [], List.Perm.refl _, by rwa [List.append_nil]⟩
  | cons a rest ih =>
    intro trees applied g settled waiting later
    rw [augmentRound_cons_run]
    cases found : augmentTarget? directory trees a with
    | some result =>
      obtain ⟨path, target⟩ := result
      have afterwards : start ≤ (graftAt a target g).2.next := by
        obtain ⟨g', sameNext, isGraft⟩ := graftAt_eq_graft a target g
        rw [isGraft]
        exact Nat.le_trans (sameNext ▸ later) (graft_next _ _ _ g')
      obtain ⟨next, left, more, together, settled'⟩ :=
        ih _ _ _ (settled.step waiting found later) waiting.next afterwards
      refine ⟨next, left.cons a, a :: more, together.cons a, ?_⟩
      rwa [List.append_assoc] at settled'
    | none =>
      obtain ⟨next, left, more, together, settled'⟩ := ih trees applied g settled waiting.tail later
      refine ⟨next, left.cons_cons a, more, ?_, settled'⟩
      exact List.perm_middle.trans (together.cons a)

theorem augmentRound_length_le (directory : Directory) (pending : List SchemaNode) :
    ∀ (trees : SchemaTrees) (g : Growth),
      ((augmentRound directory trees pending).run g).1.2.length ≤ pending.length := by
  induction pending with
  | nil => exact fun trees g => Nat.le_refl 0
  | cons a rest ih =>
    intro trees g
    rw [augmentRound_cons_run]
    cases augmentTarget? directory trees a with
    | some result => exact Nat.le_succ_of_le (ih _ _)
    | none => exact Nat.succ_le_succ (ih _ _)

/-- A round that leaves all augments has done nothing, since none of them has a target. -/
theorem augmentRound_stuck (directory : Directory) (pending : List SchemaNode) :
    ∀ (trees : SchemaTrees) (g : Growth),
      ((augmentRound directory trees pending).run g).1.2.length = pending.length →
      (augmentRound directory trees pending).run g = ((trees, pending), g) ∧
        ∀ a ∈ pending, augmentTarget? directory trees a = none := by
  induction pending with
  | nil => exact fun trees g _ => ⟨rfl, fun a member => absurd member List.not_mem_nil⟩
  | cons a rest ih =>
    intro trees g allLeft
    rw [augmentRound_cons_run] at allLeft ⊢
    cases found : augmentTarget? directory trees a with
    | some result =>
      -- An augment with a target is applied, so that there is one less.
      obtain ⟨path, target⟩ := result
      rw [found] at allLeft
      have fewer := augmentRound_length_le directory rest
        (trees.attachAt path (graftAt a target g).1) (graftAt a target g).2
      simp only [List.length_cons] at allLeft
      omega
    | none =>
      rw [found] at allLeft
      simp only [List.length_cons, Nat.add_right_cancel_iff] at allLeft
      obtain ⟨same, stuck⟩ := ih trees g allLeft
      rw [same]
      refine ⟨rfl, fun b member => ?_⟩
      cases List.mem_cons.1 member with
      | inl here => rw [here, found]
      | inr later => exact stuck b later

mutual
theorem nodes_stamped :
    ∀ node : SchemaNode, node.nodes.map (fun n => (n.statement, n.augment)) = node.stamped
  | ⟨statement, children, augment⟩ => by
    simp only [nodes, stamped, List.map_cons, nodesOfAll_stamped children]

theorem nodesOfAll_stamped :
    ∀ l : List SchemaNode, (nodesOfAll l).map (fun n => (n.statement, n.augment)) = stampedAll l
  | [] => rfl
  | node :: rest => by
    simp only [nodesOfAll, stampedAll, List.map_append, nodes_stamped node, nodesOfAll_stamped rest]
end

theorem mem_stampedAll {stamp : Statement × Option Nat} {l : List SchemaNode} :
    stamp ∈ stampedAll l ↔ ∃ node ∈ nodesOfAll l, (node.statement, node.augment) = stamp := by
  rw [← nodesOfAll_stamped, List.mem_map]

theorem stampedAll_subset {l l' : List SchemaNode} (nested : l ⊆ l') : stampedAll l ⊆ stampedAll l' := by
  intro stamp member
  obtain ⟨node, inside, same⟩ := mem_stampedAll.1 member
  obtain ⟨top, isTop, below⟩ := SchemaNode.mem_nodesOfAll.1 inside
  exact mem_stampedAll.2 ⟨node, SchemaNode.mem_nodesOfAll.2 ⟨top, nested isTop, below⟩, same⟩

theorem Waiting.left {applied pending more left : List SchemaNode} (waiting : Waiting applied pending)
    (together : (more ++ left).Perm pending) : Waiting (applied ++ more) left := by
  constructor
  · rw [List.append_assoc]
    exact ((together.append_left applied).map _).nodup_iff.2 waiting.distinct
  · intro stamp member
    refine waiting.unmarked stamp ?_
    have nested : left.flatMap (·.children) ⊆ pending.flatMap (·.children) := by
      intro node inside
      obtain ⟨a, isLeft, isChild⟩ := List.mem_flatMap.1 inside
      exact List.mem_flatMap.2 ⟨a, together.subset (List.mem_append_right _ isLeft), isChild⟩
    exact stampedAll_subset nested member

/-- All rounds: in the end no augment is left, or those that are left have no target. -/
theorem augmentRounds_settles (directory : Directory) :
    ∀ (bound : Nat) (pending : List SchemaNode) (trees : SchemaTrees) (applied : List SchemaNode)
      (g : Growth), pending.length ≤ bound → Settled directory start trees applied →
      Waiting applied pending → start ≤ g.next →
      let r := (augmentRounds directory bound trees pending).run g
      r.1.2.Sublist pending ∧ (∀ a ∈ r.1.2, augmentTarget? directory r.1.1 a = none) ∧
        ∃ more, (more ++ r.1.2).Perm pending ∧ Settled directory start r.1.1 (applied ++ more)
  | _, [], trees, applied, g, _, settled, _, _ => by
    have nothing : ∀ bound, (augmentRounds directory bound trees []).run g = ((trees, []), g) := by
      intro bound
      cases bound <;> rfl
    rw [nothing]
    exact ⟨List.Sublist.refl _, fun a member => absurd member List.not_mem_nil,
      [], List.Perm.refl _, by rwa [List.append_nil]⟩
  | 0, a :: rest, _, _, _, bounded, _, _, _ => absurd bounded (Nat.not_succ_le_zero rest.length)
  | bound + 1, a :: rest, trees, applied, g, bounded, settled, waiting, later => by
    rw [augmentRounds_succ_run]
    obtain ⟨next, left, more, together, settled'⟩ :=
      augmentRound_settles directory (a :: rest) trees applied g settled waiting later
    have fewer := augmentRound_length_le directory (a :: rest) trees g
    by_cases allLeft : ((augmentRound directory trees (a :: rest)).run g).1.2.length = (a :: rest).length
    · obtain ⟨same, stuck⟩ := augmentRound_stuck directory (a :: rest) trees g allLeft
      simp only [allLeft, beq_self_eq_true, if_true]
      rw [same] at left together settled' ⊢
      exact ⟨left, stuck, more, together, settled'⟩
    · simp only [beq_iff_eq, allLeft, if_false]
      -- Some augment has been applied, so one round less is enough for the others.
      have smaller : ((augmentRound directory trees (a :: rest)).run g).1.2.length ≤ bound := by
        omega
      obtain ⟨left', stuck, more', together', settled''⟩ := augmentRounds_settles directory bound _ _ _ _
        smaller settled' (waiting.left together) next
      refine ⟨left'.trans left, stuck, more ++ more', ?_, ?_⟩
      · rw [List.append_assoc]
        exact (together'.append_left more).trans together
      · rwa [List.append_assoc] at settled''

/-! ## The outcome -/

/-- Trees and augments before any augment is applied: all statements have numbers of their own, and nothing
    is marked. -/
structure Ready (trees : SchemaTrees) (augments : List SchemaNode) (g : Growth) : Prop where
  names : (trees.map (·.1)).Nodup
  distinct : (augments.map (·.id)).Nodup
  tree : ∀ s ∈ toPlace trees augments, isTreeKeyword s.keyword
  once : ∀ i, countOf i (toPlace trees augments) ≤ 1
  numbered : ∀ s ∈ toPlace trees augments, s.id < g.next
  unmarked : Unmarked (trees.below ++ augments.flatMap (·.children))

/-- An augment in its place: its path leads to the target, its nodes stand there next to each other and
    nowhere else, and they and their cases are the nodes that it marks. -/
structure InPlace (directory : Directory) (start : Nat) (trees : SchemaTrees)
    (augment target : SchemaNode) (mine : List SchemaNode) : Prop where
  leads : ∃ path, augmentTarget? directory trees augment = some (path, target)
  together : ∃ before after, target.children = before ++ mine ++ after
  stands : List.Forall₂ (StandsAs augment.id start target.statement.site) augment.children mine
  once : ∀ child ∈ augment.children, countOf child.id (placedAll trees.below) = 1
  marked : ∀ node ∈ nodesOfAll trees.below, node.augment = some augment.id ↔
    (∃ child ∈ augment.children, node.statement = child.statement) ∨ ∃ placed ∈ mine, node.statement = placed.statement

theorem InPlace.mine_subset {directory : Directory} {trees : SchemaTrees} {augment : SchemaNode}
    {mine : List SchemaNode} (place : InPlace directory start trees augment target mine) :
    mine ⊆ target.children := by
  obtain ⟨before, after, children⟩ := place.together
  rw [children, List.append_assoc]
  exact List.subset_append_of_subset_right _ (List.subset_append_left _ _)

/-- What comes of applying augments: those that are not left are in their places, those that are left have
    no target, and every mark is that of an augment that has been applied. -/
structure AugmentOutcome (directory : Directory) (start : Nat) (augments : List SchemaNode)
    (trees : SchemaTrees) (left : List SchemaNode) : Prop where
  inOrder : left.Sublist augments
  stuck : ∀ a ∈ left, augmentTarget? directory trees a = none
  applied : ∀ a ∈ augments, a.id ∉ left.map (·.id) → ∃ target mine, InPlace directory start trees a target mine
  marks : ∀ node ∈ nodesOfAll trees.below, ∀ i, node.augment = some i →
    ∃ a ∈ augments, a.id = i ∧ a.id ∉ left.map (·.id)

section Outcome

variable {directory : Directory} {trees trees' : SchemaTrees} {augments left : List SchemaNode}
  {g g' : Growth}

theorem Ready.settled (ready : Ready trees augments g) : Settled directory g.next trees [] := by
  refine ⟨ready.names, fun a member => absurd member List.not_mem_nil, fun stamp member i isMarked => ?_⟩
  rw [ready.unmarked stamp (by
    rw [SchemaNode.stampedAll_append]
    exact List.mem_append_left _ member)] at isMarked
  exact absurd isMarked nofun

theorem Ready.waiting (ready : Ready trees augments g) : Waiting [] augments := by
  refine ⟨ready.distinct, fun stamp member => ready.unmarked stamp ?_⟩
  rw [SchemaNode.stampedAll_append]
  exact List.mem_append_right _ member

/-- No statement stands twice in the trees after all rounds. -/
theorem Ready.once_after (ready : Ready trees augments g) (i : Nat) :
    countOf i (placedAll ((augmentRounds directory augments.length trees augments).run g).1.1.below) ≤ 1 := by
  obtain ⟨⟨fresh, grown⟩, -, -⟩ := augmentRounds_augments holdsOfCases_true directory augments.length augments trees
    g ready.names ready.tree
  have count := grown.count i
  have before := ready.once i
  simp only [toPlace, Statement.countOf_append] at count before
  -- A number is that of a statement from before or of one that has been made, not both.
  by_cases known : i < g.next
  · have notMade : countOf i (madeStatements fresh) = 0 := by
      refine List.count_eq_zero.2 fun member => ?_
      have number := (grown.numbered.mem_iff i).1 member
      omega
    omega
  · have notThere : countOf i (toPlace trees augments) = 0 := by
      refine List.count_eq_zero.2 fun member => ?_
      obtain ⟨s, inPlace, rfl⟩ := List.mem_map.1 member
      exact known (ready.numbered s inPlace)
    have single : countOf i (madeStatements fresh) ≤ 1 :=
      List.nodup_iff_count_le_one.1 grown.numbered.nodup i
    simp only [toPlace, Statement.countOf_append] at notThere
    omega

/-- The nodes of an augment stand in the trees, and they and their cases are marked. -/
theorem StandsAs.exists_marked {augment : Nat} {site : Site} {children mine : List SchemaNode}
    (stands : List.Forall₂ (StandsAs augment start site) children mine) :
    (∀ child ∈ children, ∃ node ∈ nodesOfAll mine, node.statement = child.statement ∧ node.augment = some augment) ∧
    ∀ placed ∈ mine, placed.augment = some augment := by
  induction stands with
  | nil => simp
  | @cons child node children mine here _ ih =>
    have first : (∃ inner ∈ node.nodes, inner.statement = child.statement ∧
        inner.augment = some augment) ∧ node.augment = some augment := by
      cases here with
      | itself plain grown =>
        exact ⟨⟨node, SchemaNode.mem_nodes_self node, grown.statement, grown.augment⟩, grown.augment⟩
      | @inCase inner more number needs fresh grown =>
        refine ⟨⟨inner, ?_, grown.statement, grown.augment⟩, rfl⟩
        rw [SchemaNode.nodes_eq, List.mem_cons]
        exact .inr (SchemaNode.mem_nodesOfAll.2 ⟨inner, List.mem_cons_self, SchemaNode.mem_nodes_self inner⟩)
    constructor
    · intro other member
      cases List.mem_cons.1 member with
      | inl isFirst =>
        obtain ⟨inner, inside, spec⟩ := first.1
        exact ⟨inner, List.mem_append_left _ inside, isFirst ▸ spec⟩
      | inr isLater =>
        obtain ⟨inner, inside, spec⟩ := ih.1 other isLater
        exact ⟨inner, List.mem_append_right _ inside, spec⟩
    · intro placed member
      cases List.mem_cons.1 member with
      | inl isFirst => exact isFirst ▸ first.2
      | inr isLater => exact ih.2 placed isLater

/-- The target of a path is in the trees, and what is below it is below the modules. -/
theorem SchemaNode.at?_mem {path : List String} {node : SchemaNode} (leads : node.at? path = some target) :
    target ∈ node.nodes := by
  induction path generalizing node with
  | nil =>
    cases leads
    exact SchemaNode.mem_nodes_self target
  | cons name rest ih =>
    obtain ⟨child, found, inChild⟩ := Option.bind_eq_some_iff.1 leads
    rw [SchemaNode.nodes_eq]
    exact List.mem_cons_of_mem _ (SchemaNode.mem_nodesOfAll.2 ⟨child, List.mem_of_find?_eq_some found, ih inChild⟩)

theorem SchemaTrees.at?_mem {path : String × List String} (leads : trees.at? path = some target) :
    target ∈ nodesOfAll (trees.map (·.2)) := by
  obtain ⟨tree, found, inTree⟩ := Option.bind_eq_some_iff.1 leads
  exact SchemaNode.mem_nodesOfAll.2
    ⟨tree, List.mem_map_of_mem (mem_of_lookup_eq_some found), SchemaNode.at?_mem inTree⟩

theorem SchemaTrees.children_mem_below {path : String × List String} {child : SchemaNode}
    (leads : trees.at? path = some target) (isChild : child ∈ target.children) : child ∈ nodesOfAll trees.below := by
  have below := SchemaNode.mem_nodesOfAll_below (SchemaTrees.at?_mem leads) isChild
  rwa [List.flatMap_map] at below

theorem AppliedAt.inPlace {augment : SchemaNode} {mine : List SchemaNode}
    (applied : AppliedAt directory start trees augment target mine)
    (once : ∀ i, countOf i (placedAll trees.below) ≤ 1) : InPlace directory start trees augment target mine := by
  obtain ⟨path, found⟩ := applied.leads
  obtain ⟨-, leads⟩ := augmentTarget?_eq_some.1 found
  obtain ⟨before, after, children⟩ := applied.together
  have mineBelow : ∀ node ∈ nodesOfAll mine, node ∈ nodesOfAll trees.below := by
    intro node inside
    obtain ⟨placed, isMine, inPlaced⟩ := SchemaNode.mem_nodesOfAll.1 inside
    refine SchemaNode.nodesOfAll_trans _ (SchemaTrees.children_mem_below leads ?_) inPlaced
    rw [children]
    exact List.mem_append_left _ (List.mem_append_right _ isMine)
  obtain ⟨own, cases⟩ := StandsAs.exists_marked applied.stands
  -- A statement stands once, so its mark can be read off any node of it.
  have sameMark : ∀ node ∈ nodesOfAll trees.below, ∀ other ∈ nodesOfAll trees.below,
      node.statement = other.statement → node.augment = other.augment := by
    intro node inTrees other inTrees' same
    have ids : ((nodesOfAll trees.below).map (·.statement.id)).Nodup := by
      refine List.nodup_iff_count_le_one.2 fun i => ?_
      have count := once i
      rwa [← SchemaNode.nodesOfAll_statements, countOf, List.map_map] at count
    exact congrArg SchemaNode.augment (List.inj_on_of_nodup_map ids inTrees inTrees' (congrArg Statement.id same))
  refine ⟨applied.leads, applied.together, applied.stands, ?_, ?_⟩
  · intro child isChild
    obtain ⟨node, inMine, same, -⟩ := own child isChild
    refine Nat.le_antisymm (once _) (List.count_pos_iff.2 (List.mem_map.2 ⟨node.statement, ?_, ?_⟩))
    · rw [← SchemaNode.nodesOfAll_statements]
      exact List.mem_map_of_mem (mineBelow node inMine)
    · rw [same]
      rfl
  · intro node inTrees
    constructor
    · intro isMarked
      have known := applied.only _ (mem_stampedAll.2 ⟨node, inTrees, rfl⟩) isMarked
      simp only [List.map_append, List.mem_append, List.mem_map] at known
      cases known with
      | inl isChild =>
        obtain ⟨child, member, same⟩ := isChild
        exact .inl ⟨child, member, same.symm⟩
      | inr isPlaced =>
        obtain ⟨placed, member, same⟩ := isPlaced
        exact .inr ⟨placed, member, same.symm⟩
    · intro known
      cases known with
      | inl isChild =>
        obtain ⟨child, member, same⟩ := isChild
        obtain ⟨other, inMine, same', isMarked⟩ := own child member
        rw [sameMark node inTrees other (mineBelow other inMine) (same.trans same'.symm), isMarked]
      | inr isPlaced =>
        obtain ⟨placed, member, same⟩ := isPlaced
        have inMine : placed ∈ nodesOfAll mine :=
          SchemaNode.mem_nodesOfAll.2 ⟨placed, member, SchemaNode.mem_nodes_self placed⟩
        rw [sameMark node inTrees placed (mineBelow placed inMine) same, cases placed member]

theorem Ready.outcome (ready : Ready trees augments g) :
    let r := (augmentRounds directory augments.length trees augments).run g
    AugmentOutcome directory g.next augments r.1.1 r.1.2 := by
  obtain ⟨inOrder, stuck, more, together, settled⟩ := augmentRounds_settles directory augments.length
    augments trees [] g (Nat.le_refl _) ready.settled ready.waiting (Nat.le_refl _)
  have distinct := (together.map (·.id)).nodup_iff.2 ready.distinct
  rw [List.map_append] at distinct
  refine ⟨inOrder, stuck, ?_, ?_⟩
  · intro a member notLeft
    cases List.mem_append.1 (together.symm.subset member) with
    | inl isApplied =>
      obtain ⟨target, mine, applied⟩ := settled.each a isApplied
      exact ⟨target, mine, applied.inPlace ready.once_after⟩
    | inr isLeft => exact absurd (List.mem_map_of_mem isLeft) notLeft
  · intro node inTrees i isMarked
    have member := settled.marks _ (mem_stampedAll.2 ⟨node, inTrees, rfl⟩) i isMarked
    obtain ⟨a, isApplied, rfl⟩ := List.mem_map.1 member
    refine ⟨a, together.subset (List.mem_append_left _ isApplied), rfl, fun isLeft => ?_⟩
    exact List.disjoint_of_nodup_append distinct (List.mem_map_of_mem isApplied) isLeft

theorem augmentAll_run (directory : Directory) (trees : SchemaTrees) (augments : List SchemaNode)
    (g : Growth) :
    (augmentAll directory trees augments).run g =
      (let r := (augmentRounds directory augments.length trees augments).run g
       (match r.1.2 with
        | [] => .ok r.1.1
        | a :: _ => .error (.augmentTarget a.name a.statement.home), r.2)) := by
  simp only [augmentAll, run_bind]
  cases ((augmentRounds directory augments.length trees augments).run g).1.2 <;> rfl

end Outcome

/-! ## Expanding marks nothing -/

theorem unmarked_below {l : List SchemaNode} (unmarked : Unmarked l) : Unmarked (l.flatMap (·.children)) :=
  fun stamp member => unmarked stamp ((stampedAll_below_sublist l).subset member)

theorem unmarked_nil : Unmarked [] :=
  fun _ member => absurd member List.not_mem_nil

theorem unmarked_append {left right : List SchemaNode} :
    Unmarked (left ++ right) ↔ Unmarked left ∧ Unmarked right := by
  simp only [Unmarked, SchemaNode.stampedAll_append, List.mem_append, or_imp, forall_and]

theorem unmarked_single {node : SchemaNode} : Unmarked [node] ↔ node.augment = none ∧ Unmarked node.children := by
  simp only [Unmarked, SchemaNode.stampedAll_cons, SchemaNode.stampedAll_nil, List.append_nil,
    SchemaNode.stamped_eq, List.mem_cons, forall_eq_or_imp]

theorem placeAt_unmarked (site : Site) {node : SchemaNode} (unmarked : Unmarked [node]) (g : Growth) :
    Unmarked [((placeAt site node).run g).1] := by
  rw [placeAt_run]
  split
  · exact unmarked_single.2 ⟨(unmarked_single.1 unmarked).1, unmarked⟩
  · exact unmarked

/-- An expander that brings no marked nodes. -/
def Expander.Unmarking (expand : Expander) : Prop :=
  ∀ busy site uses g, Unmarked ((expand busy site uses).run g).1

theorem contribution_unmarked {expand : Expander} (unmarking : expand.Unmarking)
    {one : Statement → StateM Growth SchemaNode} (busy : List Nat) (site : Site) {s : Statement}
    (single : ∀ g, Unmarked [((one s).run g).1]) (g : Growth) :
    Unmarked ((contribution expand one busy site s).run g).1 := by
  by_cases isUses : s.keyword = "uses"
  · rw [contribution_uses isUses]
    exact unmarking busy site s g
  · by_cases tree : isTreeKeyword s.keyword = true
    · rw [contribution_tree tree]
      exact placeAt_unmarked site (single g) _
    · rw [contribution_other isUses tree]
      exact unmarked_nil

mutual
theorem grow_unmarked {expand : Expander} (unmarking : expand.Unmarking) (busy : List Nat) :
    ∀ (s : Statement) (g : Growth), Unmarked [((grow expand busy s).run g).1]
  | ⟨id, keyword, _, _, _, _, _, subs⟩, g => by
    rw [grow_run]
    split
    · exact unmarked_single.2 ⟨rfl, growAll_unmarked unmarking busy ⟨id, keyword⟩ subs g⟩
    · exact unmarked_single.2 ⟨rfl, unmarked_nil⟩

theorem growAll_unmarked {expand : Expander} (unmarking : expand.Unmarking) (busy : List Nat) (site : Site) :
    ∀ (l : List Statement) (g : Growth), Unmarked ((growAll expand busy site l).run g).1
  | [], _ => unmarked_nil
  | s :: rest, g => by
    rw [growAll_cons_run]
    exact unmarked_append.2 ⟨contribution_unmarked unmarking busy site (grow_unmarked unmarking busy s) g,
      growAll_unmarked unmarking busy site rest _⟩
end

section

variable {expand : Expander} (unmarking : expand.Unmarking)
include unmarking

theorem copyAllTo_unmarked (busy : List Nat) (site : Site) (l : List Statement) :
    ∀ g : Growth, Unmarked ((copyAllTo expand busy site l).run g).1 := by
  induction l with
  | nil => exact fun _ => unmarked_nil
  | cons s rest ih =>
    intro g
    rw [copyAllTo_cons_run]
    refine unmarked_append.2 ⟨contribution_unmarked unmarking busy site (fun g' => ?_) g, ih _⟩
    rw [growCopy_run]
    exact grow_unmarked unmarking busy _ _

theorem growModules_unmarked (tops : List Statement) : ∀ g : Growth, Unmarked ((growModules expand tops).run g).1 := by
  induction tops with
  | nil => exact fun _ => unmarked_nil
  | cons s rest ih =>
    intro g
    rw [growModules_cons_run]
    exact unmarked_append.2 ⟨grow_unmarked unmarking [] s g, ih _⟩

theorem growDefinitions_unmarked (listing : List Statement.Placed) :
    ∀ g : Growth, Unmarked ((growDefinitions expand listing).run g).1.1 ∧
      Unmarked ((growDefinitions expand listing).run g).1.2 := by
  induction listing with
  | nil => exact fun _ => ⟨unmarked_nil, unmarked_nil⟩
  | cons s rest ih =>
    intro g
    rw [growDefinitions_cons_run]
    split
    · obtain ⟨groupings, augments⟩ := ih ((grow expand [s.statement.id] s.statement).run g).2
      exact ⟨unmarked_append.2 ⟨grow_unmarked unmarking _ _ g, groupings⟩, augments⟩
    · split
      · obtain ⟨groupings, augments⟩ := ih ((grow expand [] s.statement).run g).2
        exact ⟨groupings, unmarked_append.2 ⟨grow_unmarked unmarking _ _ g, augments⟩⟩
      · exact ih g

end

theorem expander_unmarking (groupings : List Statement) :
    ∀ bound, (expander groupings bound).Unmarking
  | 0 => fun _ _ _ _ => unmarked_nil
  | bound + 1 => by
    intro busy site uses g
    rw [expander_run]
    cases groupingOf? groupings uses with
    | none => exact unmarked_nil
    | some grouping =>
      simp only
      split
      · exact unmarked_nil
      · exact copyAllTo_unmarked (expander_unmarking groupings bound) _ site _ g

theorem expandForest_unmarked (forest : List Statement) (modules : List Nat) (g : Growth) :
    let expansion := ((expandForest forest modules).run g).1
    Unmarked expansion.modules ∧ Unmarked expansion.groupings ∧ Unmarked expansion.augments := by
  rw [expandForest_run]
  have unmarking : (forestExpander forest).Unmarking := expander_unmarking _ _
  exact ⟨growModules_unmarked unmarking _ g, growDefinitions_unmarked unmarking _ _⟩

/-! ## Whatever has been loaded -/

/-- Once a library is linked and expanded, its trees and augments are ready. -/
theorem Library.ExpandsTo.ready {library : Library} {forest : List Statement}
    (way : library.ExpandsTo forest) (sound : library.Sound) :
    Ready way.trees way.expansion.augments way.grown := by
  obtain ⟨fresh, grown⟩ := way.grows
  obtain ⟨modules, groupings, augments⟩ := expandForest_unmarked forest (library.modules.map (·.2))
    ⟨library.next, [], way.log⟩
  rw [way.expanded] at modules augments
  have all : Statement.Numbered 1 (forest ++ fresh.map (·.statement)) := by
    have later := grown.numbered
    rw [way.next_eq] at later
    exact (way.numbered sound).append later
  refine ⟨?_, ?_, fun s member => grown.tree s (way.toPlace_subset sound member), fun i => ?_, fun s member => ?_, ?_⟩
  · rw [(way.trees_spec sound).1]
    exact sound.names
  · have ids : way.expansion.augments.map (·.id) = (augmentsOfForest forest).map (·.id) := by
      rw [← way.roots.augments, List.map_map]
      rfl
    rw [ids]
    exact ((augmentsOfForest_sublist forest).map _).nodup (way.numbered sound).nodup
  · -- What is placed was read or made, and neither twice.
    have single : countOf i (withinAll forest ++ madeStatements fresh) ≤ 1 := by
      rw [madeStatements, ← Statement.withinAll_append]
      exact List.nodup_iff_count_le_one.1 all.nodup i
    have placed := grown.count i
    have roots := countOf_roots_le way sound i
    simp only [toPlace, way.below_trees sound, Expansion.below, SchemaNode.placedAll_append,
      Statement.countOf_append] at placed single ⊢
    omega
  · have number : s.id ∈ (withinAll (forest ++ fresh.map (·.statement))).map (·.id) := by
      rw [Statement.withinAll_append]
      refine List.mem_map_of_mem (List.mem_append.2 ?_)
      exact (grown.member s (way.toPlace_subset sound member)).imp_left (coreBelow_roots_known way sound)
    have below := (all.mem_iff s.id).1 number
    rw [Statement.sizeOfAll_append] at below
    rw [grown.next]
    show s.id < library.next + _
    rw [way.next_eq]
    omega
  · rw [way.below_trees sound]
    exact unmarked_append.2 ⟨unmarked_below modules, unmarked_below augments⟩

/-- After all rounds the augments that are not left are applied once, each to the node that its path leads to;
    if any are left, the first of them is the error.  What the modules of a library come to, once it is loaded and
    linked, is always ready for that, and in the groupings nothing is marked. -/
theorem augmentAll_appliesOnce :
    (∀ (directory : Directory) (trees : SchemaTrees) (augments : List SchemaNode) (g : Growth),
      Ready trees augments g →
        let reached := ((augmentRounds directory augments.length trees augments).run g).1
        AugmentOutcome directory g.next augments reached.1 reached.2 ∧
          ((augmentAll directory trees augments).run g).1 =
            match reached.2 with
            | [] => .ok reached.1
            | a :: _ => .error (.augmentTarget a.name a.statement.home)) ∧
    (∀ (texts : List String) (sources : List Source) (files : FileTree) (library : Library),
      library = ((Library.ofTexts texts).loadAll sources files).library →
      ∀ (forest : List Statement) (log : Log),
        (linkAll library.directory [] library.forest).run.run [] = (.ok forest, log) →
        let expanded := (expandForest forest (library.modules.map (·.2))).run ⟨library.next, [], log⟩
        Ready ((library.modules.map (·.1)).zip expanded.1.modules) expanded.1.augments expanded.2 ∧
          Unmarked expanded.1.groupings) := by
  constructor
  · intro directory trees augments g ready reached
    refine ⟨ready.outcome, ?_⟩
    rw [augmentAll_run]
  · intro texts sources files library loaded forest log linked expanded
    have sound : library.Sound := loaded ▸ (Library.sound_ofTexts texts).loadAll sources files
    let way : library.ExpandsTo forest := ⟨log, linked, expanded.1, expanded.2, rfl⟩
    exact ⟨way.ready sound, (expandForest_unmarked forest _ _).2.1⟩

/-- A module with an augment of a node that the augment after it brings below a choice. -/
def dependentAugments : String :=
  "<module name='m' xmlns='urn:ietf:params:xml:ns:yang:yin:1'><choice name='c'/>" ++
  "<augment target-node='/c/a/a'><leaf name='y'/></augment>" ++
  "<augment target-node='/c'><container name='a'/></augment></module>"

theorem augmentAll_appliesOnce_dependentAugments :
    let library := ((Library.ofTexts [dependentAugments]).loadAll [] ⟨[]⟩).library
    ∃ forest log, (linkAll library.directory [] library.forest).run.run [] = (.ok forest, log) ∧
      (let expanded := (expandForest forest (library.modules.map (·.2))).run ⟨library.next, [], log⟩
       let trees := (library.modules.map (·.1)).zip expanded.1.modules
       Ready trees expanded.1.augments expanded.2 ∧
       ∃ trees', ((augmentAll library.directory trees expanded.1.augments).run expanded.2).1 = .ok trees' ∧
         AugmentOutcome library.directory expanded.2.next expanded.1.augments trees' [] ∧
         (placedAll trees'.below).map (·.keyword) = ["choice", "case", "container", "leaf"]) := by
  intro library
  obtain ⟨forest, log, linked, keywords⟩ := exists_run_ok ((linkAll library.directory [] library.forest).run.run [])
    (fun forest log =>
      let expanded := (expandForest forest (library.modules.map (·.2))).run ⟨library.next, [], log⟩
      ((augmentAll library.directory ((library.modules.map (·.1)).zip expanded.1.modules)
          expanded.1.augments).run expanded.2).1.toOption.any
        fun trees' => (placedAll trees'.below).map (·.keyword) == ["choice", "case", "container", "leaf"])
    (by decide +kernel)
  have ready := (augmentAll_appliesOnce.2 [dependentAugments] [] ⟨[]⟩ library rfl forest log linked).1
  obtain ⟨trees', done, keywords⟩ := exists_ok keywords
  obtain ⟨outcome, result⟩ := augmentAll_appliesOnce.1 library.directory _ _ _ ready
  refine ⟨forest, log, linked, ready, trees', done, ?_, by simpa using keywords⟩
  rw [done] at result
  generalize ((augmentRounds library.directory _ _ _).run _).1 = reached at outcome result
  obtain ⟨trees, left⟩ := reached
  cases left with
  | nil =>
    cases result
    exact outcome
  | cons a rest => cases result

end YangStubs.Schema
