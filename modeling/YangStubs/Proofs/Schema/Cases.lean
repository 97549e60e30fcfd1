import YangStubs.Proofs.Schema.Matching

/-! # Cases made while augmenting

Augmenting makes no statements but cases, and all of them stand in the trees, below the statement that they were made
for.  So the trees tell what was made, whatever the order in which the augments were applied.
-/

namespace YangStubs.Schema

open SchemaNode (placedAll Reordered ReorderedAll)

mutual
/-- The statements of a tree, each with the number of the one that it stands below. -/
def SchemaNode.bonds (parent : Nat) : SchemaNode → List Made
  | ⟨statement, children, _⟩ => ⟨parent, statement⟩ :: SchemaNode.bondsOfAll statement.id children

@[inherit_doc SchemaNode.bonds]
def SchemaNode.bondsOfAll (parent : Nat) : List SchemaNode → List Made
  | [] => []
  | node :: rest => node.bonds parent ++ SchemaNode.bondsOfAll parent rest
end

open SchemaNode (bonds bondsOfAll)

theorem SchemaNode.bonds_eq (parent : Nat) (node : SchemaNode) :
    node.bonds parent = ⟨parent, node.statement⟩ :: bondsOfAll node.id node.children := by
  cases node
  rfl

theorem bondsOfAll_eq_flatMap (parent : Nat) (l : List SchemaNode) :
    bondsOfAll parent l = l.flatMap (bonds parent) := by
  induction l with
  | nil => rfl
  | cons node rest ih => rw [bondsOfAll, ih, List.flatMap_cons]

mutual
theorem bonds_statements (parent : Nat) : ∀ node : SchemaNode, (node.bonds parent).map (·.statement) = node.placed
  | ⟨statement, children, _⟩ => by
    rw [bonds, SchemaNode.placed, List.map_cons, bondsOfAll_statements statement.id children]

theorem bondsOfAll_statements (parent : Nat) :
    ∀ l : List SchemaNode, (bondsOfAll parent l).map (·.statement) = placedAll l
  | [] => rfl
  | node :: rest => by
    rw [bondsOfAll, List.map_append, bonds_statements parent node, bondsOfAll_statements parent rest,
      SchemaNode.placedAll_cons]
end

theorem bondsOfAll_attachAt (new : List SchemaNode) : ∀ (path : List String) {node target : SchemaNode},
    node.at? path = some target →
      (bondsOfAll node.id (node.attachAt path new).children).Perm
        (bondsOfAll node.id node.children ++ bondsOfAll target.id new)
  | [], node, target, leads => by
    cases leads
    rw [SchemaNode.attachAt, bondsOfAll_eq_flatMap, List.flatMap_append, ← bondsOfAll_eq_flatMap,
      ← bondsOfAll_eq_flatMap]
  | name :: rest, node, target, leads => by
    obtain ⟨child, found, leads⟩ := Option.bind_eq_some_iff.1 leads
    rw [bondsOfAll_eq_flatMap, bondsOfAll_eq_flatMap]
    refine updateFirst_flatMap ?_ found
    rw [SchemaNode.bonds_eq, SchemaNode.bonds_eq _ child, attachAt_statement]
    have sameId : (child.attachAt rest new).id = child.id := congrArg Statement.id (attachAt_statement rest new child)
    rw [sameId]
    exact (bondsOfAll_attachAt new rest leads).cons _

namespace SchemaTrees

@[inherit_doc SchemaNode.bonds]
def bonds (trees : SchemaTrees) : List Made :=
  trees.flatMap fun tree => bondsOfAll tree.2.id tree.2.children

theorem bonds_statements (trees : SchemaTrees) : trees.bonds.map (·.statement) = placedAll trees.below := by
  rw [bonds, below, List.map_flatMap, SchemaNode.placedAll_eq_flatMap, List.flatMap_assoc]
  refine List.flatMap_congr fun tree _ => ?_
  rw [bondsOfAll_statements, SchemaNode.placedAll_eq_flatMap]

theorem bonds_attachAt (new : List SchemaNode) {trees : SchemaTrees} {path : String × List String}
    {target : SchemaNode} (different : (trees.map (·.1)).Nodup) (leads : trees.at? path = some target) :
    (trees.attachAt path new).bonds.Perm (trees.bonds ++ bondsOfAll target.id new) := by
  obtain ⟨tree, found, leads⟩ := Option.bind_eq_some_iff.1 leads
  have sameId : (tree.attachAt path.2 new).id = tree.id := congrArg Statement.id (attachAt_statement path.2 new tree)
  refine attachAt_flatMap (fun tree => bondsOfAll tree.id tree.children) ?_ different found
  rw [sameId]
  exact bondsOfAll_attachAt new path.2 leads

end SchemaTrees

/-! ## What augmenting makes -/

/-- Those whose statement has a number from `start` on. -/
def madeSince (start : Nat) (l : List Made) : List Made :=
  l.filter fun m => start ≤ m.statement.id

@[simp] theorem madeSince_append (start : Nat) (l k : List Made) :
    madeSince start (l ++ k) = madeSince start l ++ madeSince start k :=
  List.filter_append ..

theorem madeSince_eq_nil {start : Nat} {l : List Made} (earlier : ∀ s ∈ l.map (·.statement), s.id < start) :
    madeSince start l = [] := by
  refine List.filter_eq_nil_iff.2 fun m member => ?_
  have := earlier m.statement (List.mem_map_of_mem member)
  simpa using this

/-- A step of growing makes what is new in some bonds, and only cases. -/
structure MakesCases (start : Nat) (g : Growth) (bonds : List Made) (g' : Growth) : Prop where
  made : g'.made = g.made ++ madeSince start bonds
  cases : ∀ m ∈ madeSince start bonds, ∃ number node, m.statement = caseFor number node
  later : start ≤ g'.next

theorem placeAt_makesCases {start : Nat} (site : Site) {node : SchemaNode} {g : Growth} (later : start ≤ g.next)
    (earlier : ∀ s ∈ node.placed, s.id < start) :
    MakesCases start g (((placeAt site node).run g).1.bonds site.id) ((placeAt site node).run g).2 := by
  have nothing : ∀ parent, madeSince start (node.bonds parent) = [] := fun parent =>
    madeSince_eq_nil (by rwa [bonds_statements])
  rw [placeAt_run]
  by_cases needed : needsCase site node.keyword
  · -- The case is new, and the node in it is not.
    have isNew : madeSince start (bonds site.id ⟨caseFor g.next node, [node], node.augment⟩) =
        [⟨site.id, caseFor g.next node⟩] := by
      have here : decide (start ≤ (caseFor g.next node).id) = true := decide_eq_true later
      rw [bonds, bondsOfAll, bondsOfAll, List.append_nil, madeSince, List.filter_cons, here, if_pos rfl]
      exact congrArg _ (nothing _)
    rw [if_pos needed]
    refine ⟨by rw [isNew], fun m member => ?_, Nat.le_succ_of_le later⟩
    rw [isNew, List.mem_singleton] at member
    exact ⟨g.next, node, congrArg Made.statement member⟩
  · rw [if_neg needed]
    refine ⟨by rw [nothing, List.append_nil], fun m member => ?_, later⟩
    rw [nothing] at member
    cases member

theorem graft_makesCases {start : Nat} (augment : Nat) (site : Site) (nodes : List SchemaNode) :
    ∀ g : Growth, start ≤ g.next → (∀ s ∈ placedAll nodes, s.id < start) →
      MakesCases start g (bondsOfAll site.id ((graft augment site nodes).run g).1)
        ((graft augment site nodes).run g).2 := by
  induction nodes with
  | nil => exact fun g later _ => ⟨(List.append_nil _).symm, fun m member => absurd member List.not_mem_nil, later⟩
  | cons node rest ih =>
    intro g later earlier
    have marked : SchemaNode.placed { node with augment := some augment } = node.placed := by
      simp only [SchemaNode.placed_eq]
    have before : ∀ s ∈ SchemaNode.placed { node with augment := some augment }, s.id < start := by
      rw [marked]
      exact fun s member => earlier s (List.mem_append_left _ member)
    have here := placeAt_makesCases site later before
    have others := ih _ here.later fun s member => earlier s (List.mem_append_right _ member)
    rw [graft_cons_run, bondsOfAll]
    refine ⟨?_, fun m member => ?_, others.later⟩
    · rw [madeSince_append, ← List.append_assoc, ← here.made]
      exact others.made
    · rw [madeSince_append, List.mem_append] at member
      exact member.elim (here.cases m) (others.cases m)

theorem graftAt_makesCases {start : Nat} {a : SchemaNode} (target : SchemaNode) {g : Growth} (later : start ≤ g.next)
    (earlier : ∀ s ∈ placedAll a.children, s.id < start) :
    MakesCases start g (bondsOfAll target.id (graftAt a target g).1) (graftAt a target g).2 := by
  -- The message that is written first changes only the log.
  let written := ((reportGrowth .debug
    ("augmenting " ++ Text.quoted a.name ++ " from module " ++ a.statement.home)).run g).2
  have grafted := graft_makesCases a.id target.statement.site a.children written later earlier
  exact ⟨grafted.made, grafted.cases, grafted.later⟩

/-- What every application of an augment keeps is kept by a round of them. -/
theorem augmentRound_keeps {Q : SchemaTrees → Growth → Prop} {directory : Directory} {pending : List SchemaNode}
    (step : ∀ a ∈ pending, ∀ trees g path target, augmentTarget? directory trees a = some (path, target) →
      Q trees g → Q (trees.attachAt path (graftAt a target g).1) (graftAt a target g).2) :
    ∀ (trees : SchemaTrees) (g : Growth), Q trees g →
      let r := (augmentRound directory trees pending).run g
      Q r.1.1 r.2 := by
  induction pending with
  | nil => exact fun trees g holds => holds
  | cons a rest ih =>
    intro trees g holds
    have others := ih fun b member => step b (List.mem_cons_of_mem a member)
    rw [augmentRound_cons_run]
    cases found : augmentTarget? directory trees a with
    | none => exact others trees g holds
    | some result =>
      obtain ⟨path, target⟩ := result
      exact others _ _ (step a List.mem_cons_self trees g path target found holds)

theorem augmentRounds_keeps {Q : SchemaTrees → Growth → Prop} (directory : Directory) :
    ∀ (bound : Nat) {pending : List SchemaNode}, (∀ a ∈ pending, ∀ trees g path target,
        augmentTarget? directory trees a = some (path, target) → Q trees g →
        Q (trees.attachAt path (graftAt a target g).1) (graftAt a target g).2) →
      ∀ (trees : SchemaTrees) (g : Growth), Q trees g →
      let r := (augmentRounds directory bound trees pending).run g
      Q r.1.1 r.2
  | bound, [], _, trees, g, holds => by
    rw [augmentRounds_nil]
    exact holds
  | 0, _ :: _, _, _, _, holds => holds
  | bound + 1, a :: rest, step, trees, g, holds => by
    have afterRound := augmentRound_keeps step trees g holds
    obtain ⟨order, together, -⟩ := augmentRound_applies (a :: rest) trees g (Nat.zero_le g.next)
    rw [augmentRounds_succ_run]
    simp only
    split
    · exact afterRound
    · refine augmentRounds_keeps directory bound (fun b left => step b ?_) _ _ afterRound
      exact together.subset (List.mem_append_right order left)

/-- All that was made since `g` are cases, and they are what is new in the trees. -/
structure CasesSince (g : Growth) (trees : SchemaTrees) (h : Growth) : Prop where
  names : (trees.map (·.1)).Nodup
  later : g.next ≤ h.next
  made : ∃ fresh, h.made = g.made ++ fresh ∧ fresh.Perm (madeSince g.next trees.bonds) ∧
    ∀ m ∈ fresh, ∃ number node, m.statement = caseFor number node

theorem CasesSince.step {directory : Directory} {g h : Growth} {trees : SchemaTrees} {a target : SchemaNode}
    {path : String × List String} (since : CasesSince g trees h)
    (earlier : ∀ s ∈ placedAll a.children, s.id < g.next)
    (found : augmentTarget? directory trees a = some (path, target)) :
    CasesSince g (trees.attachAt path (graftAt a target h).1) (graftAt a target h).2 := by
  obtain ⟨fresh, made, perm, cases⟩ := since.made
  have grafted := graftAt_makesCases target since.later earlier
  refine ⟨?_, grafted.later, fresh ++ madeSince g.next (bondsOfAll target.id (graftAt a target h).1), ?_, ?_, ?_⟩
  · rw [← SchemaTrees.roots_names, SchemaTrees.roots_attachAt, SchemaTrees.roots_names]
    exact since.names
  · rw [grafted.made, made, List.append_assoc]
  · have attached := SchemaTrees.bonds_attachAt (graftAt a target h).1 since.names (augmentTarget?_leads found)
    have onlyNew := attached.filter fun m : Made => decide (g.next ≤ m.statement.id)
    rw [List.filter_append] at onlyNew
    exact (perm.append_right _).trans onlyNew.symm
  · intro m member
    exact (List.mem_append.1 member).elim (cases m) (grafted.cases m)

theorem Ready.casesSince {directory : Directory} {trees trees' : SchemaTrees} {augments : List SchemaNode}
    {g h : Growth} (ready : Ready trees augments g)
    (done : (augmentAll directory trees augments).run g = (.ok trees', h)) : CasesSince g trees' h := by
  have start : CasesSince g trees g := by
    refine ⟨ready.names, Nat.le_refl _, [], (List.append_nil _).symm, ?_, fun m member => absurd member List.not_mem_nil⟩
    rw [madeSince_eq_nil]
    rw [SchemaTrees.bonds_statements]
    exact fun s member => ready.numbered s (List.mem_append_left _ member)
  have earlier : ∀ a ∈ augments, ∀ s ∈ placedAll a.children, s.id < g.next := by
    intro a isAugment s member
    refine ready.numbered s (List.mem_append_right _ ?_)
    rw [SchemaNode.placedAll_eq_flatMap] at member ⊢
    rw [List.flatMap_assoc]
    exact List.mem_flatMap.2 ⟨a, isAugment, member⟩
  have kept := augmentRounds_keeps directory augments.length
    (fun a isAugment trees h path target found since => CasesSince.step since (earlier a isAugment) found) trees g start
  rw [augmentAll_eq_ok.1 done] at kept
  exact kept

/-! ## Cases in reordered trees -/

/-- The second statement and mark are the first with other numbers. -/
def Restamped (τ : Nat → Nat) (p p' : Statement × Option Nat) : Prop :=
  p' = (p.1.renumber τ, p.2.map τ)

theorem restamped_faithful (τ : Nat → Nat) : Faithful (Restamped τ) where
  name same := by rw [same, Statement.renumber_name]
  keyword same := by rw [same, Statement.renumber_keyword]
  marked same := by rw [same, Option.isSome_map]

theorem bondsOfAll_perm (parent : Nat) {l k : List SchemaNode} (order : l.Perm k) :
    (bondsOfAll parent l).Perm (bondsOfAll parent k) := by
  rw [bondsOfAll_eq_flatMap, bondsOfAll_eq_flatMap]
  exact order.flatMap_right _

mutual
theorem SchemaNode.Reordered.bonds {τ : Nat → Nat} (parent : Nat) : ∀ {a b : SchemaNode},
    Reordered (Restamped τ) a b → (b.bonds (τ parent)).Perm ((a.bonds parent).map (Made.renumber τ))
  | ⟨s, _, _⟩, ⟨s', _, _⟩, .intro here below => by
    obtain ⟨rfl, -⟩ := Prod.mk.inj here
    have inside := SchemaNode.ReorderedAll.bonds s.id below
    rw [SchemaNode.bonds, SchemaNode.bonds, Statement.renumber_id]
    exact inside.cons _

theorem SchemaNode.ReorderedAll.bonds {τ : Nat → Nat} (parent : Nat) : ∀ {l k : List SchemaNode},
    ReorderedAll (Restamped τ) l k → (bondsOfAll (τ parent) k).Perm ((bondsOfAll parent l).map (Made.renumber τ))
  | [], _, .nil => .nil
  | node :: rest, k, .cons first others order => by
    have here := SchemaNode.Reordered.bonds parent first
    have there := SchemaNode.ReorderedAll.bonds parent others
    refine (bondsOfAll_perm (τ parent) order.perm.symm).trans ?_
    rw [bondsOfAll, bondsOfAll, List.map_append]
    exact here.append there
end

end YangStubs.Schema
