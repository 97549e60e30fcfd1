import YangStubs.Proofs.Schema.Expansion

/-! # Augments, step by step

Applying augments moves their nodes into the trees of the modules.  Nothing is lost or doubled on the way:
the statements in the trees and below the augments that are left are those from before, and the cases made
for nodes that come right below a choice.
-/

namespace YangStubs.Schema

open SchemaNode (placed placedAll)

variable {P : Statement → Prop}

/-! ## Statements and the augments that brought them -/

mutual
/-- The statements of a node and of all nodes below it, each with the augment that put it there. -/
def SchemaNode.stamped : SchemaNode → List (Statement × Option Nat)
  | ⟨statement, children, augment⟩ => (statement, augment) :: stampedAll children

/-- The same for several trees. -/
def SchemaNode.stampedAll : List SchemaNode → List (Statement × Option Nat)
  | [] => []
  | node :: rest => node.stamped ++ stampedAll rest
end

open SchemaNode (stamped stampedAll)

namespace SchemaNode

theorem stamped_eq (node : SchemaNode) :
    node.stamped = (node.statement, node.augment) :: stampedAll node.children := by
  cases node; rfl

@[simp] theorem stampedAll_nil : stampedAll [] = [] := rfl

@[simp] theorem stampedAll_cons (node : SchemaNode) (rest : List SchemaNode) :
    stampedAll (node :: rest) = node.stamped ++ stampedAll rest := rfl

@[simp] theorem stampedAll_append (left right : List SchemaNode) :
    stampedAll (left ++ right) = stampedAll left ++ stampedAll right := by
  induction left with
  | nil => rfl
  | cons node rest ih => simp [ih]

theorem stampedAll_eq_flatMap (l : List SchemaNode) : stampedAll l = l.flatMap stamped := by
  induction l with
  | nil => rfl
  | cons node rest ih => rw [stampedAll_cons, ih, List.flatMap_cons]

mutual
theorem stamped_statements : ∀ node : SchemaNode, node.stamped.map (·.1) = node.placed
  | ⟨statement, children, augment⟩ => by
    simp only [stamped, placed, List.map_cons, stampedAll_statements children]

theorem stampedAll_statements : ∀ l : List SchemaNode, (stampedAll l).map (·.1) = placedAll l
  | [] => rfl
  | node :: rest => by
    simp only [stampedAll, placedAll, List.map_append, stamped_statements node, stampedAll_statements rest]
end

end SchemaNode

/-! ## Attaching nodes -/

theorem perm_append_swap {α : Type} (first second third : List α) :
    (first ++ second ++ third).Perm (first ++ third ++ second) := by
  rw [List.append_assoc, List.append_assoc]
  exact List.perm_append_comm.append_left first

theorem updateFirst_flatMap {α : Type} {p : SchemaNode → Bool} {f : SchemaNode → SchemaNode}
    {view : SchemaNode → List α} {new : List α} {target : SchemaNode}
    (attached : (view (f target)).Perm (view target ++ new)) :
    ∀ {nodes : List SchemaNode}, nodes.find? p = some target →
      ((SchemaNode.updateFirst p f nodes).flatMap view).Perm (nodes.flatMap view ++ new)
  | [], found => by simp at found
  | node :: rest, found => by
    rw [List.find?_cons] at found
    simp only [SchemaNode.updateFirst]
    split at found
    · rename_i holds
      cases found
      simp only [holds, if_true, List.flatMap_cons]
      exact (attached.append_right _).trans (perm_append_swap _ _ _)
    · rename_i fails
      simp only [fails, Bool.false_eq_true, if_false, List.flatMap_cons, List.append_assoc]
      exact (updateFirst_flatMap attached found).append_left _

@[simp] theorem attachAt_statement (path : List String) (new : List SchemaNode) (node : SchemaNode) :
    (node.attachAt path new).statement = node.statement := by
  cases path <;> rfl

@[simp] theorem attachAt_augment (path : List String) (new : List SchemaNode) (node : SchemaNode) :
    (node.attachAt path new).augment = node.augment := by
  cases path <;> rfl

/-- Attaching adds the new statements to those below the node, if the path leads anywhere. -/
theorem attachAt_stamped (new : List SchemaNode) :
    ∀ (path : List String) {node : SchemaNode}, (node.at? path).isSome →
      (stampedAll (node.attachAt path new).children).Perm (stampedAll node.children ++ stampedAll new)
  | [], node, _ => by
    simp only [SchemaNode.attachAt, SchemaNode.stampedAll_append]
    exact List.Perm.refl _
  | name :: rest, node, leads => by
    simp only [SchemaNode.at?, Option.isSome_bind] at leads
    cases found : node.child? name with
    | none => simp [found] at leads
    | some child =>
      simp only [found, Option.any_some] at leads
      rw [SchemaNode.stampedAll_eq_flatMap, SchemaNode.stampedAll_eq_flatMap]
      refine updateFirst_flatMap ?_ found
      rw [SchemaNode.stamped_eq, SchemaNode.stamped_eq child, attachAt_statement, attachAt_augment, List.cons_append]
      exact (attachAt_stamped new rest leads).cons _

namespace SchemaTrees

/-- All nodes right below the modules. -/
def below (trees : SchemaTrees) : List SchemaNode :=
  trees.flatMap (·.2.children)

/-- The modules with their statements, without what is below them. -/
def roots (trees : SchemaTrees) : List (String × Statement) :=
  trees.map fun tree => (tree.1, tree.2.statement)

@[simp] theorem roots_attachAt (trees : SchemaTrees) (path : String × List String)
    (new : List SchemaNode) : (trees.attachAt path new).roots = trees.roots := by
  unfold roots SchemaTrees.attachAt
  rw [List.map_map]
  refine List.map_congr_left fun tree _ => ?_
  simp only [Function.comp_apply]
  split <;> simp

theorem attachAt_of_not_mem {trees : SchemaTrees} {path : String × List String}
    (new : List SchemaNode) (absent : path.1 ∉ trees.map (·.1)) : trees.attachAt path new = trees := by
  unfold SchemaTrees.attachAt
  conv => rhs; rw [← List.map_id trees]
  refine List.map_congr_left fun tree member => ?_
  have different : tree.1 ≠ path.1 := by
    rintro same
    exact absent (same ▸ List.mem_map_of_mem member)
  simp [different]

theorem attachAt_flatMap {α : Type} (view : SchemaNode → List α) {added : List α} {new : List SchemaNode}
    {path : String × List String} {tree : SchemaNode}
    (attached : (view (tree.attachAt path.2 new)).Perm (view tree ++ added)) :
    ∀ {trees : SchemaTrees}, (trees.map (·.1)).Nodup → trees.lookup path.1 = some tree →
      ((trees.attachAt path new).flatMap (view ·.2)).Perm (trees.flatMap (view ·.2) ++ added)
  | [], _, found => by simp at found
  | (name, first) :: rest, different, found => by
    obtain ⟨absent, others⟩ := List.nodup_cons.1 different
    rw [List.lookup_cons] at found
    by_cases here : name = path.1
    · subst here
      have untouched := attachAt_of_not_mem new absent
      simp only [beq_self_eq_true, Option.some.injEq] at found
      subst found
      simp only [SchemaTrees.attachAt, List.map_cons, beq_self_eq_true, if_true, List.flatMap_cons] at untouched ⊢
      rw [untouched]
      exact (attached.append_right _).trans (perm_append_swap _ _ _)
    · have elsewhere : (path.1 == name) = false := by simpa using fun same => here same.symm
      simp only [elsewhere] at found
      have ih := attachAt_flatMap view attached others found
      simp only [SchemaTrees.attachAt, List.map_cons, List.flatMap_cons, beq_iff_eq, here, if_false,
        List.append_assoc] at ih ⊢
      exact ih.append_left _

section

variable (new : List SchemaNode) {path : String × List String} {trees : SchemaTrees}
  (different : (trees.map (·.1)).Nodup) (leads : (trees.at? path).isSome)
include new different leads

/-- Attaching adds the new statements to those below the modules, if the path leads anywhere. -/
theorem attachAt_stamped :
    (stampedAll (trees.attachAt path new).below).Perm (stampedAll trees.below ++ stampedAll new) := by
  obtain ⟨target, found⟩ := Option.isSome_iff_exists.1 leads
  obtain ⟨tree, found, leads⟩ := Option.bind_eq_some_iff.1 found
  have attached := YangStubs.Schema.attachAt_stamped new path.2 (Option.isSome_iff_exists.2 ⟨target, leads⟩)
  have byTree := attachAt_flatMap (fun tree => stampedAll tree.children) attached different found
  simpa only [below, SchemaNode.stampedAll_eq_flatMap, List.flatMap_assoc] using byTree

theorem attachAt_placed :
    (placedAll (trees.attachAt path new).below).Perm (placedAll trees.below ++ placedAll new) := by
  have attached := (attachAt_stamped new different leads).map (·.1)
  simpa only [List.map_append, SchemaNode.stampedAll_statements] using attached

end

theorem roots_names (trees : SchemaTrees) : trees.roots.map (·.1) = trees.map (·.1) := by
  simp [roots, Function.comp_def]

end SchemaTrees

/-! ## Rounds -/

theorem graft_cons_run (augment : Nat) (target : Site) (node : SchemaNode) (rest : List SchemaNode)
    (g : Growth) :
    (graft augment target (node :: rest)).run g =
      (let here := (placeAt target { node with augment := some augment }).run g
       let others := (graft augment target rest).run here.2
       (here.1 :: others.1, others.2)) := rfl

/-- Grafting places all nodes of an augment, in cases where they need one. -/
theorem graft_grows (ofCases : HoldsOfCases P) (augment : Nat) (target : Site) (nodes : List SchemaNode) :
    ∀ g : Growth, (∀ s ∈ placedAll nodes, isTreeKeyword s.keyword) →
      ∃ fresh, Grows P (placedAll nodes) g fresh (placedAll ((graft augment target nodes).run g).1)
        ((graft augment target nodes).run g).2 := by
  induction nodes with
  | nil => exact fun g _ => ⟨[], Grows.idle rfl rfl⟩
  | cons node rest ih =>
    intro g tree
    rw [graft_cons_run]
    simp only [SchemaNode.placedAll_cons] at tree ⊢
    have marked : SchemaNode.placed { node with augment := some augment } = node.placed := by
      simp only [SchemaNode.placed_eq]
    have kept : Grows P _ g [] _ g :=
      Grows.keep node.placed (fun s member => tree s (List.mem_append_left _ member)) g
    rw [← marked] at kept
    obtain ⟨fresh, here⟩ := placeAt_grows ofCases target kept
    obtain ⟨fresh', others⟩ := ih
      ((placeAt target { node with augment := some augment }).run g).2
      fun s member => tree s (List.mem_append_right _ member)
    rw [marked] at here
    exact ⟨fresh ++ fresh', here.append others⟩

/-- The path of an augment and the node it leads to, if it leads anywhere. -/
def augmentTarget? (directory : Directory) (trees : SchemaTrees) (augment : SchemaNode) :
    Option ((String × List String) × SchemaNode) :=
  (augmentPath? directory augment.statement).bind fun path =>
    (trees.at? path).map fun target => (path, target)

theorem augmentTarget?_leads {directory : Directory} {trees : SchemaTrees} {augment : SchemaNode}
    {path : String × List String} {target : SchemaNode}
    (found : augmentTarget? directory trees augment = some (path, target)) :
    trees.at? path = some target := by
  simp only [augmentTarget?, Option.bind_eq_some_iff, Option.map_eq_some_iff, Prod.mk.injEq] at found
  obtain ⟨path', -, target', leads, rfl, rfl⟩ := found
  exact leads

/-- What is left to do after an augment has been applied: its nodes, as they are placed. -/
def graftAt (augment target : SchemaNode) (g : Growth) : List SchemaNode × Growth :=
  (graft augment.id target.statement.site augment.children).run
    ((reportGrowth .debug
      ("augmenting " ++ Text.quoted augment.name ++ " from module " ++ augment.statement.home)).run g).2

theorem graftAt_grows (ofCases : HoldsOfCases P) (augment target : SchemaNode) (g : Growth)
    (tree : ∀ s ∈ placedAll augment.children, isTreeKeyword s.keyword) :
    ∃ fresh, Grows P (placedAll augment.children) g fresh (placedAll (graftAt augment target g).1)
      (graftAt augment target g).2 := by
  obtain ⟨fresh, grown⟩ := graft_grows ofCases augment.id target.statement.site augment.children
    ((reportGrowth .debug
      ("augmenting " ++ Text.quoted augment.name ++ " from module " ++ augment.statement.home)).run g).2 tree
  exact ⟨fresh, grown.made, grown.numbered, grown.next, grown.count, grown.member, grown.tree, grown.lawful⟩

theorem augmentRound_cons_run (directory : Directory) (trees : SchemaTrees) (augment : SchemaNode)
    (rest : List SchemaNode) (g : Growth) :
    (augmentRound directory trees (augment :: rest)).run g =
      match augmentTarget? directory trees augment with
      | some (path, target) =>
        (let new := graftAt augment target g
         (augmentRound directory (trees.attachAt path new.1) rest).run new.2)
      | none =>
        (let others := (augmentRound directory trees rest).run g
         ((others.1.1, augment :: others.1.2), others.2)) := by
  rw [augmentRound.eq_2, ← augmentTarget?.eq_1]
  cases augmentTarget? directory trees augment <;> rfl

/-- The nodes that augmenting has to do with: those in the trees and those still to be placed. -/
def toPlace (trees : SchemaTrees) (pending : List SchemaNode) : List Statement :=
  placedAll trees.below ++ placedAll (pending.flatMap (·.children))

/-- What augmenting makes of the trees and of the augments that are to be applied. -/
structure Augments (P : Statement → Prop) (trees : SchemaTrees) (pending : List SchemaNode)
    (g : Growth) (trees' : SchemaTrees) (left : List SchemaNode) (g' : Growth) : Prop where
  grows : ∃ fresh, Grows P (toPlace trees pending) g fresh (toPlace trees' left) g'
  roots : trees'.roots = trees.roots
  left : left.Sublist pending

theorem Augments.trans {trees₁ trees₂ trees₃ : SchemaTrees} {pending₁ pending₂ pending₃ : List SchemaNode}
    {g₁ g₂ g₃ : Growth} (first : Augments P trees₁ pending₁ g₁ trees₂ pending₂ g₂)
    (second : Augments P trees₂ pending₂ g₂ trees₃ pending₃ g₃) :
    Augments P trees₁ pending₁ g₁ trees₃ pending₃ g₃ := by
  obtain ⟨fresh, grown⟩ := first.grows
  obtain ⟨fresh', grown'⟩ := second.grows
  exact ⟨⟨_, grown.trans grown'⟩, second.roots.trans first.roots, second.left.trans first.left⟩

theorem Augments.refl {trees : SchemaTrees} {pending : List SchemaNode} (g : Growth)
    (tree : ∀ s ∈ toPlace trees pending, isTreeKeyword s.keyword) :
    Augments P trees pending g trees pending g :=
  ⟨⟨[], Grows.keep _ tree g⟩, rfl, List.Sublist.refl _⟩

/-- An augment that is applied: its nodes move into the trees. -/
theorem Augments.apply (ofCases : HoldsOfCases P) {trees : SchemaTrees} {augment target : SchemaNode}
    {rest : List SchemaNode}
    {path : String × List String} (g : Growth) (names : (trees.map (·.1)).Nodup)
    (tree : ∀ s ∈ toPlace trees (augment :: rest), isTreeKeyword s.keyword)
    (leads : trees.at? path = some target) :
    Augments P trees (augment :: rest) g (trees.attachAt path (graftAt augment target g).1) rest
      (graftAt augment target g).2 := by
  simp only [toPlace, List.flatMap_cons, SchemaNode.placedAll_append, List.mem_append] at tree
  obtain ⟨fresh, moved⟩ := graftAt_grows ofCases augment target g fun s member => tree s (.inr (.inl member))
  have before : Grows P _ g [] _ g :=
    Grows.keep (placedAll trees.below) (fun s member => tree s (.inl member)) g
  have after : Grows P _ _ [] _ _ := Grows.keep (placedAll (rest.flatMap (·.children)))
    (fun s member => tree s (.inr (.inr member))) (graftAt augment target g).2
  have attached := SchemaTrees.attachAt_placed (graftAt augment target g).1 names (by rw [leads]; rfl)
  refine ⟨⟨_, ((before.append moved).append after).perm ?_ ?_⟩, SchemaTrees.roots_attachAt _ _ _,
    List.sublist_cons_self _ _⟩
  · simp only [toPlace, List.flatMap_cons, SchemaNode.placedAll_append, List.append_assoc]
    exact List.Perm.refl _
  · exact (attached.append_right _).symm

theorem augmentRound_augments (ofCases : HoldsOfCases P) (directory : Directory) (pending : List SchemaNode) :
    ∀ (trees : SchemaTrees) (g : Growth), (trees.map (·.1)).Nodup →
      (∀ s ∈ toPlace trees pending, isTreeKeyword s.keyword) →
      let r := (augmentRound directory trees pending).run g
      Augments P trees pending g r.1.1 r.1.2 r.2 := by
  induction pending with
  | nil => exact fun trees g _ tree => Augments.refl g tree
  | cons augment rest ih =>
    intro trees g names tree
    rw [augmentRound_cons_run]
    cases found : augmentTarget? directory trees augment with
    | some target =>
      obtain ⟨path, target⟩ := target
      have applied := Augments.apply ofCases g names tree (augmentTarget?_leads found)
      obtain ⟨fresh, grown⟩ := applied.grows
      refine applied.trans (ih _ _ ?_ grown.tree)
      rw [← SchemaTrees.roots_names, applied.roots, SchemaTrees.roots_names]
      exact names
    | none =>
      simp only [toPlace, List.flatMap_cons, SchemaNode.placedAll_append, List.mem_append] at tree
      obtain ⟨⟨fresh, grown⟩, roots, left⟩ := ih trees g names (by
        simp only [toPlace, List.mem_append]
        exact fun s member => tree s (member.imp_right .inr))
      refine ⟨⟨fresh, ?_⟩, roots, left.cons_cons _⟩
      have waiting : Grows P _ g [] _ g := Grows.keep (placedAll augment.children)
        (fun s member => tree s (.inr (.inl member))) g
      -- The augment that waits stands in the middle on both sides.
      refine (waiting.append grown).perm ?_ ?_ <;>
        simp only [toPlace, List.flatMap_cons, SchemaNode.placedAll_append, ← List.append_assoc] <;>
        exact List.perm_append_comm.append_right _

theorem augmentRounds_succ_run (directory : Directory) (bound : Nat) (trees : SchemaTrees)
    (augment : SchemaNode) (rest : List SchemaNode) (g : Growth) :
    (augmentRounds directory (bound + 1) trees (augment :: rest)).run g =
      (let round := (augmentRound directory trees (augment :: rest)).run g
       if round.1.2.length == (augment :: rest).length then round
       else (augmentRounds directory bound round.1.1 round.1.2).run round.2) := by
  simp only [augmentRounds, run_bind]
  split <;> rfl

theorem augmentRounds_augments (ofCases : HoldsOfCases P) (directory : Directory) :
    ∀ (bound : Nat) (pending : List SchemaNode) (trees : SchemaTrees) (g : Growth),
      (trees.map (·.1)).Nodup → (∀ s ∈ toPlace trees pending, isTreeKeyword s.keyword) →
      let r := (augmentRounds directory bound trees pending).run g
      Augments P trees pending g r.1.1 r.1.2 r.2
  | 0, [], _, g, _, tree => Augments.refl g tree
  | 0, _ :: _, _, g, _, tree => Augments.refl g tree
  | _ + 1, [], _, g, _, tree => Augments.refl g tree
  | bound + 1, augment :: rest, trees, g, names, tree => by
    rw [augmentRounds_succ_run]
    have round := augmentRound_augments ofCases directory (augment :: rest) trees g names tree
    simp only
    split
    · exact round
    · obtain ⟨fresh, grown⟩ := round.grows
      refine round.trans (augmentRounds_augments ofCases directory bound _ _ _ ?_ grown.tree)
      rw [← SchemaTrees.roots_names, round.roots, SchemaTrees.roots_names]
      exact names

/-- Augments that all find their target leave trees into which all their nodes have moved. -/
theorem augmentAll_augments (ofCases : HoldsOfCases P) {directory : Directory} {trees trees' : SchemaTrees}
    {augments : List SchemaNode} {g g' : Growth} (names : (trees.map (·.1)).Nodup)
    (tree : ∀ s ∈ toPlace trees augments, isTreeKeyword s.keyword)
    (done : (augmentAll directory trees augments).run g = (.ok trees', g')) :
    Augments P trees augments g trees' [] g' := by
  have rounds := augmentRounds_augments ofCases directory augments.length augments trees g names tree
  simp only [augmentAll, run_bind] at done
  simp only at rounds
  cases left : ((augmentRounds directory augments.length trees augments).run g).1.2 with
  | nil =>
    rw [left] at done rounds
    cases done
    exact rounds
  | cons augment rest =>
    rw [left] at done
    cases done

end YangStubs.Schema
