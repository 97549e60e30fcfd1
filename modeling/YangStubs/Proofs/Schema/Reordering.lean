import Mathlib.Data.List.Perm.Basic
import YangStubs.Proofs.Schema.Rounds

/-! # Trees up to order

Augments that are applied in another order leave the same nodes below a node in another order.  `Reordered`
relates two such trees, for any way to match their statements.  As long as the children of a node have
different names, looking up a path and attaching nodes do not notice the order.
-/

namespace YangStubs.Schema

open SchemaNode (stamped stampedAll)

variable {l k : List SchemaNode}

/-! ## Children in another order -/

/-- Two orders of the same nodes in which those that no augment has brought follow each other alike. -/
inductive SchemaNode.Shuffled : List SchemaNode → List SchemaNode → Prop
  | nil : SchemaNode.Shuffled [] []
  | cons (node : SchemaNode) {l k : List SchemaNode} (rest : SchemaNode.Shuffled l k) :
      SchemaNode.Shuffled (node :: l) (node :: k)
  | swap {a b : SchemaNode} (l : List SchemaNode) (marked : a.augment.isSome ∨ b.augment.isSome) :
      SchemaNode.Shuffled (a :: b :: l) (b :: a :: l)
  | trans {l k m : List SchemaNode} (first : SchemaNode.Shuffled l k) (second : SchemaNode.Shuffled k m) :
      SchemaNode.Shuffled l m

namespace SchemaNode.Shuffled

theorem refl (l : List SchemaNode) : Shuffled l l := by
  induction l with
  | nil => exact .nil
  | cons node rest ih => exact .cons node ih

theorem perm (order : Shuffled l k) : l.Perm k := by
  induction order with
  | nil => exact .nil
  | cons node _ ih => exact ih.cons node
  | swap l _ => exact .swap _ _ l
  | trans _ _ first second => exact first.trans second

theorem append_left (l : List SchemaNode) {m : List SchemaNode} (order : Shuffled k m) :
    Shuffled (l ++ k) (l ++ m) := by
  induction l with
  | nil => exact order
  | cons node rest ih => exact .cons node ih

theorem append_right (order : Shuffled l k) (m : List SchemaNode) : Shuffled (l ++ m) (k ++ m) := by
  induction order with
  | nil => exact refl m
  | cons node _ ih => exact .cons node ih
  | swap l marked => exact .swap (l ++ m) marked
  | trans _ _ first second => exact first.trans second

/-- Nodes that an augment has brought may move behind others. -/
theorem append_comm (marked : ∀ node ∈ l, node.augment.isSome) (k : List SchemaNode) :
    Shuffled (l ++ k) (k ++ l) := by
  induction l with
  | nil => simpa using refl k
  | cons node rest ih =>
    have single : ∀ k, Shuffled (node :: k) (k ++ [node]) := by
      intro k
      induction k with
      | nil => exact refl [node]
      | cons other k ihk => exact (swap k (.inl (marked node List.mem_cons_self))).trans (.cons other ihk)
    have others := ih fun other member => marked other (List.mem_cons_of_mem node member)
    have moved := (single k).append_right rest
    rw [List.append_assoc] at moved
    exact (Shuffled.cons node others).trans moved

theorem map {f : SchemaNode → SchemaNode} (kept : ∀ node, (f node).augment = node.augment)
    {l k : List SchemaNode} (order : Shuffled l k) : Shuffled (l.map f) (k.map f) := by
  induction order with
  | nil => exact .nil
  | cons node _ ih => exact .cons (f node) ih
  | swap l marked => exact .swap (l.map f) (by simpa only [kept] using marked)
  | trans _ _ first second => exact first.trans second

/-- Nodes that are matched one by one can be matched before they are shuffled. -/
theorem comp_forall₂ {r : SchemaNode → SchemaNode → Prop}
    (kept : ∀ {a b : SchemaNode}, r a b → b.augment.isSome = a.augment.isSome) {m : List SchemaNode}
    (order : Shuffled l k) (each : List.Forall₂ r k m) : ∃ k', List.Forall₂ r l k' ∧ Shuffled k' m := by
  induction order generalizing m with
  | nil =>
    cases each
    exact ⟨[], .nil, .nil⟩
  | cons node _ ih =>
    cases each with
    | cons here others =>
      obtain ⟨k', each', order'⟩ := ih others
      exact ⟨_ :: k', .cons here each', .cons _ order'⟩
  | @swap a b l marked =>
    cases each with
    | cons first others =>
      cases others with
      | cons second others =>
        refine ⟨_, .cons second (.cons first others), swap _ ?_⟩
        rw [kept first, kept second]
        exact marked
  | trans _ _ ih₁ ih₂ =>
    obtain ⟨k₂, each₂, order₂⟩ := ih₂ each
    obtain ⟨k₁, each₁, order₁⟩ := ih₁ each₂
    exact ⟨k₁, each₁, order₁.trans order₂⟩

end SchemaNode.Shuffled

/-! ## Trees in another order -/

mutual
/-- Two trees with matching statements, in which the nodes that augments have brought may come in another
    order. -/
inductive SchemaNode.Reordered (R : Statement × Option Nat → Statement × Option Nat → Prop) :
    SchemaNode → SchemaNode → Prop
  | intro {statement statement' : Statement} {children children' : List SchemaNode}
      {augment augment' : Option Nat} (here : R (statement, augment) (statement', augment'))
      (below : SchemaNode.ReorderedAll R children children') :
      SchemaNode.Reordered R ⟨statement, children, augment⟩ ⟨statement', children', augment'⟩

/-- The same for lists of nodes. -/
inductive SchemaNode.ReorderedAll (R : Statement × Option Nat → Statement × Option Nat → Prop) :
    List SchemaNode → List SchemaNode → Prop
  | nil : SchemaNode.ReorderedAll R [] []
  | cons {node node' : SchemaNode} {rest rest' l : List SchemaNode}
      (first : SchemaNode.Reordered R node node') (others : SchemaNode.ReorderedAll R rest rest')
      (order : SchemaNode.Shuffled (node' :: rest') l) : SchemaNode.ReorderedAll R (node :: rest) l
end

/-- A way to match statements under which their names, their keywords and what an augment has brought can
    be told alike. -/
structure Faithful (R : Statement × Option Nat → Statement × Option Nat → Prop) : Prop where
  name : ∀ {p p'}, R p p' → p'.1.name = p.1.name
  keyword : ∀ {p p'}, R p p' → p'.1.keyword = p.1.keyword
  marked : ∀ {p p'}, R p p' → p'.2.isSome = p.2.isSome

namespace SchemaNode

variable {R S T : Statement × Option Nat → Statement × Option Nat → Prop}

theorem Reordered.here {node node' : SchemaNode} (alike : Reordered R node node') :
    R (node.statement, node.augment) (node'.statement, node'.augment) := by
  cases alike with
  | intro here below => exact here

theorem Reordered.children {node node' : SchemaNode} (alike : Reordered R node node') :
    ReorderedAll R node.children node'.children := by
  cases alike with
  | intro here below => exact below

theorem Reordered.of_children {node node' : SchemaNode}
    (here : R (node.statement, node.augment) (node'.statement, node'.augment))
    (below : ReorderedAll R node.children node'.children) : Reordered R node node' := by
  cases node
  cases node'
  exact .intro here below

theorem reorderedAll_iff : ReorderedAll R l k ↔ ∃ m, List.Forall₂ (Reordered R) l m ∧ Shuffled m k := by
  constructor
  · intro alike
    induction l generalizing k with
    | nil =>
      cases alike
      exact ⟨[], .nil, .nil⟩
    | cons node rest ih =>
      cases alike with
      | cons first others order =>
        obtain ⟨m, each, order'⟩ := ih others
        exact ⟨_ :: m, .cons first each, (Shuffled.cons _ order').trans order⟩
  · rintro ⟨m, each, order⟩
    induction each generalizing k with
    | nil =>
      cases order.perm.nil_eq
      exact .nil
    | cons first _ ih => exact .cons first (ih (Shuffled.refl _)) order

theorem Reordered.all_of_forall₂ (each : List.Forall₂ (Reordered R) l k) : ReorderedAll R l k :=
  reorderedAll_iff.2 ⟨k, each, Shuffled.refl k⟩

theorem ReorderedAll.append {l' k' : List SchemaNode} (first : ReorderedAll R l l') (second : ReorderedAll R k k') :
    ReorderedAll R (l ++ k) (l' ++ k') := by
  obtain ⟨m, each, order⟩ := reorderedAll_iff.1 first
  obtain ⟨m', each', order'⟩ := reorderedAll_iff.1 second
  refine reorderedAll_iff.2 ⟨m ++ m', List.rel_append each each', ?_⟩
  exact (order.append_right m').trans (order'.append_left l')

theorem ReorderedAll.shuffled {m : List SchemaNode} (alike : ReorderedAll R l k) (order : Shuffled k m) :
    ReorderedAll R l m := by
  obtain ⟨l', each, order'⟩ := reorderedAll_iff.1 alike
  exact reorderedAll_iff.2 ⟨l', each, order'.trans order⟩

theorem Reordered.isSome (faithful : Faithful R) {node node' : SchemaNode} (alike : Reordered R node node') :
    node'.augment.isSome = node.augment.isSome :=
  faithful.marked alike.here

theorem Reordered.name (faithful : Faithful R) {node node' : SchemaNode} (alike : Reordered R node node') :
    node'.name = node.name :=
  faithful.name alike.here

theorem ReorderedAll.of_shuffled (faithful : Faithful R) {m : List SchemaNode} (order : Shuffled l k)
    (alike : ReorderedAll R k m) : ReorderedAll R l m := by
  obtain ⟨k', each, order'⟩ := reorderedAll_iff.1 alike
  obtain ⟨l', each', order''⟩ := order.comp_forall₂ (fun alike => alike.isSome faithful) each
  exact reorderedAll_iff.2 ⟨l', each', order''.trans order'⟩

mutual
theorem Reordered.refl (same : ∀ p, R p p) : ∀ node : SchemaNode, Reordered R node node
  | ⟨_, children, _⟩ => .intro (same _) (ReorderedAll.refl same children)

theorem ReorderedAll.refl (same : ∀ p, R p p) : ∀ l : List SchemaNode, ReorderedAll R l l
  | [] => .nil
  | node :: rest => .cons (Reordered.refl same node) (ReorderedAll.refl same rest) (Shuffled.refl _)
end

mutual
theorem Reordered.trans (faithful : Faithful S) (compose : ∀ p q r, R p q → S q r → T p r) :
    ∀ {a b c : SchemaNode}, Reordered R a b → Reordered S b c → Reordered T a c
  | ⟨_, _, _⟩, _, _, .intro here below, .intro here' below' =>
    .intro (compose _ _ _ here here') (ReorderedAll.trans faithful compose below below')

theorem ReorderedAll.trans (faithful : Faithful S) (compose : ∀ p q r, R p q → S q r → T p r) :
    ∀ {a b c : List SchemaNode}, ReorderedAll R a b → ReorderedAll S b c → ReorderedAll T a c
  | [], _, _, .nil, second => by
    cases second
    exact .nil
  | node :: rest, _, _, .cons first others order, second => by
    -- The second list is brought into the order of the first before the heads are compared.
    cases ReorderedAll.of_shuffled faithful order second with
    | cons first' others' order' =>
      exact .cons (Reordered.trans faithful compose first first')
        (ReorderedAll.trans faithful compose others others') order'
end

mutual
theorem Reordered.mono : ∀ {a b : SchemaNode}, (∀ p ∈ a.stamped, ∀ p', R p p' → S p p') →
    Reordered R a b → Reordered S a b
  | ⟨_, _, _⟩, _, weaker, .intro here below =>
    .intro (weaker _ List.mem_cons_self _ here)
      (ReorderedAll.mono (fun p member => weaker p (List.mem_cons_of_mem _ member)) below)

theorem ReorderedAll.mono : ∀ {a b : List SchemaNode}, (∀ p ∈ stampedAll a, ∀ p', R p p' → S p p') →
    ReorderedAll R a b → ReorderedAll S a b
  | [], _, _, .nil => .nil
  | _ :: _, _, weaker, .cons first others order =>
    .cons (Reordered.mono (fun p member => weaker p (List.mem_append_left _ member)) first)
      (ReorderedAll.mono (fun p member => weaker p (List.mem_append_right _ member)) others) order
end

theorem stampedAll_perm (order : l.Perm k) : (stampedAll l).Perm (stampedAll k) := by
  induction order with
  | nil => exact .nil
  | cons node _ ih => exact ih.append_left _
  | swap a b l =>
    simp only [stampedAll_cons, ← List.append_assoc]
    exact List.perm_append_comm.append_right _
  | trans _ _ first second => exact first.trans second

theorem ReorderedAll.exists_right (alike : ReorderedAll R l k) {node : SchemaNode} (member : node ∈ l) :
    ∃ node' ∈ k, Reordered R node node' := by
  obtain ⟨m, each, order⟩ := reorderedAll_iff.1 alike
  obtain ⟨node', inside, alike⟩ := exists_right_of_forall₂ each member
  exact ⟨node', order.perm.mem_iff.1 inside, alike⟩

theorem ReorderedAll.names (faithful : Faithful R) {l k : List SchemaNode} (alike : ReorderedAll R l k) :
    (l.map (·.name)).Perm (k.map (·.name)) := by
  obtain ⟨m, each, order⟩ := reorderedAll_iff.1 alike
  have same : m.map (·.name) = l.map (·.name) := map_eq_of_forall₂ (fun alike => alike.name faithful) each
  rw [← same]
  exact order.perm.map _

/-- Lists that match in some order match in some order when they are appended. -/
theorem exists_forall₂_append {α β : Type} {r : α → β → Prop} {a a' : List α} {b b' k : List β}
    (first : ∃ m, List.Forall₂ r a m ∧ m.Perm b) (second : ∃ m, List.Forall₂ r a' m ∧ m.Perm b')
    (order : (b ++ b').Perm k) : ∃ m, List.Forall₂ r (a ++ a') m ∧ m.Perm k := by
  obtain ⟨m, each, together⟩ := first
  obtain ⟨m', each', together'⟩ := second
  exact ⟨m ++ m', List.rel_append each each', (together.append together').trans order⟩

mutual
/-- The statements of two such trees match one by one, in some order. -/
theorem Reordered.exists_stamped : ∀ {a b : SchemaNode}, Reordered R a b →
    ∃ m, List.Forall₂ R a.stamped m ∧ m.Perm b.stamped
  | ⟨_, _, _⟩, _, .intro here below => by
    obtain ⟨m, each, order⟩ := ReorderedAll.exists_stamped below
    exact ⟨_ :: m, .cons here each, order.cons _⟩

theorem ReorderedAll.exists_stamped : ∀ {a b : List SchemaNode}, ReorderedAll R a b →
    ∃ m, List.Forall₂ R (stampedAll a) m ∧ m.Perm (stampedAll b)
  | [], _, .nil => ⟨[], .nil, .nil⟩
  | _ :: _, _, .cons first others order =>
    exists_forall₂_append (Reordered.exists_stamped first) (ReorderedAll.exists_stamped others)
      (stampedAll_perm order.perm)
end

mutual
/-- If no number is there twice, the numbers of the one tree are those of the other by a function. -/
theorem Reordered.exists_numbering : ∀ {a b : SchemaNode}, Reordered R a b →
    (a.stamped.map (·.1.id)).Nodup →
    ∃ τ : Nat → Nat, Reordered (fun p p' => R p p' ∧ p'.1.id = τ p.1.id) a b
  | ⟨s, _, _⟩, ⟨s', _, _⟩, .intro here below, distinct => by
    rw [stamped, List.map_cons, List.nodup_cons] at distinct
    obtain ⟨τ, below'⟩ := ReorderedAll.exists_numbering below distinct.2
    refine ⟨fun i => if i = s.id then s'.id else τ i, .intro ⟨here, by simp⟩ (below'.mono ?_)⟩
    intro p member p' same
    have different : p.1.id ≠ s.id := fun sameId =>
      distinct.1 (sameId ▸ List.mem_map_of_mem member)
    exact ⟨same.1, same.2.trans (if_neg different).symm⟩

theorem ReorderedAll.exists_numbering : ∀ {a b : List SchemaNode}, ReorderedAll R a b →
    ((stampedAll a).map (·.1.id)).Nodup →
    ∃ τ : Nat → Nat, ReorderedAll (fun p p' => R p p' ∧ p'.1.id = τ p.1.id) a b
  | [], _, .nil, _ => ⟨fun i => i, .nil⟩
  | node :: rest, _, .cons first others order, distinct => by
    rw [stampedAll_cons, List.map_append] at distinct
    obtain ⟨τ, first'⟩ := Reordered.exists_numbering first distinct.of_append_left
    obtain ⟨τ', others'⟩ := ReorderedAll.exists_numbering others distinct.of_append_right
    refine ⟨fun i => if i ∈ node.stamped.map (·.1.id) then τ i else τ' i,
      .cons (first'.mono ?_) (others'.mono ?_) order⟩
    · intro p member p' same
      have here : p.1.id ∈ node.stamped.map (·.1.id) := List.mem_map_of_mem member
      exact ⟨same.1, same.2.trans (if_pos here).symm⟩
    · intro p member p' same
      have different : p.1.id ∉ node.stamped.map (·.1.id) := fun inFirst =>
        List.disjoint_of_nodup_append distinct inFirst (List.mem_map_of_mem member)
      exact ⟨same.1, same.2.trans (if_neg different).symm⟩
end

/-! ## Different names -/

/-- No node has two children of one name. -/
def NamesDistinct (node : SchemaNode) : Prop :=
  ∀ n ∈ node.nodes, (n.children.map (·.name)).Nodup

theorem NamesDistinct.here {node : SchemaNode} (distinct : node.NamesDistinct) : (node.children.map (·.name)).Nodup :=
  distinct node (mem_nodes_self node)

theorem NamesDistinct.child {node child : SchemaNode} (distinct : node.NamesDistinct)
    (isChild : child ∈ node.children) : child.NamesDistinct := by
  intro n inside
  refine distinct n ?_
  rw [nodes_eq]
  exact List.mem_cons_of_mem _ (mem_nodesOfAll.2 ⟨child, isChild, inside⟩)

theorem namesDistinct_of_children {node : SchemaNode} (here : (node.children.map (·.name)).Nodup)
    (below : ∀ child ∈ node.children, child.NamesDistinct) : node.NamesDistinct := by
  intro n inside
  rw [nodes_eq, List.mem_cons] at inside
  cases inside with
  | inl isNode => exact isNode ▸ here
  | inr isBelow =>
    obtain ⟨child, isChild, inChild⟩ := mem_nodesOfAll.1 isBelow
    exact below child isChild n inChild

mutual
theorem Extends.namesDistinct : ∀ {node node' : SchemaNode}, Extends node node' → node'.NamesDistinct →
    node.NamesDistinct
  | ⟨_, _, _⟩, _, .intro below, distinct => by
    obtain ⟨names, each⟩ := ExtendsAll.namesDistinct below fun child isChild => distinct.child isChild
    exact namesDistinct_of_children (names.nodup distinct.here) each

theorem ExtendsAll.namesDistinct : ∀ {l l' : List SchemaNode}, ExtendsAll l l' →
    (∀ child ∈ l', child.NamesDistinct) →
    (l.map (·.name)).Sublist (l'.map (·.name)) ∧ ∀ child ∈ l, child.NamesDistinct
  | [], _, .nil _, _ => ⟨List.nil_sublist _, fun child member => absurd member List.not_mem_nil⟩
  | node :: rest, node' :: rest', .cons here others, each => by
    obtain ⟨names, below⟩ := ExtendsAll.namesDistinct others fun child member =>
      each child (List.mem_cons_of_mem _ member)
    have first := Extends.namesDistinct here (each node' List.mem_cons_self)
    refine ⟨?_, fun child member => ?_⟩
    · rw [List.map_cons, List.map_cons, name, name, here.statement]
      exact names.cons_cons _
    · cases List.mem_cons.1 member with
      | inl isFirst => exact isFirst ▸ first
      | inr isLater => exact below child isLater
end

mutual
theorem Reordered.namesDistinct (faithful : Faithful R) : ∀ {node node' : SchemaNode},
    Reordered R node node' → node.NamesDistinct → node'.NamesDistinct
  | ⟨_, _, _⟩, _, .intro _ below, distinct =>
    namesDistinct_of_children ((below.names faithful).nodup_iff.1 distinct.here)
      (ReorderedAll.namesDistinct faithful below fun _ isChild => distinct.child isChild)

theorem ReorderedAll.namesDistinct (faithful : Faithful R) : ∀ {l l' : List SchemaNode},
    ReorderedAll R l l' → (∀ child ∈ l, child.NamesDistinct) → ∀ child ∈ l', child.NamesDistinct
  | [], _, .nil, _ => fun _ member => absurd member List.not_mem_nil
  | node :: rest, _, .cons first others order, each => by
    intro child member
    cases List.mem_cons.1 (order.perm.mem_iff.2 member) with
    | inl isFirst => exact isFirst ▸ Reordered.namesDistinct faithful first (each node List.mem_cons_self)
    | inr isLater =>
      exact ReorderedAll.namesDistinct faithful others
        (fun other inRest => each other (List.mem_cons_of_mem _ inRest)) child isLater
end

/-! ## Paths -/

theorem Reordered.child? (faithful : Faithful R) {node node' : SchemaNode} (alike : Reordered R node node')
    (distinct : (node.children.map (·.name)).Nodup) {name : String} {child : SchemaNode}
    (found : node.child? name = some child) :
    ∃ child', node'.child? name = some child' ∧ Reordered R child child' := by
  have named : child.name = name := by simpa using List.find?_some found
  obtain ⟨child', isChild', alike'⟩ := alike.children.exists_right (List.mem_of_find?_eq_some found)
  have named' : child'.name = name := by
    rw [alike'.name faithful]
    exact named
  have distinct' := (alike.children.names faithful).nodup_iff.1 distinct
  exact ⟨child', named' ▸ find?_key_eq distinct' isChild', alike'⟩

theorem Reordered.at? (faithful : Faithful R) {path : List String} : ∀ {node node' target : SchemaNode},
    Reordered R node node' → node.NamesDistinct → node.at? path = some target →
      ∃ target', node'.at? path = some target' ∧ Reordered R target target' := by
  induction path with
  | nil =>
    intro node node' target alike distinct leads
    cases leads
    exact ⟨node', rfl, alike⟩
  | cons name rest ih =>
    intro node node' target alike distinct leads
    obtain ⟨child, found, leads⟩ := Option.bind_eq_some_iff.1 leads
    obtain ⟨child', found', alike'⟩ := alike.child? faithful distinct.here found
    obtain ⟨target', leads', alikeTarget⟩ :=
      ih alike' (distinct.child (List.mem_of_find?_eq_some found)) leads
    exact ⟨target', Option.bind_eq_some_iff.2 ⟨child', found', leads'⟩, alikeTarget⟩

theorem updateFirst_eq_map {name : String} (f : SchemaNode → SchemaNode) (distinct : (l.map (·.name)).Nodup) :
    updateFirst (·.name == name) f l = l.map fun node => if node.name == name then f node else node := by
  induction l with
  | nil => rfl
  | cons node rest ih =>
    rw [List.map_cons, List.nodup_cons] at distinct
    rw [updateFirst, List.map_cons]
    split
    · rename_i here
      have others : rest.map (fun other => if other.name == name then f other else other) = rest := by
        conv => rhs; rw [← List.map_id rest]
        refine List.map_congr_left fun other member => ?_
        have different : other.name ≠ name := by
          intro same
          exact distinct.1 ((beq_iff_eq.1 here).trans same.symm ▸ List.mem_map_of_mem member)
        simp [different]
      rw [others]
    · rw [ih distinct.2]

/-- Attaching matching nodes in the same place. -/
theorem Reordered.attachAt (faithful : Faithful R) {path : List String} {new new' : List SchemaNode}
    (added : ReorderedAll R new new') : ∀ {node node' : SchemaNode}, Reordered R node node' →
      node.NamesDistinct → Reordered R (node.attachAt path new) (node'.attachAt path new') := by
  induction path with
  | nil =>
    intro node node' alike distinct
    exact .of_children alike.here (alike.children.append added)
  | cons name rest ih =>
    intro node node' alike distinct
    refine .of_children (by simpa using alike.here) ?_
    simp only [SchemaNode.attachAt]
    rw [updateFirst_eq_map _ distinct.here,
      updateFirst_eq_map _ ((alike.children.names faithful).nodup_iff.1 distinct.here)]
    obtain ⟨m, each, order⟩ := reorderedAll_iff.1 alike.children
    refine reorderedAll_iff.2 ⟨_, ?_, order.map fun other => by split <;> simp⟩
    rw [List.forall₂_map_left_iff, List.forall₂_map_right_iff]
    have within : ∀ child ∈ node.children, child.NamesDistinct := fun child isChild => distinct.child isChild
    clear alike distinct order
    generalize node.children = children at each within
    induction each with
    | nil => exact .nil
    | cons first _ ihl =>
      refine .cons ?_ (ihl fun child member => within child (List.mem_cons_of_mem _ member))
      rw [first.name faithful]
      split
      · exact ih first (within _ List.mem_cons_self)
      · exact first

/-! ## Two attachments -/

theorem updateFirst_append {p : SchemaNode → Bool} (f : SchemaNode → SchemaNode) {found : SchemaNode}
    (isFirst : l.find? p = some found) (k : List SchemaNode) : updateFirst p f (l ++ k) = updateFirst p f l ++ k := by
  induction l with
  | nil => simp at isFirst
  | cons node rest ih =>
    rw [List.cons_append, updateFirst, updateFirst]
    cases holds : p node with
    | true => simp
    | false =>
      simp only [List.find?_cons, holds] at isFirst
      simp [ih isFirst]

theorem updateFirst_twice {p : SchemaNode → Bool} {f g : SchemaNode → SchemaNode}
    (kept : ∀ node, p (f node) = p node) (l : List SchemaNode) :
    updateFirst p g (updateFirst p f l) = updateFirst p (fun node => g (f node)) l := by
  induction l with
  | nil => rfl
  | cons node rest ih =>
    rw [updateFirst, updateFirst.eq_2 p fun node => g (f node)]
    cases holds : p node with
    | true => simp [updateFirst, kept, holds]
    | false => simp [updateFirst, holds, ih]

theorem updateFirst_comm {p q : SchemaNode → Bool} {f g : SchemaNode → SchemaNode}
    (different : ∀ node, p node = true → q node = false) (keptP : ∀ node, p (g node) = p node)
    (keptQ : ∀ node, q (f node) = q node) (l : List SchemaNode) :
    updateFirst q g (updateFirst p f l) = updateFirst p f (updateFirst q g l) := by
  induction l with
  | nil => rfl
  | cons node rest ih =>
    cases isP : p node with
    | true => simp [updateFirst, isP, keptQ, different node isP]
    | false =>
      cases isQ : q node with
      | true => simp [updateFirst, isP, isQ, keptP]
      | false => simp [updateFirst, isP, isQ, ih]

theorem reorderedAll_updateFirst (same : ∀ p, R p p) {p : SchemaNode → Bool} {f g : SchemaNode → SchemaNode}
    {found : SchemaNode} (isFirst : l.find? p = some found) (alike : Reordered R (f found) (g found)) :
    ReorderedAll R (updateFirst p f l) (updateFirst p g l) := by
  induction l with
  | nil => simp at isFirst
  | cons node rest ih =>
    rw [updateFirst, updateFirst]
    cases holds : p node with
    | true =>
      simp only [List.find?_cons, holds, Option.some.injEq] at isFirst
      subst isFirst
      exact .cons alike (ReorderedAll.refl same rest) (Shuffled.refl _)
    | false =>
      simp only [List.find?_cons, holds] at isFirst
      exact .cons (Reordered.refl same node) (ih isFirst) (Shuffled.refl _)

@[simp] theorem attachAt_name (path : List String) (new : List SchemaNode) (node : SchemaNode) :
    (node.attachAt path new).name = node.name := by
  rw [SchemaNode.name, attachAt_statement]
  rfl

/-- Nodes that augments bring can be attached in either order, if both paths lead somewhere before. -/
theorem reordered_attachAt_attachAt (same : ∀ p, R p p) {new new' : List SchemaNode}
    (marked : ∀ node ∈ new, node.augment.isSome) :
    ∀ {path path' : List String} {node target target' : SchemaNode},
      node.at? path = some target → node.at? path' = some target' →
      Reordered R ((node.attachAt path new).attachAt path' new') ((node.attachAt path' new').attachAt path new)
  | [], [], node, _, _, _, _ => by
    refine .of_children (same _) ?_
    simp only [SchemaNode.attachAt, List.append_assoc]
    exact (ReorderedAll.refl same node.children).append
      ((ReorderedAll.refl same (new ++ new')).shuffled (Shuffled.append_comm marked new'))
  | [], name :: rest, node, _, _, _, leads' => by
    obtain ⟨child, found, -⟩ := Option.bind_eq_some_iff.1 leads'
    simp only [SchemaNode.attachAt, updateFirst_append _ found new]
    exact Reordered.refl same _
  | name :: rest, [], node, _, _, leads, _ => by
    obtain ⟨child, found, -⟩ := Option.bind_eq_some_iff.1 leads
    simp only [SchemaNode.attachAt, updateFirst_append _ found new']
    exact Reordered.refl same _
  | name :: rest, name' :: rest', node, _, _, leads, leads' => by
    obtain ⟨child, found, inChild⟩ := Option.bind_eq_some_iff.1 leads
    obtain ⟨child', found', inChild'⟩ := Option.bind_eq_some_iff.1 leads'
    simp only [SchemaNode.attachAt]
    by_cases sameName : name = name'
    · subst sameName
      rw [found] at found'
      cases found'
      rw [updateFirst_twice (by simp), updateFirst_twice (by simp)]
      exact .of_children (same _) (reorderedAll_updateFirst same found
        (reordered_attachAt_attachAt same marked inChild inChild'))
    · rw [updateFirst_comm _ (by simp) (by simp)]
      · exact Reordered.refl same _
      · intro other isName
        have named : other.name = name := by simpa using isName
        simp [named, sameName]

end SchemaNode

end YangStubs.Schema
