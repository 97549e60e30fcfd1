import YangStubs.Proofs.Schema.Resolved

/-! # Where augments end up

Trees only grow at the ends of their lists of children while augments are applied.  A path that leads to a
node therefore goes on leading to it, and the nodes of an augment stay together at its target.  `Extends` is
this growth; what holds of an augment when it is applied is carried along it to the end of all rounds.
-/

namespace YangStubs.Schema

open SchemaNode (stampedAll)

variable {target : SchemaNode} {trees : SchemaTrees} {path : String × List String}

/-! ## Trees that grow at the ends -/

mutual
/-- A node and the same node later on, with more nodes after those that were below it. -/
inductive SchemaNode.Extends : SchemaNode → SchemaNode → Prop
  | intro {statement : Statement} {children children' : List SchemaNode} {augment : Option Nat}
      (below : SchemaNode.ExtendsAll children children') :
      SchemaNode.Extends ⟨statement, children, augment⟩ ⟨statement, children', augment⟩

/-- The same for a list of nodes, after which there may be others. -/
inductive SchemaNode.ExtendsAll : List SchemaNode → List SchemaNode → Prop
  | nil (added : List SchemaNode) : SchemaNode.ExtendsAll [] added
  | cons {node node' : SchemaNode} {rest rest' : List SchemaNode}
      (here : SchemaNode.Extends node node') (others : SchemaNode.ExtendsAll rest rest') :
      SchemaNode.ExtendsAll (node :: rest) (node' :: rest')
end

namespace SchemaNode

section

variable {node node' : SchemaNode} (grown : Extends node node')
include grown

theorem Extends.statement : node'.statement = node.statement := by
  cases grown; rfl

theorem Extends.augment : node'.augment = node.augment := by
  cases grown; rfl

theorem Extends.children : ExtendsAll node.children node'.children := by
  cases grown with
  | intro below => exact below

end

theorem Extends.of_children {node node' : SchemaNode} (sameStatement : node'.statement = node.statement)
    (sameAugment : node'.augment = node.augment) (below : ExtendsAll node.children node'.children) :
    Extends node node' := by
  cases node
  cases node'
  cases sameStatement
  cases sameAugment
  exact .intro below

mutual
theorem Extends.refl : ∀ node : SchemaNode, Extends node node
  | ⟨_, children, _⟩ => .intro (ExtendsAll.refl children)

theorem ExtendsAll.refl : ∀ l : List SchemaNode, ExtendsAll l l
  | [] => .nil []
  | node :: rest => .cons (Extends.refl node) (ExtendsAll.refl rest)
end

mutual
theorem Extends.trans : ∀ {a b c : SchemaNode}, Extends a b → Extends b c → Extends a c
  | ⟨_, _, _⟩, _, _, .intro first, .intro second => .intro (first.trans second)

theorem ExtendsAll.trans : ∀ {a b c : List SchemaNode}, ExtendsAll a b → ExtendsAll b c → ExtendsAll a c
  | [], _, _, .nil _, _ => .nil _
  | _ :: _, _, _, .cons here others, .cons here' others' => .cons (here.trans here') (others.trans others')
end

theorem extendsAll_append (l added : List SchemaNode) : ExtendsAll l (l ++ added) := by
  induction l with
  | nil => exact .nil added
  | cons node rest ih => exact .cons (Extends.refl node) ih

/-- What two lists have become can be cut where the first one ends. -/
theorem ExtendsAll.cut : ∀ {left right l : List SchemaNode}, ExtendsAll (left ++ right) l →
    ∃ left' right', l = left' ++ right' ∧ List.Forall₂ Extends left left' ∧ ExtendsAll right right'
  | [], right, l, grown => ⟨[], l, rfl, .nil, grown⟩
  | node :: left, right, _, .cons here others => by
    obtain ⟨left', right', same, first, second⟩ := ExtendsAll.cut others
    exact ⟨_ :: left', right', by rw [same, List.cons_append], .cons here first, second⟩

/-! ## Paths -/

/-- The first node of a name stays the first one. -/
theorem ExtendsAll.find? {l l' : List SchemaNode} (grown : ExtendsAll l l') {name : String}
    {node : SchemaNode} (found : l.find? (·.name == name) = some node) :
    ∃ node', l'.find? (·.name == name) = some node' ∧ Extends node node' := by
  induction l generalizing l' with
  | nil => simp at found
  | cons first rest ih =>
    cases grown with
    | @cons _ first' _ rest' here others =>
      have sameName : first'.name = first.name := by
        rw [SchemaNode.name, here.statement]
        rfl
      by_cases isFirst : first.name = name
      · simp only [List.find?_cons, isFirst, beq_self_eq_true, Option.some.injEq] at found
        subst found
        exact ⟨first', by simp [sameName, isFirst], here⟩
      · have elsewhere : (first.name == name) = false := by simpa using isFirst
        simp only [List.find?_cons, elsewhere] at found
        obtain ⟨node', found', grown'⟩ := ih others found
        exact ⟨node', by simpa only [List.find?_cons, sameName, elsewhere] using found', grown'⟩

theorem Extends.at? {node node' : SchemaNode} (grown : Extends node node') {path : List String}
    (leads : node.at? path = some target) : ∃ target', node'.at? path = some target' ∧ Extends target target' := by
  induction path generalizing node node' with
  | nil =>
    cases leads
    exact ⟨node', rfl, grown⟩
  | cons name rest ih =>
    obtain ⟨child, found, leads⟩ := Option.bind_eq_some_iff.1 leads
    obtain ⟨child', found', grown'⟩ := grown.children.find? found
    obtain ⟨target', leads', grownTarget⟩ := ih grown' leads
    exact ⟨target', Option.bind_eq_some_iff.2 ⟨child', found', leads'⟩, grownTarget⟩

theorem extendsAll_updateFirst {p : SchemaNode → Bool} {f : SchemaNode → SchemaNode}
    (each : ∀ node, Extends node (f node)) (l : List SchemaNode) : ExtendsAll l (updateFirst p f l) := by
  induction l with
  | nil => exact .nil []
  | cons node rest ih =>
    rw [updateFirst]
    split
    · exact .cons (each node) (ExtendsAll.refl rest)
    · exact .cons (Extends.refl node) ih

theorem extends_attachAt (path : List String) (new : List SchemaNode) :
    ∀ node : SchemaNode, Extends node (node.attachAt path new) := by
  induction path with
  | nil => exact fun node => .of_children rfl rfl (extendsAll_append node.children new)
  | cons name rest ih => exact fun node => .of_children rfl rfl (extendsAll_updateFirst ih node.children)

theorem find?_updateFirst {p : SchemaNode → Bool} {f : SchemaNode → SchemaNode}
    (kept : ∀ node, p (f node) = p node) (l : List SchemaNode) :
    (updateFirst p f l).find? p = (l.find? p).map f := by
  induction l with
  | nil => rfl
  | cons node rest ih =>
    rw [updateFirst]
    cases holds : p node with
    | true => simp [holds, kept]
    | false => simp [holds, ih]

/-- What has been attached is found at the end of the path. -/
theorem at?_attachAt (new : List SchemaNode) {path : List String} {node : SchemaNode}
    (leads : node.at? path = some target) :
    (node.attachAt path new).at? path = some { target with children := target.children ++ new } := by
  induction path generalizing node with
  | nil =>
    cases leads
    rfl
  | cons name rest ih =>
    obtain ⟨child, found, leads⟩ := Option.bind_eq_some_iff.1 leads
    -- Attaching changes no names, so the way down finds the same child afterwards.
    have kept : ∀ other : SchemaNode, ((other.attachAt rest new).name == name) = (other.name == name) := by
      intro other
      rw [SchemaNode.name, attachAt_statement]
      rfl
    have moved := find?_updateFirst (p := (·.name == name)) kept node.children
    rw [child?] at found
    simp only [attachAt, SchemaNode.at?, child?, moved, found, Option.map_some, Option.bind_some]
    exact ih leads

end SchemaNode

open SchemaNode (Extends ExtendsAll)

namespace SchemaTrees

/-- The trees of the same modules later on. -/
def Extends (trees trees' : SchemaTrees) : Prop :=
  List.Forall₂ (fun tree tree' => tree.1 = tree'.1 ∧ tree.2.Extends tree'.2) trees trees'

theorem Extends.lookup {trees trees' : SchemaTrees} (grown : Extends trees trees') {name : String}
    {tree : SchemaNode} (found : trees.lookup name = some tree) :
    ∃ tree', trees'.lookup name = some tree' ∧ tree.Extends tree' := by
  induction grown with
  | nil => simp at found
  | @cons first first' rest rest' here _ ih =>
    obtain ⟨key, top⟩ := first
    obtain ⟨key', top'⟩ := first'
    obtain ⟨rfl, grownTop⟩ := here
    rw [List.lookup_cons] at found ⊢
    cases isFirst : name == key with
    | true =>
      simp only [isFirst, Option.some.injEq] at found
      exact ⟨top', rfl, found ▸ grownTop⟩
    | false =>
      simp only [isFirst] at found
      exact ih found

theorem Extends.at? {trees' : SchemaTrees} (grown : Extends trees trees') (leads : trees.at? path = some target) :
    ∃ target', trees'.at? path = some target' ∧ target.Extends target' := by
  obtain ⟨tree, found, inTree⟩ := Option.bind_eq_some_iff.1 leads
  obtain ⟨tree', found', grownTree⟩ := grown.lookup found
  obtain ⟨target', inTree', grownTarget⟩ := grownTree.at? inTree
  exact ⟨target', Option.bind_eq_some_iff.2 ⟨tree', found', inTree'⟩, grownTarget⟩

theorem extends_attachAt (trees : SchemaTrees) (path : String × List String) (new : List SchemaNode) :
    Extends trees (trees.attachAt path new) := by
  induction trees with
  | nil => exact .nil
  | cons tree rest ih =>
    refine .cons ?_ ih
    by_cases here : tree.1 = path.1
    · simp only [here, beq_self_eq_true, if_true]
      exact ⟨trivial, SchemaNode.extends_attachAt path.2 new tree.2⟩
    · simp only [beq_iff_eq, here, if_false]
      exact ⟨trivial, SchemaNode.Extends.refl tree.2⟩

theorem lookup_attachAt (new : List SchemaNode) {tree : SchemaNode} (found : trees.lookup path.1 = some tree) :
    (trees.attachAt path new).lookup path.1 = some (tree.attachAt path.2 new) := by
  induction trees with
  | nil => simp at found
  | cons first rest ih =>
    obtain ⟨name, top⟩ := first
    rw [List.lookup_cons] at found
    by_cases here : name = path.1
    · subst here
      simp only [beq_self_eq_true, Option.some.injEq] at found
      simp [SchemaTrees.attachAt, found]
    · have elsewhere : (path.1 == name) = false := by simpa using fun same => here same.symm
      simp only [elsewhere] at found
      simpa only [SchemaTrees.attachAt, List.map_cons, beq_iff_eq, here, if_false, List.lookup_cons,
        elsewhere] using ih found

theorem at?_attachAt (new : List SchemaNode) (leads : trees.at? path = some target) :
    (trees.attachAt path new).at? path = some { target with children := target.children ++ new } := by
  obtain ⟨tree, found, inTree⟩ := Option.bind_eq_some_iff.1 leads
  exact Option.bind_eq_some_iff.2 ⟨_, lookup_attachAt new found, SchemaNode.at?_attachAt new inTree⟩

end SchemaTrees

theorem augmentTarget?_eq_some {directory : Directory} {augment : SchemaNode} :
    augmentTarget? directory trees augment = some (path, target) ↔
      augmentPath? directory augment.statement = some path ∧ trees.at? path = some target := by
  simp only [augmentTarget?, Option.bind_eq_some_iff, Option.map_eq_some_iff, Prod.mk.injEq]
  constructor
  · rintro ⟨path', isPath, target', leads, rfl, rfl⟩
    exact ⟨isPath, leads⟩
  · rintro ⟨isPath, leads⟩
    exact ⟨path, isPath, target, leads, rfl, rfl⟩

/-! ## The nodes of an augment at its target -/

/-- A node of an augment as it stands at a site, marked: itself, or in a case of its own with a number
    from `start` on.  More may have come below it since. -/
inductive StandsAs (augment start : Nat) (site : Site) (child : SchemaNode) : SchemaNode → Prop
  | itself {node : SchemaNode} (plain : needsCase site child.keyword = false)
      (grown : Extends { child with augment := some augment } node) :
      StandsAs augment start site child node
  | inCase {inner : SchemaNode} {more : List SchemaNode} {number : Nat}
      (needs : needsCase site child.keyword = true) (fresh : start ≤ number)
      (grown : Extends { child with augment := some augment } inner) :
      StandsAs augment start site child ⟨caseFor number child, inner :: more, some augment⟩

theorem StandsAs.later {augment start : Nat} {site : Site} {child node node' : SchemaNode}
    (stands : StandsAs augment start site child node) (grown : Extends node node') :
    StandsAs augment start site child node' := by
  cases stands with
  | itself plain before => exact .itself plain (before.trans grown)
  | inCase needs fresh before =>
    -- The node is the first one in its case; what comes later stands behind it.
    cases grown with
    | intro below =>
      cases below with
      | cons here others => exact .inCase needs fresh (before.trans here)

theorem StandsAs.laterAll {augment start : Nat} {site : Site} {children mine mine' : List SchemaNode}
    (stands : List.Forall₂ (StandsAs augment start site) children mine)
    (grown : List.Forall₂ Extends mine mine') :
    List.Forall₂ (StandsAs augment start site) children mine' := by
  induction stands generalizing mine' with
  | nil =>
    cases grown
    exact .nil
  | cons here _ ih =>
    cases grown with
    | cons grownHere grownRest => exact .cons (here.later grownHere) (ih grownRest)

/-- Grafting puts the nodes of an augment next to each other, in their order. -/
theorem graft_stands {start : Nat} (augment : Nat) (site : Site) (children : List SchemaNode) :
    ∀ g : Growth, start ≤ g.next →
      List.Forall₂ (StandsAs augment start site) children ((graft augment site children).run g).1 := by
  induction children with
  | nil => exact fun _ _ => .nil
  | cons child rest ih =>
    intro g later
    rw [graft_cons_run, placeAt_run]
    cases needs : needsCase site child.keyword with
    | true =>
      have needs' : needsCase site (SchemaNode.keyword { child with augment := some augment }) = true := needs
      simp only [needs', if_true]
      exact .cons (.inCase needs later (Extends.refl _)) (ih _ (Nat.le_succ_of_le later))
    | false =>
      have needs' : needsCase site (SchemaNode.keyword { child with augment := some augment }) = false :=
        needs
      simp only [needs', Bool.false_eq_true, if_false]
      exact .cons (.itself needs (Extends.refl _)) (ih g later)

/-- What grafting brings: the nodes of the augment and their cases, which it marks, and what is below. -/
theorem graft_stamped (augment : Nat) (site : Site) (children : List SchemaNode) :
    ∀ g : Growth, ∀ stamp ∈ stampedAll ((graft augment site children).run g).1,
      (stamp.2 = some augment ∧ stamp.1 ∈ (children ++ ((graft augment site children).run g).1).map (·.statement)) ∨
      stamp ∈ stampedAll (children.flatMap (·.children)) := by
  induction children with
  | nil => exact fun g stamp member => absurd member List.not_mem_nil
  | cons child rest ih =>
    intro g stamp member
    rw [graft_cons_run] at member ⊢
    simp only [SchemaNode.stampedAll_cons, List.mem_append, List.flatMap_cons,
      SchemaNode.stampedAll_append] at member ⊢
    cases member with
    | inr others =>
      cases ih _ stamp others with
      | inl own =>
        refine .inl ⟨own.1, ?_⟩
        have known := own.2
        simp only [List.map_append, List.map_cons, List.mem_append, List.mem_cons] at known ⊢
        exact known.elim (fun h => .inl (.inr h)) (fun h => .inr (.inr h))
      | inr below => exact .inr (.inr below)
    | inl here =>
      rw [placeAt_run] at here ⊢
      split at here
      · rename_i needs
        simp only [needs, if_true, SchemaNode.stamped_eq, SchemaNode.stampedAll_cons,
          SchemaNode.stampedAll_nil, List.append_nil, List.mem_cons] at here ⊢
        rcases here with rfl | rfl | below
        · exact .inl ⟨rfl, by simp⟩
        · exact .inl ⟨rfl, by simp⟩
        · exact .inr (.inl below)
      · rename_i plain
        simp only [plain, Bool.false_eq_true, if_false, SchemaNode.stamped_eq, List.mem_cons] at here ⊢
        rcases here with rfl | below
        · exact .inl ⟨rfl, by simp⟩
        · exact .inr (.inl below)

/-! ## Augments that have been applied -/

/-- An augment has been applied: its path leads to a node at which its nodes stand next to each other, and
    no other statements than theirs and those of their cases are marked by it. -/
structure AppliedAt (directory : Directory) (start : Nat) (trees : SchemaTrees) (augment : SchemaNode)
    (target : SchemaNode) (mine : List SchemaNode) : Prop where
  leads : ∃ path, augmentTarget? directory trees augment = some (path, target)
  together : ∃ before after, target.children = before ++ mine ++ after
  stands : List.Forall₂ (StandsAs augment.id start target.statement.site) augment.children mine
  only : ∀ stamp ∈ stampedAll trees.below, stamp.2 = some augment.id →
    stamp.1 ∈ (augment.children ++ mine).map (·.statement)

/-- An applied augment stays applied, as long as nothing else is marked by it. -/
theorem AppliedAt.later {directory : Directory} {start : Nat} {trees trees' : SchemaTrees}
    {augment target : SchemaNode} {mine : List SchemaNode}
    (applied : AppliedAt directory start trees augment target mine) (grown : trees.Extends trees')
    (marks : ∀ stamp ∈ stampedAll trees'.below, stamp.2 = some augment.id → stamp ∈ stampedAll trees.below) :
    ∃ target' mine', AppliedAt directory start trees' augment target' mine' := by
  obtain ⟨path, found⟩ := applied.leads
  obtain ⟨isPath, leads⟩ := augmentTarget?_eq_some.1 found
  obtain ⟨target', leads', grownTarget⟩ := grown.at? leads
  obtain ⟨before, after, children⟩ := applied.together
  -- What the children of the target have become is cut into three where they were.
  have below := grownTarget.children
  rw [children, List.append_assoc] at below
  obtain ⟨before', rest, same, -, others⟩ := below.cut
  obtain ⟨mine', after', sameRest, grownMine, -⟩ := others.cut
  refine ⟨target', mine', ⟨path, augmentTarget?_eq_some.2 ⟨isPath, leads'⟩⟩, ⟨before', after', ?_⟩, ?_, ?_⟩
  · rw [same, sameRest, List.append_assoc]
  · rw [grownTarget.statement]
    exact StandsAs.laterAll applied.stands grownMine
  · intro stamp member isMarked
    have known := applied.only stamp (marks stamp member isMarked) isMarked
    rw [List.map_append] at known ⊢
    have sameStatements : mine'.map (·.statement) = mine.map (·.statement) :=
      map_eq_of_forall₂ Extends.statement grownMine
    rw [sameStatements]
    exact known

theorem graftAt_eq_graft (augment target : SchemaNode) (g : Growth) :
    ∃ g' : Growth, g'.next = g.next ∧ graftAt augment target g =
      (graft augment.id target.statement.site augment.children).run g' := by
  refine ⟨_, ?_, rfl⟩
  rfl

/-- The statements in the trees after an augment has been applied. -/
theorem stamped_attachAt_graftAt (names : (trees.map (·.1)).Nodup) {augment : SchemaNode}
    (leads : trees.at? path = some target) (g : Growth) (stamp : Statement × Option Nat) :
    stamp ∈ stampedAll (trees.attachAt path (graftAt augment target g).1).below ↔
      stamp ∈ stampedAll trees.below ∨ stamp ∈ stampedAll (graftAt augment target g).1 := by
  have attached := SchemaTrees.attachAt_stamped (graftAt augment target g).1 names (by rw [leads]; rfl)
  rw [attached.mem_iff, List.mem_append]

/-- No augment has put any of the nodes where they are. -/
def Unmarked (l : List SchemaNode) : Prop :=
  ∀ stamp ∈ stampedAll l, stamp.2 = none

theorem AppliedAt.of_graft {directory : Directory} {start : Nat} {augment : SchemaNode} {g : Growth}
    (names : (trees.map (·.1)).Nodup) (found : augmentTarget? directory trees augment = some (path, target))
    (unmarked : Unmarked (augment.children.flatMap (·.children)))
    (absent : ∀ stamp ∈ stampedAll trees.below, stamp.2 ≠ some augment.id) (later : start ≤ g.next) :
    AppliedAt directory start (trees.attachAt path (graftAt augment target g).1) augment
      { target with children := target.children ++ (graftAt augment target g).1 }
      (graftAt augment target g).1 := by
  obtain ⟨isPath, leads⟩ := augmentTarget?_eq_some.1 found
  obtain ⟨g', sameNext, isGraft⟩ := graftAt_eq_graft augment target g
  refine ⟨⟨path, ?_⟩, ⟨target.children, [], by simp⟩, ?_, ?_⟩
  · exact augmentTarget?_eq_some.2 ⟨isPath, SchemaTrees.at?_attachAt _ leads⟩
  · rw [isGraft]
    exact graft_stands augment.id target.statement.site augment.children g' (sameNext ▸ later)
  · intro stamp member isMarked
    -- No mark was there before, so every mark of the augment has come with its nodes.
    cases (stamped_attachAt_graftAt names leads g stamp).1 member with
    | inl before => exact absurd isMarked (absent stamp before)
    | inr now =>
      rw [isGraft] at now ⊢
      cases graft_stamped _ _ _ g' stamp now with
      | inl own => exact own.2
      | inr below =>
        rw [unmarked stamp below] at isMarked
        exact absurd isMarked nofun

end YangStubs.Schema
