import YangStubs.Proofs.Schema.Linking

/-! # What growing the schema tree does

Growing takes numbers without gaps for the statements it makes, and places statements that were there
before or that it makes, no statement twice.  `Grows` says this of one part of the work; parts that follow
each other add up.
-/

namespace YangStubs.Schema

open Statement (within withinAll Numbered sizeOfAll)

/-- A step and what follows it, in the order of their states. -/
theorem run_bind {σ α β : Type} (x : StateM σ α) (f : α → StateM σ β) (s : σ) :
    (x >>= f).run s = (f (x.run s).1).run (x.run s).2 := rfl

/-! ## Statements in a schema tree -/

mutual
/-- The statements of a node and of all nodes below it, parents first. -/
def SchemaNode.placed : SchemaNode → List Statement
  | ⟨statement, children, _⟩ => statement :: placedAll children

/-- The statements of several trees, tree by tree. -/
def SchemaNode.placedAll : List SchemaNode → List Statement
  | [] => []
  | node :: rest => node.placed ++ placedAll rest
end

open SchemaNode (placed placedAll)

namespace SchemaNode

theorem placed_eq (node : SchemaNode) : node.placed = node.statement :: placedAll node.children := by
  cases node; rfl

@[simp] theorem placedAll_nil : placedAll [] = [] := rfl

@[simp] theorem placedAll_cons (node : SchemaNode) (rest : List SchemaNode) :
    placedAll (node :: rest) = node.placed ++ placedAll rest := rfl

@[simp] theorem placedAll_append (left right : List SchemaNode) :
    placedAll (left ++ right) = placedAll left ++ placedAll right := by
  induction left with
  | nil => rfl
  | cons node rest ih => simp [ih]

theorem placedAll_perm (nodes : List SchemaNode) :
    (placedAll nodes).Perm (nodes.map (·.statement) ++ placedAll (nodes.flatMap (·.children))) := by
  induction nodes with
  | nil => exact List.Perm.refl _
  | cons node rest ih =>
    simp only [placedAll_cons, placed_eq, List.map_cons, List.flatMap_cons, placedAll_append, List.cons_append]
    refine List.Perm.cons _ ((ih.append_left _).trans ?_)
    rw [← List.append_assoc, ← List.append_assoc]
    exact List.perm_append_comm.append_right _

theorem placedAll_eq_flatMap (nodes : List SchemaNode) : placedAll nodes = nodes.flatMap placed := by
  induction nodes with
  | nil => rfl
  | cons node rest ih => rw [placedAll_cons, ih, List.flatMap_cons]

end SchemaNode

/-! ## Statements that keep their place -/

mutual
/-- The statement and what is written inside it that keeps its place in the schema tree: what a `uses`
    brings in and what defines no node is left out. -/
def Statement.core : Statement → List Statement
  | ⟨id, keyword, arg, home, origin, grouping, typedef, subs⟩ =>
    ⟨id, keyword, arg, home, origin, grouping, typedef, subs⟩ ::
      if isSchemaNode keyword then coreOfAll subs else []

/-- The statements of a list that keep their place. -/
def Statement.coreOfAll : List Statement → List Statement
  | [] => []
  | s :: rest => (if isTreeKeyword s.keyword then s.core else []) ++ coreOfAll rest
end

open Statement (core coreOfAll)

/-- What keeps its place below a statement. -/
def Statement.coreBelow (s : Statement) : List Statement :=
  if isSchemaNode s.keyword then coreOfAll s.subs else []

namespace Statement

theorem core_eq (s : Statement) : s.core = s :: s.coreBelow := by
  cases s; rfl

@[simp] theorem coreOfAll_nil : coreOfAll [] = [] := rfl

theorem coreOfAll_cons (s : Statement) (rest : List Statement) :
    coreOfAll (s :: rest) = (if isTreeKeyword s.keyword then s.core else []) ++ coreOfAll rest := rfl

mutual
theorem core_sublist : ∀ s : Statement, s.core.Sublist s.within
  | ⟨_, _, _, _, _, _, _, subs⟩ => by
    simp only [core, within]
    refine List.Sublist.cons_cons _ ?_
    split
    · exact coreOfAll_sublist subs
    · exact List.nil_sublist _

theorem coreOfAll_sublist : ∀ l : List Statement, (coreOfAll l).Sublist (withinAll l)
  | [] => List.Sublist.refl _
  | s :: rest => by
    simp only [coreOfAll, withinAll]
    refine List.Sublist.append ?_ (coreOfAll_sublist rest)
    split
    · exact core_sublist s
    · exact List.nil_sublist _
end

mutual
theorem coreBelow_tree : ∀ (s : Statement), ∀ t ∈ s.coreBelow, isTreeKeyword t.keyword
  | ⟨_, _, _, _, _, _, _, subs⟩, t, member => by
    simp only [coreBelow] at member
    split at member
    · exact coreOfAll_tree subs t member
    · simp at member

/-- Only what becomes a node keeps its place. -/
theorem coreOfAll_tree : ∀ (l : List Statement), ∀ t ∈ coreOfAll l, isTreeKeyword t.keyword
  | [], t, member => by simp at member
  | s :: rest, t, member => by
    rw [coreOfAll_cons, List.mem_append] at member
    rcases member with here | others
    · split at here
      · rename_i tree
        rw [core_eq, List.mem_cons] at here
        rcases here with rfl | below
        · exact tree
        · exact coreBelow_tree s t below
      · simp at here
    · exact coreOfAll_tree rest t others
end

/-- The statements that become no node of the statement around them: each starts a tree of its own, or
    none. -/
def outsiders (l : List Statement) : List Statement :=
  (withinAll l).filter fun s => !isTreeKeyword s.keyword

theorem outsiders_cons (s : Statement) (rest : List Statement) :
    outsiders (s :: rest) = (if isTreeKeyword s.keyword then [] else [s]) ++ outsiders s.subs ++ outsiders rest := by
  simp only [outsiders, withinAll_cons, within_eq, List.filter_append, List.filter_cons]
  cases isTreeKeyword s.keyword <;> simp

/-- The number of times that statements with a number are listed. -/
def countOf (i : Nat) (l : List Statement) : Nat :=
  (l.map (·.id)).count i

@[simp] theorem countOf_nil (i : Nat) : countOf i [] = 0 := rfl

@[simp] theorem countOf_append (i : Nat) (left right : List Statement) :
    countOf i (left ++ right) = countOf i left + countOf i right := by
  simp [countOf]

theorem countOf_cons (i : Nat) (s : Statement) (rest : List Statement) :
    countOf i (s :: rest) = countOf i [s] + countOf i rest :=
  countOf_append i [s] rest

theorem countOf_perm (i : Nat) {left right : List Statement} (perm : left.Perm right) :
    countOf i left = countOf i right :=
  (perm.map _).count_eq i

theorem countOf_sublist (i : Nat) {left right : List Statement} (sublist : left.Sublist right) :
    countOf i left ≤ countOf i right :=
  (sublist.map _).count_le i

theorem countOf_flatMap_core (i : Nat) (l : List Statement) :
    countOf i (l.flatMap core) = countOf i l + countOf i (l.flatMap (·.coreBelow)) := by
  induction l with
  | nil => rfl
  | cons s rest ih =>
    rw [List.flatMap_cons, List.flatMap_cons, countOf_append, countOf_append, ih, core_eq,
      countOf_cons, countOf_cons i s rest]
    omega

mutual
theorem countOf_core_le (i : Nat) : ∀ s : Statement,
    countOf i ((outsiders s.subs).flatMap core) + countOf i s.core ≤ countOf i s.within
  | ⟨id, keyword, arg, home, origin, grouping, typedef, subs⟩ => by
    have inside := countOf_coreOfAll_le i subs
    simp only [core, within]
    rw [countOf_cons, countOf_cons i _ (withinAll subs)]
    split
    · omega
    · rw [countOf_nil]; omega

/-- The trees that start at different statements of a forest have no statement in common: each statement
    of the forest is counted at most once. -/
theorem countOf_coreOfAll_le (i : Nat) : ∀ l : List Statement,
    countOf i ((outsiders l).flatMap core) + countOf i (coreOfAll l) ≤ countOf i (withinAll l)
  | [] => Nat.le_refl 0
  | s :: rest => by
    have here := countOf_core_le i s
    have others := countOf_coreOfAll_le i rest
    rw [outsiders_cons, coreOfAll_cons, withinAll_cons]
    cases isTreeKeyword s.keyword <;>
      simp only [Bool.false_eq_true, if_false, if_true, List.flatMap_append, List.flatMap_cons,
        List.flatMap_nil, countOf_append, List.append_nil, List.nil_append] <;>
      omega
end

end Statement

/-! ## Growth -/

open Statement (countOf countOf_append)

/-- The statements that were made, in order. -/
def madeStatements (fresh : List Made) : List Statement :=
  withinAll (fresh.map (·.statement))

@[simp] theorem madeStatements_nil : madeStatements [] = [] := rfl

@[simp] theorem madeStatements_append (left right : List Made) :
    madeStatements (left ++ right) = madeStatements left ++ madeStatements right := by
  simp [madeStatements]

@[simp] theorem madeStatements_single (m : Made) : madeStatements [m] = m.statement.within := by
  simp [madeStatements]

/-- From `g` to `g'`, the statements `fresh` are made, all of which satisfy `P`, and the statements `placed`
    get their place: each of them one of the statements `own`, which were there before, or one of those
    made. -/
structure Grows (P : Statement → Prop) (own : List Statement) (g : Growth) (fresh : List Made)
    (placed : List Statement) (g' : Growth) : Prop where
  made : g'.made = g.made ++ fresh
  numbered : Numbered g.next (fresh.map (·.statement))
  next : g'.next = g.next + sizeOfAll (fresh.map (·.statement))
  count : ∀ i, countOf i placed ≤ countOf i own + countOf i (madeStatements fresh)
  member : ∀ s ∈ placed, s ∈ own ∨ s ∈ madeStatements fresh
  tree : ∀ s ∈ placed, isTreeKeyword s.keyword
  lawful : ∀ s ∈ madeStatements fresh, P s

namespace Grows

variable {P : Statement → Prop} {own own' : List Statement} {g mid g' : Growth} {fresh fresh' : List Made}
  {placed placed' : List Statement}

/-- Nothing is made or placed; events may be reported. -/
theorem idle (sameMade : g'.made = g.made) (sameNext : g'.next = g.next) : Grows P [] g [] [] g' where
  made := by simp [sameMade]
  numbered := Statement.numbered_nil _
  next := by simp [sameNext]
  count := by simp
  member := by simp
  tree := by simp
  lawful := by simp

/-- What is made adds up, whatever becomes of it. -/
theorem follow {own'' placed'' : List Statement} (first : Grows P own g fresh placed mid)
    (second : Grows P own' mid fresh' placed' g')
    (count : ∀ i, countOf i placed'' ≤ countOf i own'' + countOf i (madeStatements (fresh ++ fresh')))
    (member : ∀ s ∈ placed'', s ∈ own'' ∨ s ∈ madeStatements (fresh ++ fresh'))
    (tree : ∀ s ∈ placed'', isTreeKeyword s.keyword) : Grows P own'' g (fresh ++ fresh') placed'' g' where
  made := by rw [second.made, first.made, List.append_assoc]
  numbered := by
    rw [List.map_append]
    exact first.numbered.append (first.next ▸ second.numbered)
  next := by
    rw [second.next, first.next, List.map_append, Statement.sizeOfAll_append]
    omega
  count
  member
  tree
  lawful := by
    rw [madeStatements_append]
    exact List.forall_mem_append.2 ⟨first.lawful, second.lawful⟩

/-- Two parts of the work, one after the other. -/
theorem append (first : Grows P own g fresh placed mid) (second : Grows P own' mid fresh' placed' g') :
    Grows P (own ++ own') g (fresh ++ fresh') (placed ++ placed') g' := by
  refine first.follow second (fun i => ?_) ?_ (List.forall_mem_append.2 ⟨first.tree, second.tree⟩)
  · have left := first.count i
    have right := second.count i
    simp only [countOf_append, madeStatements_append]
    omega
  · simp only [List.mem_append, madeStatements_append]
    grind [first.member, second.member]

/-- Work that goes on with what the work before it has placed. -/
theorem trans (first : Grows P own g fresh placed mid) (second : Grows P placed mid fresh' placed' g') :
    Grows P own g (fresh ++ fresh') placed' g' := by
  refine first.follow second (fun i => ?_) ?_ second.tree
  · have left := first.count i
    have right := second.count i
    simp only [countOf_append, madeStatements_append]
    omega
  · simp only [List.mem_append, madeStatements_append]
    grind [first.member, second.member]

/-- The order of what is placed does not matter. -/
theorem perm (grows : Grows P own g fresh placed g') (sameOwn : own.Perm own')
    (samePlaced : placed.Perm placed') : Grows P own' g fresh placed' g' where
  made := grows.made
  numbered := grows.numbered
  next := grows.next
  count := by
    intro i
    rw [← Statement.countOf_perm i sameOwn, ← Statement.countOf_perm i samePlaced]
    exact grows.count i
  member := by
    intro s inPlaced
    rw [← sameOwn.mem_iff]
    exact grows.member s (samePlaced.mem_iff.2 inPlaced)
  tree := fun s inPlaced => grows.tree s (samePlaced.mem_iff.2 inPlaced)
  lawful := grows.lawful

/-- Nodes that are not touched stay where they are. -/
theorem keep (placed : List Statement) (tree : ∀ s ∈ placed, isTreeKeyword s.keyword) (g : Growth) :
    Grows P placed g [] placed g where
  made := by simp
  numbered := Statement.numbered_nil _
  next := by simp
  count := by simp
  member := fun s inPlaced => .inl inPlaced
  tree := tree
  lawful := by simp

end Grows

end YangStubs.Schema
