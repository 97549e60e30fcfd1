import YangStubs.Proofs.Schema.DataPath

/-! # Other numbers

The numbers of statements say in which order they were read and made, and nothing else.  `renumber` gives
them other numbers, in their links as well.
-/

namespace YangStubs.Schema

open Statement (within withinAll sizeOfAll)

mutual
/-- The statement with other numbers. -/
def Statement.renumber (ρ : Nat → Nat) : Statement → Statement
  | ⟨id, keyword, arg, home, origin, grouping, typedef, subs⟩ =>
    ⟨ρ id, keyword, arg, home, origin.map ρ, grouping.map ρ, typedef.map ρ, Statement.renumberAll ρ subs⟩

/-- The statements with other numbers. -/
def Statement.renumberAll (ρ : Nat → Nat) : List Statement → List Statement
  | [] => []
  | s :: rest => s.renumber ρ :: renumberAll ρ rest
end

namespace Statement

variable (ρ : Nat → Nat)

theorem renumberAll_eq_map (l : List Statement) : renumberAll ρ l = l.map (renumber ρ) := by
  induction l with
  | nil => rfl
  | cons s rest ih => rw [renumberAll, List.map_cons, ih]

@[simp] theorem renumber_id (s : Statement) : (s.renumber ρ).id = ρ s.id := by
  cases s; rfl

@[simp] theorem renumber_keyword (s : Statement) : (s.renumber ρ).keyword = s.keyword := by
  cases s; rfl

@[simp] theorem renumber_arg (s : Statement) : (s.renumber ρ).arg = s.arg := by
  cases s; rfl

@[simp] theorem renumber_home (s : Statement) : (s.renumber ρ).home = s.home := by
  cases s; rfl

@[simp] theorem renumber_origin (s : Statement) : (s.renumber ρ).origin = s.origin.map ρ := by
  cases s; rfl

@[simp] theorem renumber_grouping (s : Statement) : (s.renumber ρ).grouping = s.grouping.map ρ := by
  cases s; rfl

@[simp] theorem renumber_typedef (s : Statement) : (s.renumber ρ).typedef = s.typedef.map ρ := by
  cases s; rfl

@[simp] theorem renumber_subs (s : Statement) : (s.renumber ρ).subs = s.subs.map (renumber ρ) := by
  cases s with
  | mk id keyword arg home origin grouping typedef subs => exact renumberAll_eq_map ρ subs

@[simp] theorem renumber_name (s : Statement) : (s.renumber ρ).name = s.name := by
  rw [name, renumber_arg, renumber_keyword, name]

mutual
theorem renumber_self : ∀ s : Statement, s.renumber (fun i => i) = s
  | ⟨_, _, _, _, _, _, _, subs⟩ => by
    simp only [renumber, Option.map_id', renumberAll_self subs]

theorem renumberAll_self : ∀ l : List Statement, renumberAll (fun i => i) l = l
  | [] => rfl
  | s :: rest => by rw [renumberAll, renumber_self s, renumberAll_self rest]
end

mutual
theorem renumber_within : ∀ s : Statement, (s.renumber ρ).within = s.within.map (renumber ρ)
  | ⟨_, _, _, _, _, _, _, subs⟩ => by
    simp only [renumber, within, List.map_cons, renumberAll_within subs]

theorem renumberAll_within : ∀ l : List Statement,
    withinAll (renumberAll ρ l) = (withinAll l).map (renumber ρ)
  | [] => rfl
  | s :: rest => by
    simp only [renumberAll, withinAll, List.map_append, renumber_within s, renumberAll_within rest]
end

theorem withinAll_map_renumber (l : List Statement) :
    withinAll (l.map (renumber ρ)) = (withinAll l).map (renumber ρ) := by
  rw [← renumberAll_eq_map, renumberAll_within]

@[simp] theorem renumber_size (s : Statement) : (s.renumber ρ).size = s.size := by
  rw [← length_within, renumber_within, List.length_map, length_within]

@[simp] theorem sizeOfAll_map_renumber (l : List Statement) : sizeOfAll (l.map (renumber ρ)) = sizeOfAll l := by
  rw [← length_withinAll, withinAll_map_renumber, List.length_map, length_withinAll]

variable {ρ}

mutual
/-- Copies that take the numbers from `next` on, when these are renumbered to those from `next'` on. -/
theorem copyFrom_renumber : ∀ (s : Statement) {next next' : Nat},
    (∀ k < s.size, ρ (next + k) = next' + k) →
    ((s.renumber ρ).copyFrom next').1 = (s.copyFrom next).1.renumber ρ
  | ⟨id, keyword, arg, home, origin, grouping, typedef, subs⟩, next, next', block => by
    have first : ρ next = next' := block 0 (by rw [size]; omega)
    have inside := copyAllFrom_renumber subs fun k before => by
      have shifted := block (k + 1) (by rw [size]; omega)
      rwa [Nat.add_comm k 1, ← Nat.add_assoc, ← Nat.add_assoc] at shifted
    have sameOrigin : (origin.map ρ).getD (ρ id) = ρ (origin.getD id) := by
      cases origin <;> rfl
    simp only [renumber, copyFrom, inside, sameOrigin, Option.map_some, first]

theorem copyAllFrom_renumber : ∀ (l : List Statement) {next next' : Nat},
    (∀ k < sizeOfAll l, ρ (next + k) = next' + k) →
    (copyAllFrom next' (renumberAll ρ l)).1 = renumberAll ρ (copyAllFrom next l).1
  | [], _, _, _ => rfl
  | s :: rest, next, next', block => by
    have here := copyFrom_renumber s fun k before => block k (by rw [sizeOfAll]; omega)
    have others := copyAllFrom_renumber rest fun k before => by
      have shifted := block (s.size + k) (by rw [sizeOfAll]; omega)
      rwa [← Nat.add_assoc, ← Nat.add_assoc] at shifted
    simp only [renumberAll, copyAllFrom, here, copyFrom_next, renumber_size, others]
end

end Statement

/-- The numbers that the statement itself has are smaller than the bound. -/
structure Statement.Below (bound : Nat) (s : Statement) : Prop where
  id : s.id < bound
  origin : ∀ i, s.origin = some i → i < bound
  grouping : ∀ i, s.grouping = some i → i < bound
  typedef : ∀ i, s.typedef = some i → i < bound

section Agree

variable {ρ τ : Nat → Nat} {bound : Nat}

theorem map_eq_of_below (agree : ∀ i < bound, ρ i = τ i) {link : Option Nat}
    (below : ∀ i, link = some i → i < bound) : link.map ρ = link.map τ := by
  cases link with
  | none => rfl
  | some i => rw [Option.map_some, Option.map_some, agree i (below i rfl)]

mutual
theorem Statement.renumber_congr (agree : ∀ i < bound, ρ i = τ i) :
    ∀ s : Statement, (∀ t ∈ s.within, t.Below bound) → s.renumber ρ = s.renumber τ
  | ⟨id, keyword, arg, home, origin, grouping, typedef, subs⟩, below => by
    have here := below _ (Statement.mem_within_self _)
    have inside := Statement.renumberAll_congr agree subs fun t member =>
      below t (List.mem_cons_of_mem _ member)
    simp only [Statement.renumber, agree id here.id, map_eq_of_below agree here.origin,
      map_eq_of_below agree here.grouping, map_eq_of_below agree here.typedef, inside]

theorem Statement.renumberAll_congr (agree : ∀ i < bound, ρ i = τ i) :
    ∀ l : List Statement, (∀ t ∈ withinAll l, t.Below bound) → Statement.renumberAll ρ l = Statement.renumberAll τ l
  | [], _ => rfl
  | s :: rest, below => by
    rw [Statement.renumberAll, Statement.renumberAll,
      Statement.renumber_congr agree s fun t member => below t (List.mem_append_left _ member),
      Statement.renumberAll_congr agree rest fun t member => below t (List.mem_append_right _ member)]
end

end Agree

/-- The statement in its place, with other numbers. -/
def Statement.Placed.renumber (ρ : Nat → Nat) (p : Statement.Placed) : Statement.Placed :=
  ⟨p.parent.map ρ, p.around.map (Statement.renumber ρ), p.statement.renumber ρ⟩

/-- The new statement with other numbers. -/
def Made.renumber (ρ : Nat → Nat) (m : Made) : Made :=
  ⟨ρ m.parent, m.statement.renumber ρ⟩

/-- The site with another number. -/
def Site.renumber (ρ : Nat → Nat) (site : Site) : Site :=
  ⟨ρ site.id, site.keyword⟩

namespace Statement

variable (ρ : Nat → Nat)

@[simp] theorem renumber_site (s : Statement) : (s.renumber ρ).site = s.site.renumber ρ := by
  cases s; rfl

mutual
theorem listingBelow_renumber : ∀ s : Statement,
    (s.renumber ρ).listingBelow = s.listingBelow.map (Placed.renumber ρ)
  | ⟨id, keyword, arg, home, origin, grouping, typedef, subs⟩ => by
    simp only [renumber, listingBelow]
    exact listingOfAll_renumber (some id) (some ⟨id, keyword, arg, home, origin, grouping, typedef, subs⟩) subs

theorem listingOfAll_renumber (parent : Option Nat) (around : Option Statement) :
    ∀ l : List Statement, listingOfAll (parent.map ρ) (around.map (renumber ρ)) (renumberAll ρ l) =
      (listingOfAll parent around l).map (Placed.renumber ρ)
  | [] => rfl
  | s :: rest => by
    simp only [renumberAll, listingOfAll, List.map_append, List.map_cons, listingBelow_renumber s,
      listingOfAll_renumber parent around rest, Placed.renumber]
end

theorem listingOfAll_map_renumber (l : List Statement) :
    listingOfAll none none (l.map (renumber ρ)) = (listingOfAll none none l).map (Placed.renumber ρ) := by
  have listed := listingOfAll_renumber ρ none none l
  rwa [renumberAll_eq_map] at listed

theorem listing_renumber (parent : Option Nat) (s : Statement) :
    (s.renumber ρ).listing (parent.map ρ) = (s.listing parent).map (Placed.renumber ρ) := by
  simp only [listing, List.map_cons, listingBelow_renumber, Placed.renumber, Option.map_none]

@[simp] theorem sub?_renumber (s : Statement) (keyword : String) :
    (s.renumber ρ).sub? keyword = (s.sub? keyword).map (renumber ρ) := by
  simp only [sub?, renumber_subs, List.find?_map, Function.comp_def, renumber_keyword]

@[simp] theorem argOf?_renumber (s : Statement) (keyword : String) :
    (s.renumber ρ).argOf? keyword = s.argOf? keyword := by
  rw [argOf?, argOf?, sub?_renumber]
  cases s.sub? keyword with
  | none => rfl
  | some t => exact renumber_arg ρ t

@[simp] theorem imports_renumber (s : Statement) : (s.renumber ρ).imports = s.imports := by
  simp only [imports, subsWith, renumber_subs, List.filter_map, List.map_map, Function.comp_def,
    renumber_keyword, renumber_name, argOf?_renumber]

end Statement

@[simp] theorem declaredQualifiers_renumber (ρ : Nat → Nat) (name : String) (top : Statement) :
    declaredQualifiers name (top.renumber ρ) = declaredQualifiers name top := by
  simp only [declaredQualifiers, Statement.argOf?_renumber, Statement.imports_renumber]

/-! ## Trees -/

mutual
/-- The tree with other numbers. -/
def SchemaNode.renumber (ρ : Nat → Nat) : SchemaNode → SchemaNode
  | ⟨statement, children, augment⟩ =>
    ⟨statement.renumber ρ, SchemaNode.renumberAll ρ children, augment.map ρ⟩

/-- The trees with other numbers. -/
def SchemaNode.renumberAll (ρ : Nat → Nat) : List SchemaNode → List SchemaNode
  | [] => []
  | node :: rest => node.renumber ρ :: renumberAll ρ rest
end

namespace SchemaNode

variable (ρ : Nat → Nat)

theorem renumberAll_eq_map (l : List SchemaNode) : renumberAll ρ l = l.map (renumber ρ) := by
  induction l with
  | nil => rfl
  | cons node rest ih => rw [renumberAll, List.map_cons, ih]

@[simp] theorem renumber_statement (node : SchemaNode) : (node.renumber ρ).statement = node.statement.renumber ρ := by
  cases node; rfl

@[simp] theorem renumber_children (node : SchemaNode) :
    (node.renumber ρ).children = node.children.map (renumber ρ) := by
  cases node with
  | mk statement children augment => exact renumberAll_eq_map ρ children

@[simp] theorem renumber_augment (node : SchemaNode) : (node.renumber ρ).augment = node.augment.map ρ := by
  cases node; rfl

@[simp] theorem renumber_id (node : SchemaNode) : (node.renumber ρ).id = ρ node.id := by
  rw [id, renumber_statement, Statement.renumber_id]
  rfl

@[simp] theorem renumber_keyword (node : SchemaNode) : (node.renumber ρ).keyword = node.keyword := by
  rw [keyword, renumber_statement, Statement.renumber_keyword]
  rfl

@[simp] theorem renumber_name (node : SchemaNode) : (node.renumber ρ).name = node.name := by
  rw [name, renumber_statement, Statement.renumber_name]
  rfl

theorem renumber_mk (statement : Statement) (children : List SchemaNode) (augment : Option Nat) :
    renumber ρ ⟨statement, children, augment⟩ = ⟨statement.renumber ρ, children.map (renumber ρ), augment.map ρ⟩ := by
  rw [renumber, renumberAll_eq_map]

theorem renumber_marked (node : SchemaNode) (augment : Nat) :
    renumber ρ { node with augment := some augment } = { node.renumber ρ with augment := some (ρ augment) } := by
  cases node; rfl

mutual
theorem renumber_self : ∀ node : SchemaNode, node.renumber (fun i => i) = node
  | ⟨statement, children, augment⟩ => by
    simp only [renumber, Statement.renumber_self, renumberAll_self children, Option.map_id']

theorem renumberAll_self : ∀ l : List SchemaNode, renumberAll (fun i => i) l = l
  | [] => rfl
  | node :: rest => by rw [renumberAll, renumber_self node, renumberAll_self rest]
end

/-- The numbers in the node itself are smaller than the bound. -/
structure Below (bound : Nat) (node : SchemaNode) : Prop where
  statement : ∀ t ∈ node.statement.within, t.Below bound
  augment : ∀ i, node.augment = some i → i < bound

variable {ρ}

mutual
theorem renumber_congr {τ : Nat → Nat} {bound : Nat} (agree : ∀ i < bound, ρ i = τ i) :
    ∀ node : SchemaNode, (∀ n ∈ node.nodes, n.Below bound) → node.renumber ρ = node.renumber τ
  | ⟨statement, children, augment⟩, below => by
    have here := below _ List.mem_cons_self
    have inside := renumberAll_congr agree children fun n member => below n (List.mem_cons_of_mem _ member)
    rw [renumber, renumber, statement.renumber_congr agree here.statement, inside, map_eq_of_below agree here.augment]

theorem renumberAll_congr {τ : Nat → Nat} {bound : Nat} (agree : ∀ i < bound, ρ i = τ i) :
    ∀ l : List SchemaNode, (∀ n ∈ nodesOfAll l, n.Below bound) → renumberAll ρ l = renumberAll τ l
  | [], _ => rfl
  | node :: rest, below => by
    rw [renumberAll, renumberAll, renumber_congr agree node fun n member => below n (List.mem_append_left _ member),
      renumberAll_congr agree rest fun n member => below n (List.mem_append_right _ member)]
end

end SchemaNode

end YangStubs.Schema
