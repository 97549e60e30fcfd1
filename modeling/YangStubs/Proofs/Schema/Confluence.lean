import YangStubs.Proofs.Schema.Renumbering
import YangStubs.Proofs.Schema.Reordering

/-! # Augments in any order

Two augments that both have a target can be applied in either order, and an augment that has a target keeps
it.  So an augment that is applied late in one run can be moved to the front, and whichever augments another
run has applied so far, those that are left can still be applied as in the first run.  A run is therefore
never stuck if another one is not, and both end with the same nodes.
-/

namespace YangStubs.Schema

open SchemaNode (nodesOfAll stampedAll placedAll Reordered ReorderedAll)
open Statement (countOf)

variable {target : SchemaNode}

/-! ## The trees of all modules -/

namespace SchemaTrees

variable {R S T : Statement × Option Nat → Statement × Option Nat → Prop} {trees trees' : SchemaTrees}

/-- The trees of the same modules, with matching statements. -/
def Reordered (R : Statement × Option Nat → Statement × Option Nat → Prop) (trees trees' : SchemaTrees) :
    Prop :=
  ∀ name, Option.Rel (SchemaNode.Reordered R) (trees.lookup name) (trees'.lookup name)

/-- No node has two children of one name. -/
def NamesDistinct (trees : SchemaTrees) : Prop :=
  ∀ name tree, trees.lookup name = some tree → tree.NamesDistinct

theorem Reordered.lookup (alike : trees.Reordered R trees') {name : String} {tree : SchemaNode}
    (found : trees.lookup name = some tree) :
    ∃ tree', trees'.lookup name = some tree' ∧ tree.Reordered R tree' := by
  have here := alike name
  rw [found] at here
  cases found' : trees'.lookup name with
  | none =>
    rw [found'] at here
    cases here
  | some tree' =>
    rw [found'] at here
    cases here with
    | some here => exact ⟨tree', rfl, here⟩

theorem Reordered.refl (same : ∀ p, R p p) (trees : SchemaTrees) : trees.Reordered R trees := by
  intro name
  cases trees.lookup name with
  | none => exact .none
  | some tree => exact .some (SchemaNode.Reordered.refl same tree)

theorem Reordered.trans {trees₁ trees₂ trees₃ : SchemaTrees} (faithful : Faithful S)
    (compose : ∀ p q r, R p q → S q r → T p r) (first : trees₁.Reordered R trees₂)
    (second : trees₂.Reordered S trees₃) : trees₁.Reordered T trees₃ := by
  intro name
  have here := first name
  have there := second name
  cases found : trees₂.lookup name with
  | none =>
    rw [found] at here there
    generalize trees₁.lookup name = left at here ⊢
    generalize trees₃.lookup name = right at there ⊢
    cases here
    cases there
    exact .none
  | some tree =>
    rw [found] at here there
    generalize trees₁.lookup name = left at here ⊢
    generalize trees₃.lookup name = right at there ⊢
    cases here with
    | some here =>
      cases there with
      | some there => exact .some (here.trans faithful compose there)

theorem lookup_attachAt_eq (trees : SchemaTrees) (path : String × List String) (new : List SchemaNode)
    (name : String) :
    (trees.attachAt path new).lookup name =
      if name = path.1 then (trees.lookup name).map (·.attachAt path.2 new) else trees.lookup name := by
  induction trees with
  | nil => simp [SchemaTrees.attachAt]
  | cons first rest ih =>
    obtain ⟨key, tree⟩ := first
    simp only [SchemaTrees.attachAt, List.map_cons] at ih ⊢
    by_cases here : key = path.1
    · by_cases same : name = key
      · simp [here, same]
      · have elsewhere : (name == key) = false := by simpa using same
        simp only [here, beq_self_eq_true, if_true, List.lookup_cons] at elsewhere ih ⊢
        simp only [elsewhere, ih]
    · have untouched : (key == path.1) = false := by simpa using here
      by_cases same : name = key
      · simp [here, same]
      · have elsewhere : (name == key) = false := by simpa using same
        simp only [untouched, Bool.false_eq_true, if_false, List.lookup_cons, elsewhere]
        exact ih

theorem Reordered.at? (faithful : Faithful R) (alike : trees.Reordered R trees') (distinct : trees.NamesDistinct)
    {path : String × List String} (leads : trees.at? path = some target) :
    ∃ target', trees'.at? path = some target' ∧ target.Reordered R target' := by
  obtain ⟨tree, found, inTree⟩ := Option.bind_eq_some_iff.1 leads
  obtain ⟨tree', found', alikeTree⟩ := alike.lookup found
  obtain ⟨target', inTree', alikeTarget⟩ := alikeTree.at? faithful (distinct _ _ found) inTree
  exact ⟨target', Option.bind_eq_some_iff.2 ⟨tree', found', inTree'⟩, alikeTarget⟩

theorem Reordered.attachAt (faithful : Faithful R) (alike : trees.Reordered R trees')
    (distinct : trees.NamesDistinct) (path : String × List String) {new new' : List SchemaNode}
    (added : ReorderedAll R new new') :
    (trees.attachAt path new).Reordered R (trees'.attachAt path new') := by
  intro name
  have here := alike name
  rw [lookup_attachAt_eq, lookup_attachAt_eq]
  split
  · cases found : trees.lookup name with
    | none =>
      rw [found] at here
      generalize trees'.lookup name = right at here ⊢
      cases here
      exact .none
    | some tree =>
      rw [found] at here
      generalize trees'.lookup name = right at here ⊢
      cases here with
      | some here => exact .some (here.attachAt faithful added (distinct _ _ found))
  · exact here

theorem reordered_attachAt_attachAt (same : ∀ p, R p p) {new new' : List SchemaNode}
    (marked : ∀ node ∈ new, node.augment.isSome) {path path' : String × List String} {target' : SchemaNode}
    (leads : trees.at? path = some target) (leads' : trees.at? path' = some target') :
    ((trees.attachAt path new).attachAt path' new').Reordered R ((trees.attachAt path' new').attachAt path new) := by
  obtain ⟨tree, found, inTree⟩ := Option.bind_eq_some_iff.1 leads
  obtain ⟨tree', found', inTree'⟩ := Option.bind_eq_some_iff.1 leads'
  have reflexive : ∀ found : Option SchemaNode, Option.Rel (SchemaNode.Reordered R) found found := by
    intro found
    cases found with
    | none => exact .none
    | some tree => exact .some (SchemaNode.Reordered.refl same tree)
  intro name
  simp only [lookup_attachAt_eq]
  by_cases here : name = path.1
  · by_cases here' : name = path'.1
    · simp only [if_pos here, if_pos here']
      rw [← here] at found
      rw [← here', found] at found'
      cases found'
      rw [found]
      exact .some (SchemaNode.reordered_attachAt_attachAt same marked inTree inTree')
    · simp only [if_pos here, if_neg here']
      exact reflexive _
  · simp only [if_neg here]
    exact reflexive _

theorem Extends.namesDistinct (grown : trees.Extends trees') (distinct : trees'.NamesDistinct) :
    trees.NamesDistinct := by
  intro name tree found
  obtain ⟨tree', found', grownTree⟩ := grown.lookup found
  exact grownTree.namesDistinct (distinct _ _ found')

theorem Reordered.namesDistinct (faithful : Faithful R) (alike : trees.Reordered R trees')
    (distinct : trees.NamesDistinct) : trees'.NamesDistinct := by
  intro name tree' found'
  have here := alike name
  rw [found'] at here
  cases found : trees.lookup name with
  | none =>
    rw [found] at here
    cases here
  | some tree =>
    rw [found] at here
    cases here with
    | some here => exact here.namesDistinct faithful (distinct _ _ found)

end SchemaTrees

/-! ## Matching statements of two runs -/

/-- How the statements of two runs match: those from before are the same up to their numbers, and those made
    since, with numbers from `start` and `start'` on, say the same.  Marks are renumbered. -/
structure Matches (ρ : Nat → Nat) (start start' : Nat) (p p' : Statement × Option Nat) : Prop where
  statement : (p.1.id < start ∧ p'.1.id < start' ∧ p'.1 = p.1.renumber ρ) ∨
    (start ≤ p.1.id ∧ start' ≤ p'.1.id ∧ p'.1 = { p.1 with id := p'.1.id })
  mark : p'.2 = p.2.map ρ

/-- Two runs that start with the same statements. -/
abbrev Alike (start : Nat) : Statement × Option Nat → Statement × Option Nat → Prop :=
  Matches (fun i => i) start start

namespace Matches

variable {ρ : Nat → Nat} {start start' : Nat} {p p' p'' : Statement × Option Nat}

theorem keyword (same : Matches ρ start start' p p') : p'.1.keyword = p.1.keyword := by
  cases same.statement with
  | inl before => rw [before.2.2, Statement.renumber_keyword]
  | inr since => rw [since.2.2]

theorem arg (same : Matches ρ start start' p p') : p'.1.arg = p.1.arg := by
  cases same.statement with
  | inl before => rw [before.2.2, Statement.renumber_arg]
  | inr since => rw [since.2.2]

theorem home (same : Matches ρ start start' p p') : p'.1.home = p.1.home := by
  cases same.statement with
  | inl before => rw [before.2.2, Statement.renumber_home]
  | inr since => rw [since.2.2]

theorem faithful : Faithful (Matches ρ start start') where
  name same := by rw [Statement.name, Statement.name, same.arg, same.keyword]
  keyword same := same.keyword
  marked same := by rw [same.mark, Option.isSome_map]

theorem refl (p : Statement × Option Nat) : Alike start p p := by
  refine ⟨?_, by simp⟩
  by_cases before : p.1.id < start
  · exact .inl ⟨before, before, (Statement.renumber_self _).symm⟩
  · refine .inr ⟨by omega, by omega, ?_⟩
    cases p.1
    rfl

theorem trans (first : Matches ρ start start' p p') (second : Alike start' p' p'') : Matches ρ start start' p p'' := by
  refine ⟨?_, by rw [second.mark, first.mark, Option.map_id']⟩
  cases first.statement with
  | inl before =>
    cases second.statement with
    | inl before' => exact .inl ⟨before.1, before'.2.1, by rw [before'.2.2, Statement.renumber_self, before.2.2]⟩
    | inr since => omega
  | inr since =>
    cases second.statement with
    | inl before => omega
    | inr since' => exact .inr ⟨since.1, since'.2.1, by rw [since'.2.2, since.2.2]⟩

end Matches

/-- An augment in two runs: the numbers differ, and the path is the same. -/
structure SameAugment (directory directory' : Directory) (ρ : Nat → Nat) (start start' : Nat)
    (a a' : SchemaNode) : Prop where
  path : augmentPath? directory' a'.statement = augmentPath? directory a.statement
  number : a'.id = ρ a.id
  children : List.Forall₂ (Reordered (Matches ρ start start')) a.children a'.children

theorem SameAugment.refl (directory : Directory) (start : Nat) (a : SchemaNode) :
    SameAugment directory directory (fun i => i) start start a a :=
  ⟨rfl, rfl, List.forall₂_same.2 fun child _ => Reordered.refl Matches.refl child⟩

/-! ## Grafting -/

theorem graft_alike {ρ : Nat → Nat} {start start' : Nat} (augment : Nat) {site site' : Site}
    (sameKeyword : site'.keyword = site.keyword) {children children' : List SchemaNode}
    (each : List.Forall₂ (Reordered (Matches ρ start start')) children children') :
    ∀ g g' : Growth, start ≤ g.next → start' ≤ g'.next →
      List.Forall₂ (Reordered (Matches ρ start start')) ((graft augment site children).run g).1
        ((graft (ρ augment) site' children').run g').1 := by
  induction each with
  | nil => exact fun _ _ _ _ => .nil
  | @cons child child' rest rest' first _ ih =>
    intro g g' later later'
    have marked : Reordered (Matches ρ start start') { child with augment := some augment }
        { child' with augment := some (ρ augment) } :=
      .of_children ⟨first.here.statement, rfl⟩ first.children
    have sameArg : child'.statement.arg = child.statement.arg := first.here.arg
    have sameHome : child'.statement.home = child.statement.home := first.here.home
    have sameNeed : needsCase site' child'.keyword = needsCase site child.keyword := by
      rw [needsCase, needsCase, sameKeyword, SchemaNode.keyword, SchemaNode.keyword, first.here.keyword]
    have need : needsCase site' (SchemaNode.keyword { child' with augment := some (ρ augment) }) =
        needsCase site (SchemaNode.keyword { child with augment := some augment }) := sameNeed
    rw [graft_cons_run, graft_cons_run, placeAt_run, placeAt_run, need]
    split
    · -- Both nodes get a case, and the two cases differ in their numbers.
      refine .cons (.intro ⟨.inr ⟨later, later', ?_⟩, rfl⟩ (Reordered.all_of_forall₂ (.cons marked .nil)))
        (ih _ _ (Nat.le_succ_of_le later) (Nat.le_succ_of_le later'))
      simp only [caseFor, sameArg, sameHome]
    · exact .cons marked (ih _ _ later later')

theorem graftAt_alike {directory directory' : Directory} {ρ : Nat → Nat} {start start' : Nat}
    {a a' target' : SchemaNode} (same : SameAugment directory directory' ρ start start' a a')
    (alike : Reordered (Matches ρ start start') target target') {g g' : Growth} (later : start ≤ g.next)
    (later' : start' ≤ g'.next) :
    ReorderedAll (Matches ρ start start') (graftAt a target g).1 (graftAt a' target' g').1 := by
  obtain ⟨h, sameNext, isGraft⟩ := graftAt_eq_graft a target g
  obtain ⟨h', sameNext', isGraft'⟩ := graftAt_eq_graft a' target' g'
  rw [isGraft, isGraft', same.number]
  exact Reordered.all_of_forall₂ (graft_alike a.id alike.here.keyword same.children h h'
    (sameNext ▸ later) (sameNext' ▸ later'))

theorem graftAt_marked (a target : SchemaNode) (g : Growth) :
    ∀ node ∈ (graftAt a target g).1, node.augment.isSome := by
  obtain ⟨g', -, isGraft⟩ := graftAt_eq_graft a target g
  rw [isGraft]
  intro node member
  rw [(StandsAs.exists_marked (graft_stands _ _ _ g' (Nat.zero_le _))).2 node member]
  rfl

theorem graftAt_congr (a : SchemaNode) {target' : SchemaNode} (same : target'.statement = target.statement)
    (g : Growth) : graftAt a target' g = graftAt a target g := by
  rw [graftAt, graftAt, same]

theorem graftAt_next (a target : SchemaNode) (g : Growth) : g.next ≤ (graftAt a target g).2.next := by
  obtain ⟨g', sameNext, isGraft⟩ := graftAt_eq_graft a target g
  rw [isGraft, ← sameNext]
  exact graft_next _ _ _ g'

/-! ## One augment after the other -/

/-- The trees after an augment has been applied to them, with some numbers from `start` on. -/
inductive Applies (directory : Directory) (start : Nat) (trees : SchemaTrees) (a : SchemaNode) :
    SchemaTrees → Prop
  | intro {path : String × List String} {target : SchemaNode} (g : Growth) (later : start ≤ g.next)
      (found : augmentTarget? directory trees a = some (path, target)) :
      Applies directory start trees a (trees.attachAt path (graftAt a target g).1)

/-- The trees after several augments have been applied to them in order. -/
inductive AppliesAll (directory : Directory) (start : Nat) :
    SchemaTrees → List SchemaNode → SchemaTrees → Prop
  | nil (trees : SchemaTrees) : AppliesAll directory start trees [] trees
  | cons {trees trees₁ trees₂ : SchemaTrees} {a : SchemaNode} {rest : List SchemaNode}
      (first : Applies directory start trees a trees₁) (others : AppliesAll directory start trees₁ rest trees₂) :
      AppliesAll directory start trees (a :: rest) trees₂

section Steps

variable {directory directory' : Directory} {ρ : Nat → Nat} {start start' : Nat}
  {trees trees₁ trees₂ : SchemaTrees} {a b : SchemaNode}

theorem Applies.extends (applied : Applies directory start trees a trees₁) : trees.Extends trees₁ := by
  cases applied with
  | intro g later found => exact SchemaTrees.extends_attachAt _ _ _

theorem Applies.isSome (applied : Applies directory start trees a trees₁) :
    (augmentTarget? directory trees a).isSome := by
  cases applied with
  | intro g later found => rw [found]; rfl

theorem exists_applies (start : Nat) (found : (augmentTarget? directory trees a).isSome) :
    ∃ trees₁, Applies directory start trees a trees₁ := by
  obtain ⟨⟨path, target⟩, found⟩ := Option.isSome_iff_exists.1 found
  exact ⟨_, .intro ⟨start, [], []⟩ (Nat.le_refl _) found⟩

theorem augmentTarget?_later (grown : trees.Extends trees₁) {path : String × List String}
    (found : augmentTarget? directory trees a = some (path, target)) :
    ∃ target', augmentTarget? directory trees₁ a = some (path, target') ∧ target.Extends target' := by
  obtain ⟨isPath, leads⟩ := augmentTarget?_eq_some.1 found
  obtain ⟨target', leads', grownTarget⟩ := grown.at? leads
  exact ⟨target', augmentTarget?_eq_some.2 ⟨isPath, leads'⟩, grownTarget⟩

theorem AppliesAll.namesDistinct {order : List SchemaNode}
    (applied : AppliesAll directory start trees order trees₁) (distinct : trees₁.NamesDistinct) :
    trees.NamesDistinct := by
  induction applied with
  | nil => exact distinct
  | cons first _ ih => exact first.extends.namesDistinct (ih distinct)

theorem AppliesAll.append {first second : List SchemaNode}
    (applied : AppliesAll directory start trees first trees₁)
    (applied' : AppliesAll directory start trees₁ second trees₂) :
    AppliesAll directory start trees (first ++ second) trees₂ := by
  induction applied with
  | nil => exact applied'
  | cons head _ ih => exact .cons head (ih applied')

section Alike

variable {other other₁ : SchemaTrees} {a' : SchemaNode}

theorem augmentTarget?_alike (alike : trees.Reordered (Matches ρ start start') other) (distinct : trees.NamesDistinct)
    (sameAugment : SameAugment directory directory' ρ start start' a a') {path : String × List String}
    (found : augmentTarget? directory trees a = some (path, target)) :
    ∃ target', augmentTarget? directory' other a' = some (path, target') ∧
      target.Reordered (Matches ρ start start') target' := by
  obtain ⟨isPath, leads⟩ := augmentTarget?_eq_some.1 found
  obtain ⟨target', leads', alikeTarget⟩ := alike.at? Matches.faithful distinct leads
  exact ⟨target', augmentTarget?_eq_some.2 ⟨sameAugment.path.trans isPath, leads'⟩, alikeTarget⟩

/-- Applying the same augment to matching trees gives matching trees. -/
theorem Applies.alike (alike : trees.Reordered (Matches ρ start start') other)
    (distinct : trees.NamesDistinct) (sameAugment : SameAugment directory directory' ρ start start' a a')
    (applied : Applies directory start trees a trees₁) (applied' : Applies directory' start' other a' other₁) :
    trees₁.Reordered (Matches ρ start start') other₁ := by
  cases applied with
  | intro g later found =>
    obtain ⟨target', found', alikeTarget⟩ := augmentTarget?_alike alike distinct sameAugment found
    cases applied' with
    | intro g' later' found'' =>
      rw [found'] at found''
      cases found''
      exact alike.attachAt Matches.faithful distinct _ (graftAt_alike sameAugment alikeTarget later later')

theorem AppliesAll.alike {order order' : List SchemaNode} (alike : trees.Reordered (Matches ρ start start') other)
    (sameAugments : List.Forall₂ (SameAugment directory directory' ρ start start') order order')
    (applied : AppliesAll directory start trees order trees₁) (distinct : trees₁.NamesDistinct) :
    ∃ other₁, AppliesAll directory' start' other order' other₁ ∧ trees₁.Reordered (Matches ρ start start') other₁ := by
  induction applied generalizing other order' with
  | nil =>
    cases sameAugments
    exact ⟨other, .nil other, alike⟩
  | cons first others ih =>
    cases sameAugments with
    | cons sameFirst sameOthers =>
      have before := first.extends.namesDistinct (others.namesDistinct distinct)
      obtain ⟨⟨path, target⟩, found⟩ := Option.isSome_iff_exists.1 first.isSome
      obtain ⟨target', found', -⟩ := augmentTarget?_alike alike before sameFirst found
      obtain ⟨other₁, first'⟩ := exists_applies start' (Option.isSome_iff_exists.2 ⟨_, found'⟩)
      obtain ⟨other₂, others', alike'⟩ := ih (first.alike alike before sameFirst first') sameOthers distinct
      exact ⟨other₂, .cons first' others', alike'⟩

end Alike

theorem AppliesAll.alike_self {other : SchemaTrees} {order : List SchemaNode}
    (alike : trees.Reordered (Alike start) other) (applied : AppliesAll directory start trees order trees₁)
    (distinct : trees₁.NamesDistinct) :
    ∃ other₁, AppliesAll directory start other order other₁ ∧ trees₁.Reordered (Alike start) other₁ :=
  applied.alike alike (List.forall₂_same.2 fun a _ => SameAugment.refl directory start a) distinct

theorem reordered_trans {trees₁ trees₂ trees₃ : SchemaTrees}
    (first : trees₁.Reordered (Matches ρ start start') trees₂) (second : trees₂.Reordered (Alike start') trees₃) :
    trees₁.Reordered (Matches ρ start start') trees₃ :=
  first.trans Matches.faithful (fun _ _ _ => Matches.trans) second

/-- Two augments that have a target can be applied in either order. -/
theorem Applies.comm (first : Applies directory start trees a trees₁)
    (second : Applies directory start trees₁ b trees₂) (early : (augmentTarget? directory trees b).isSome) :
    ∃ other other₁, Applies directory start trees b other ∧ Applies directory start other a other₁ ∧
      trees₂.Reordered (Alike start) other₁ := by
  obtain ⟨⟨pathB, targetB⟩, foundB⟩ := Option.isSome_iff_exists.1 early
  cases first with
  | @intro pathA targetA g later foundA =>
    cases second with
    | intro g' later' foundB' =>
      obtain ⟨targetB', foundB'', grownB⟩ :=
        augmentTarget?_later (SchemaTrees.extends_attachAt trees pathA (graftAt a targetA g).1) foundB
      rw [foundB''] at foundB'
      cases foundB'
      obtain ⟨targetA', foundA', grownA⟩ :=
        augmentTarget?_later (SchemaTrees.extends_attachAt trees pathB (graftAt b targetB g').1) foundA
      refine ⟨_, _, .intro g' later' foundB, .intro g later foundA', ?_⟩
      rw [graftAt_congr b grownB.statement, graftAt_congr a grownA.statement]
      exact SchemaTrees.reordered_attachAt_attachAt Matches.refl (graftAt_marked a targetA g)
        (augmentTarget?_eq_some.1 foundA).2 (augmentTarget?_eq_some.1 foundB).2

/-- An augment that has a target from the beginning can be applied first. -/
theorem AppliesAll.move {before after : List SchemaNode}
    (applied : AppliesAll directory start trees (before ++ b :: after) trees₁)
    (early : (augmentTarget? directory trees b).isSome) (distinct : trees₁.NamesDistinct) :
    ∃ other, AppliesAll directory start trees (b :: (before ++ after)) other ∧
      trees₁.Reordered (Alike start) other := by
  induction before generalizing trees with
  | nil => exact ⟨trees₁, applied, SchemaTrees.Reordered.refl Matches.refl trees₁⟩
  | cons a rest ih =>
    cases applied with
    | cons first others =>
      obtain ⟨⟨path, target⟩, found⟩ := Option.isSome_iff_exists.1 early
      obtain ⟨target', found', -⟩ := augmentTarget?_later first.extends found
      obtain ⟨other, moved, alike⟩ := ih others (Option.isSome_iff_exists.2 ⟨_, found'⟩)
      cases moved with
      | cons second others' =>
        obtain ⟨other₁, other₂, first', second', alike'⟩ := first.comm second early
        have distinct' := alike.namesDistinct Matches.faithful distinct
        obtain ⟨other₃, others'', alike''⟩ := others'.alike_self alike' distinct'
        exact ⟨other₃, .cons first' (.cons second' others''), reordered_trans alike alike''⟩

end Steps

/-! ## Runs that cannot get stuck -/

/-- The augments that are left can be applied in some order, with the same trees in the end as in another
    run. -/
def Completable (directory : Directory) (ρ : Nat → Nat) (start start' : Nat) (final trees : SchemaTrees)
    (pending : List SchemaNode) : Prop :=
  ∃ order trees', order.Perm pending ∧ AppliesAll directory start' trees order trees' ∧
    final.Reordered (Matches ρ start start') trees'

section Runs

variable {directory : Directory} {ρ : Nat → Nat} {start start' : Nat} {final trees : SchemaTrees}

theorem Completable.perm {pending pending' : List SchemaNode}
    (completable : Completable directory ρ start start' final trees pending)
    (order : pending.Perm pending') : Completable directory ρ start start' final trees pending' := by
  obtain ⟨sequence, trees', sameAugments, applied, alike⟩ := completable
  exact ⟨sequence, trees', sameAugments.trans order, applied, alike⟩

/-- Whichever augment is applied next, the others can be applied after it. -/
theorem Completable.step (distinct : final.NamesDistinct) {trees₁ : SchemaTrees} {a : SchemaNode}
    {pending : List SchemaNode}
    (completable : Completable directory ρ start start' final trees (a :: pending))
    (applied : Applies directory start' trees a trees₁) :
    Completable directory ρ start start' final trees₁ pending := by
  obtain ⟨order, trees', sameAugments, others, alike⟩ := completable
  obtain ⟨before, after, rfl⟩ := List.append_of_mem (sameAugments.mem_iff.2 List.mem_cons_self)
  have rest : (before ++ after).Perm pending :=
    (List.perm_cons a).1 (List.perm_middle.symm.trans sameAugments)
  have distinct' := alike.namesDistinct Matches.faithful distinct
  obtain ⟨other, moved, alike'⟩ := others.move applied.isSome distinct'
  cases moved with
  | cons first others' =>
    have here := first.alike (SchemaTrees.Reordered.refl Matches.refl trees) (others.namesDistinct distinct')
      (SameAugment.refl directory start' a) applied
    obtain ⟨other', others'', alike''⟩ :=
      others'.alike_self here (alike'.namesDistinct Matches.faithful distinct')
    exact ⟨before ++ after, other', rest, others'', reordered_trans (reordered_trans alike alike') alike''⟩

theorem Completable.exists_target {pending : List SchemaNode}
    (completable : Completable directory ρ start start' final trees pending) (notDone : pending ≠ []) :
    ∃ a ∈ pending, (augmentTarget? directory trees a).isSome := by
  obtain ⟨order, trees', sameAugments, applied, -⟩ := completable
  cases applied with
  | nil => exact absurd sameAugments.nil_eq.symm notDone
  | @cons _ _ _ a rest first _ => exact ⟨a, sameAugments.subset List.mem_cons_self, first.isSome⟩

theorem augmentRound_next (directory : Directory) (pending : List SchemaNode) :
    ∀ (trees : SchemaTrees) (g : Growth), g.next ≤ ((augmentRound directory trees pending).run g).2.next := by
  induction pending with
  | nil => exact fun _ _ => Nat.le_refl _
  | cons a rest ih =>
    intro trees g
    rw [augmentRound_cons_run]
    cases augmentTarget? directory trees a with
    | some result => exact Nat.le_trans (graftAt_next a result.2 g) (ih _ _)
    | none => exact ih trees g

/-- A round applies what it does not leave. -/
theorem augmentRound_applies (pending : List SchemaNode) : ∀ (trees : SchemaTrees) (g : Growth),
    start ≤ g.next → let r := (augmentRound directory trees pending).run g
    ∃ order, (order ++ r.1.2).Perm pending ∧ AppliesAll directory start trees order r.1.1 := by
  induction pending with
  | nil => exact fun trees _ _ => ⟨[], List.Perm.refl _, .nil trees⟩
  | cons a rest ih =>
    intro trees g later
    rw [augmentRound_cons_run]
    cases found : augmentTarget? directory trees a with
    | some result =>
      obtain ⟨path, target⟩ := result
      obtain ⟨order, together, applied⟩ := ih (trees.attachAt path (graftAt a target g).1)
        (graftAt a target g).2 (Nat.le_trans later (graftAt_next a target g))
      exact ⟨a :: order, together.cons a, .cons (.intro g later found) applied⟩
    | none =>
      obtain ⟨order, together, applied⟩ := ih trees g later
      exact ⟨order, List.perm_middle.trans (together.cons a), applied⟩

/-- Whatever a round applies, what it leaves can still be applied. -/
theorem augmentRound_completable (distinct : final.NamesDistinct) (pending : List SchemaNode) :
    ∀ (trees : SchemaTrees) (skipped : List SchemaNode) (g : Growth), start' ≤ g.next →
      Completable directory ρ start start' final trees (skipped ++ pending) →
      let r := (augmentRound directory trees pending).run g
      Completable directory ρ start start' final r.1.1 (skipped ++ r.1.2) := by
  induction pending with
  | nil => exact fun trees skipped g _ completable => completable
  | cons a rest ih =>
    intro trees skipped g later completable
    rw [augmentRound_cons_run]
    cases found : augmentTarget? directory trees a with
    | some result =>
      obtain ⟨path, target⟩ := result
      exact ih _ skipped _ (Nat.le_trans later (graftAt_next a target g))
        ((completable.perm List.perm_middle).step distinct (.intro g later found))
    | none =>
      have waiting := ih trees (skipped ++ [a]) g later (by simpa using completable)
      simpa using waiting

theorem augmentRounds_applies (directory : Directory) (start : Nat) :
    ∀ (bound : Nat) (pending : List SchemaNode) (trees : SchemaTrees) (g : Growth), start ≤ g.next →
      let r := (augmentRounds directory bound trees pending).run g
      ∃ order, (order ++ r.1.2).Perm pending ∧ AppliesAll directory start trees order r.1.1
  | 0, [], trees, _, _ => ⟨[], List.Perm.refl _, .nil trees⟩
  | 0, _ :: _, trees, _, _ => ⟨[], List.Perm.refl _, .nil trees⟩
  | _ + 1, [], trees, _, _ => ⟨[], List.Perm.refl _, .nil trees⟩
  | bound + 1, a :: rest, trees, g, later => by
    rw [augmentRounds_succ_run]
    obtain ⟨order, together, applied⟩ := augmentRound_applies (a :: rest) trees g later
    simp only
    split
    · exact ⟨order, together, applied⟩
    · obtain ⟨order', together', applied'⟩ := augmentRounds_applies directory start bound _ _ _
        (Nat.le_trans later (augmentRound_next directory (a :: rest) trees g))
      refine ⟨order ++ order', ?_, applied.append applied'⟩
      rw [List.append_assoc]
      exact (together'.append_left order).trans together

/-- A run whose augments can be completed applies them all. -/
theorem augmentRounds_completes (distinct : final.NamesDistinct) :
    ∀ (bound : Nat) (pending : List SchemaNode) (trees : SchemaTrees) (g : Growth),
      pending.length ≤ bound → start' ≤ g.next →
      Completable directory ρ start start' final trees pending →
      let r := (augmentRounds directory bound trees pending).run g
      r.1.2 = [] ∧ final.Reordered (Matches ρ start start') r.1.1
  | bound, [], trees, g, _, _, completable => by
    have nothing : (augmentRounds directory bound trees []).run g = ((trees, []), g) := by
      cases bound <;> rfl
    rw [nothing]
    obtain ⟨order, trees', sameAugments, applied, alike⟩ := completable
    cases sameAugments.eq_nil
    cases applied
    exact ⟨rfl, alike⟩
  | 0, a :: rest, _, _, bounded, _, _ => absurd bounded (Nat.not_succ_le_zero rest.length)
  | bound + 1, a :: rest, trees, g, bounded, later, completable => by
    rw [augmentRounds_succ_run]
    have fewer := augmentRound_length_le directory (a :: rest) trees g
    by_cases allLeft : ((augmentRound directory trees (a :: rest)).run g).1.2.length = (a :: rest).length
    · -- A round in which nothing is applied contradicts that some augment has a target.
      obtain ⟨b, member, found⟩ := completable.exists_target (by simp)
      obtain ⟨-, stuck⟩ := augmentRound_stuck directory (a :: rest) trees g allLeft
      rw [stuck b member] at found
      cases found
    · simp only [beq_iff_eq, allLeft, if_false]
      exact augmentRounds_completes distinct bound _ _ _ (by omega)
        (Nat.le_trans later (augmentRound_next directory (a :: rest) trees g))
        (augmentRound_completable distinct (a :: rest) trees [] g later completable)

end Runs

theorem augmentAll_eq_ok {directory : Directory} {trees final : SchemaTrees} {augments : List SchemaNode}
    {g h : Growth} :
    (augmentAll directory trees augments).run g = (.ok final, h) ↔
      (augmentRounds directory augments.length trees augments).run g = ((final, []), h) := by
  rw [augmentAll_run]
  generalize (augmentRounds directory augments.length trees augments).run g = outcome
  obtain ⟨⟨trees', left⟩, g'⟩ := outcome
  cases left with
  | nil =>
    constructor
    · intro done
      cases done
      rfl
    · intro done
      cases done
      rfl
  | cons a rest =>
    constructor
    · intro done
      cases done
    · intro done
      cases done

theorem augmentAll_confluent {directory directory' : Directory} {ρ : Nat → Nat} {trees trees' final : SchemaTrees}
    {augments augments' matched : List SchemaNode} {g g' h : Growth}
    (alike : trees.Reordered (Matches ρ g.next g'.next) trees')
    (sameAugments : List.Forall₂ (SameAugment directory directory' ρ g.next g'.next) augments matched)
    (order : matched.Perm augments') (done : (augmentAll directory trees augments).run g = (.ok final, h))
    (distinct : final.NamesDistinct) :
    ∃ final' h', (augmentAll directory' trees' augments').run g' = (.ok final', h') ∧
      final.Reordered (Matches ρ g.next g'.next) final' := by
  obtain ⟨sequence, together, applied⟩ := augmentRounds_applies directory g.next augments.length
    augments trees g (Nat.le_refl _)
  rw [augmentAll_eq_ok.1 done] at together applied
  rw [List.append_nil] at together
  -- The first run, as a sequence of augments, is one on the other trees as well.
  obtain ⟨sequence', each, together'⟩ := List.perm_comp_forall₂ together sameAugments
  obtain ⟨other, applied', alike'⟩ := applied.alike alike each distinct
  have completable : Completable directory' ρ g.next g'.next final trees' augments' :=
    ⟨sequence', other, together'.trans order, applied', alike'⟩
  obtain ⟨noneLeft, alikeFinal⟩ := augmentRounds_completes distinct augments'.length augments' trees' g'
    (Nat.le_refl _) (Nat.le_refl _) completable
  exact ⟨_, _, augmentAll_eq_ok.2 (Prod.ext (Prod.ext rfl noneLeft) rfl), alikeFinal⟩

/-! ## One number for another -/

namespace SchemaTrees

variable {R : Statement × Option Nat → Statement × Option Nat → Prop} {trees trees' : SchemaTrees}

theorem Reordered.forall₂ (alike : trees.Reordered R trees') (nodup : (trees.map (·.1)).Nodup)
    (names : trees'.map (·.1) = trees.map (·.1)) :
    List.Forall₂ (fun t t' => t'.1 = t.1 ∧ t.2.Reordered R t'.2) trees trees' := by
  induction trees generalizing trees' with
  | nil =>
    rw [List.map_eq_nil_iff.1 names]
    exact .nil
  | cons first rest ih =>
    cases trees' with
    | nil => simp at names
    | cons first' rest' =>
      obtain ⟨name, tree⟩ := first
      obtain ⟨name', tree'⟩ := first'
      simp only [List.map_cons, List.cons.injEq] at names
      obtain ⟨rfl, names⟩ := names
      rw [List.map_cons, List.nodup_cons] at nodup
      have here := alike name'
      simp only [List.lookup_cons, beq_self_eq_true] at here
      cases here with
      | some here =>
        refine .cons ⟨rfl, here⟩ (ih (fun other => ?_) nodup.2 names)
        have there := alike other
        by_cases same : other = name'
        · -- The name is that of the first tree, and the other trees have other names.
          have absent : ∀ l : SchemaTrees, l.map (·.1) = rest.map (·.1) → l.lookup other = none := by
            intro l sameNames
            refine List.lookup_eq_none_iff.2 fun t member => ?_
            have known : t.1 ∈ rest.map (·.1) := sameNames ▸ List.mem_map_of_mem member
            have different : other ≠ t.1 := fun isOther => nodup.1 (same ▸ isOther ▸ known)
            simpa using different
          rw [absent rest rfl, absent rest' names]
          exact .none
        · have elsewhere : (other == name') = false := by simpa using same
          simpa only [List.lookup_cons, elsewhere] using there

section

variable (each : List.Forall₂ (fun t t' => t'.1 = t.1 ∧ t.2.Reordered R t'.2) trees trees')
include each

theorem reordered_of_forall₂ : trees.Reordered R trees' := by
  intro name
  induction each with
  | nil => exact .none
  | @cons first first' rest rest' here _ ih =>
    obtain ⟨key, tree⟩ := first
    obtain ⟨key', tree'⟩ := first'
    obtain ⟨rfl, alike⟩ := here
    rw [List.lookup_cons, List.lookup_cons]
    cases name == key' with
    | true => exact .some alike
    | false => exact ih

theorem exists_stamped_below : ∃ m, List.Forall₂ R (stampedAll trees.below) m ∧ m.Perm (stampedAll trees'.below) := by
  induction each with
  | nil => exact ⟨[], .nil, .nil⟩
  | cons here _ ih =>
    obtain ⟨m, matched, order⟩ := here.2.children.exists_stamped
    obtain ⟨m', matched', order'⟩ := ih
    refine ⟨m ++ m', ?_, ?_⟩
    · simpa [below] using List.rel_append matched matched'
    · simpa [below] using order.append order'

theorem exists_numbering (distinct : ((stampedAll trees.below).map (·.1.id)).Nodup) :
    ∃ τ : Nat → Nat, List.Forall₂ (fun t t' => t'.1 = t.1 ∧
      R (t.2.statement, t.2.augment) (t'.2.statement, t'.2.augment) ∧
      ReorderedAll (fun p p' => R p p' ∧ p'.1.id = τ p.1.id) t.2.children t'.2.children) trees trees' := by
  induction each with
  | nil => exact ⟨fun i => i, .nil⟩
  | @cons first first' rest rest' here others ih =>
    rw [below, List.flatMap_cons, SchemaNode.stampedAll_append, List.map_append] at distinct
    obtain ⟨τ, below'⟩ := here.2.children.exists_numbering distinct.of_append_left
    obtain ⟨τ', others'⟩ := ih distinct.of_append_right
    refine ⟨fun i => if i ∈ (stampedAll first.2.children).map (·.1.id) then τ i else τ' i,
      .cons ⟨here.1, here.2.here, below'.mono ?_⟩ ?_⟩
    · intro p member p' same
      have inFirst : p.1.id ∈ (stampedAll first.2.children).map (·.1.id) := List.mem_map_of_mem member
      exact ⟨same.1, same.2.trans (if_pos inFirst).symm⟩
    · have inRest : ∀ t ∈ rest, ∀ p ∈ stampedAll t.2.children,
          p.1.id ∉ (stampedAll first.2.children).map (·.1.id) := by
        intro t member p inside inFirst
        refine List.disjoint_of_nodup_append distinct inFirst (List.mem_map_of_mem ?_)
        obtain ⟨node, inChildren, same⟩ := mem_stampedAll.1 inside
        obtain ⟨top, isTop, inTop⟩ := SchemaNode.mem_nodesOfAll.1 inChildren
        exact mem_stampedAll.2 ⟨node, SchemaNode.mem_nodesOfAll.2
          ⟨top, List.mem_flatMap.2 ⟨t, member, isTop⟩, inTop⟩, same⟩
      clear ih distinct others
      induction others' with
      | nil => exact .nil
      | @cons t t' _ _ there _ ih' =>
        refine .cons ⟨there.1, there.2.1, there.2.2.mono ?_⟩
          (ih' fun s member => inRest s (List.mem_cons_of_mem _ member))
        intro p member p' same
        exact ⟨same.1, same.2.trans (if_neg (inRest t List.mem_cons_self p member)).symm⟩

end

/-- If the numbers of the second trees come from the first by a function, and none is there twice, then no
    two numbers have become one. -/
theorem injective_of_number {τ : Nat → Nat}
    (each : List.Forall₂ (fun t t' => t'.1 = t.1 ∧ t.2.Reordered R t'.2) trees trees')
    (number : ∀ p p', R p p' → p'.1.id = τ p.1.id)
    (distinct : ((stampedAll trees'.below).map (·.1.id)).Nodup) :
    ∀ s ∈ placedAll trees.below, ∀ t ∈ placedAll trees.below, τ s.id = τ t.id → s.id = t.id := by
  obtain ⟨m, matched, together⟩ := exists_stamped_below each
  have images : m.map (·.1.id) = ((placedAll trees.below).map (·.id)).map τ := by
    rw [← SchemaNode.stampedAll_statements, List.map_map, List.map_map]
    exact map_eq_of_forall₂ (fun same => number _ _ same) matched
  have nodup : (((placedAll trees.below).map (·.id)).map τ).Nodup := by
    rw [← images]
    exact (together.map _).nodup_iff.2 distinct
  intro s inS t inT same
  exact List.inj_on_of_nodup_map nodup (List.mem_map_of_mem inS) (List.mem_map_of_mem inT) same

end SchemaTrees

/-- The statements of two runs match by a function on numbers that goes on where the one from before ends. -/
theorem exists_renumbering {ρ : Nat → Nat} {start start' : Nat} {final final' : SchemaTrees}
    (each : List.Forall₂ (fun t t' => t'.1 = t.1 ∧ t.2.Reordered (Matches ρ start start') t'.2) final final')
    (distinct : ((stampedAll final.below).map (·.1.id)).Nodup) (roots : ∀ t ∈ final, t.2.id < start) :
    ∃ τ : Nat → Nat, (∀ i < start, τ i = ρ i) ∧
      List.Forall₂ (fun t t' => t'.1 = t.1 ∧
        t.2.Reordered (fun p p' => Matches ρ start start' p p' ∧ p'.1.id = τ p.1.id) t'.2) final final' := by
  obtain ⟨τ, numbered⟩ := SchemaTrees.exists_numbering each distinct
  refine ⟨fun i => if i < start then ρ i else τ i, fun i before => if_pos before, ?_⟩
  have before : ∀ p p', Matches ρ start start' p p' → p.1.id < start → p'.1.id = ρ p.1.id := by
    intro p p' same isBefore
    cases same.statement with
    | inl known => rw [known.2.2, Statement.renumber_id]
    | inr since => omega
  clear each distinct
  induction numbered with
  | nil => exact .nil
  | @cons t t' _ _ here _ ih =>
    have isRoot : t.2.id < start := roots t List.mem_cons_self
    refine .cons ⟨here.1, .of_children ⟨here.2.1, ?_⟩ (here.2.2.mono ?_)⟩
      (ih fun s member => roots s (List.mem_cons_of_mem _ member))
    · exact (before _ _ here.2.1 isRoot).trans (if_pos isRoot).symm
    · intro p _ p' same
      refine ⟨same.1, ?_⟩
      by_cases isBefore : p.1.id < start
      · exact (before p p' same.1 isBefore).trans (if_pos isBefore).symm
      · exact same.2.trans (if_neg isBefore).symm

/-! ## The outcome -/

/-- A statement and the augment that brought it, with another number. -/
def Renumbered (τ : Nat → Nat) (p p' : Statement × Option Nat) : Prop :=
  p' = ({ p.1 with id := τ p.1.id }, p.2)

theorem Matches.renumbered {start : Nat} {τ : Nat → Nat} {p p' : Statement × Option Nat}
    (same : Alike start p p') (number : p'.1.id = τ p.1.id) : Renumbered τ p p' := by
  obtain ⟨s, mark⟩ := p
  obtain ⟨s', mark'⟩ := p'
  have sameMark : mark' = mark := by simpa using same.mark
  cases same.statement with
  | inl before =>
    have unchanged : s' = s := before.2.2.trans (Statement.renumber_self s)
    subst unchanged sameMark
    simp only [Renumbered] at number ⊢
    rw [← number]
    cases s'
    rfl
  | inr since =>
    have changed : s' = { s with id := s'.id } := since.2.2
    rw [number] at changed
    rw [Renumbered, sameMark, changed]

theorem renumbered_faithful (τ : Nat → Nat) : Faithful (Renumbered τ) where
  name same := by rw [same]; rfl
  keyword same := by rw [same]
  marked same := by rw [same]

/-- Modules that are ready to be augmented, with numbers of their own. -/
structure Populated (trees : SchemaTrees) (augments : List SchemaNode) (g : Growth) : Prop extends
    Ready trees augments g where
  modules : ∀ tree ∈ trees, tree.2.id < g.next

theorem Ready.perm {trees : SchemaTrees} {augments augments' : List SchemaNode} {g : Growth}
    (ready : Ready trees augments g) (order : augments.Perm augments') : Ready trees augments' g := by
  have below : (stampedAll (augments.flatMap (·.children))).Perm (stampedAll (augments'.flatMap (·.children))) :=
    SchemaNode.stampedAll_perm (order.flatMap_right _)
  have places : (toPlace trees augments).Perm (toPlace trees augments') := by
    rw [toPlace, toPlace, ← SchemaNode.stampedAll_statements (augments.flatMap _),
      ← SchemaNode.stampedAll_statements (augments'.flatMap _)]
    exact (below.map _).append_left _
  refine ⟨ready.names, (order.map _).nodup_iff.1 ready.distinct, fun s member => ?_, fun i => ?_,
    fun s member => ?_, fun stamp member => ready.unmarked stamp ?_⟩
  · exact ready.tree s (places.mem_iff.2 member)
  · rw [← Statement.countOf_perm i places]
    exact ready.once i
  · exact ready.numbered s (places.mem_iff.2 member)
  · rw [SchemaNode.stampedAll_append, List.mem_append] at member ⊢
    exact member.imp_right below.mem_iff.2

section

variable {directory : Directory} {trees trees' : SchemaTrees} {augments : List SchemaNode} {g h : Growth}
  (ready : Ready trees augments g) (done : (augmentAll directory trees augments).run g = (.ok trees', h))
include ready done

theorem Ready.ids_nodup : ((stampedAll trees'.below).map (·.1.id)).Nodup := by
  have once : ∀ i, countOf i (placedAll
      ((augmentRounds directory augments.length trees augments).run g).1.1.below) ≤ 1 := ready.once_after
  rw [augmentAll_eq_ok.1 done] at once
  have sameIds : (stampedAll trees'.below).map (·.1.id) = (placedAll trees'.below).map (·.id) := by
    rw [← SchemaNode.stampedAll_statements, List.map_map]
    rfl
  rw [sameIds]
  exact List.nodup_iff_count_le_one.2 once

theorem Ready.roots_after : trees'.roots = trees.roots := by
  exact (augmentAll_augments holdsOfCases_true ready.names ready.tree done).roots

theorem Ready.allApplied : AugmentOutcome directory g.next augments trees' [] := by
  have outcome : let r := (augmentRounds directory augments.length trees augments).run g
      AugmentOutcome directory g.next augments r.1.1 r.1.2 := ready.outcome
  rwa [augmentAll_eq_ok.1 done] at outcome

theorem Ready.inPlace : ∀ a ∈ augments, ∃ target mine, InPlace directory g.next trees' a target mine :=
  fun a member => (ready.allApplied done).applied a member (by simp)

theorem Ready.marks : ∀ node ∈ nodesOfAll trees'.below, ∀ i, node.augment = some i → ∃ a ∈ augments, a.id = i := by
  intro node member i marked
  obtain ⟨a, isAugment, number, -⟩ := (ready.allApplied done).marks node member i marked
  exact ⟨a, isAugment, number⟩

end

/-- Once a library is linked and expanded, its modules can be augmented. -/
theorem Library.ExpandsTo.populated {library : Library} {forest : List Statement}
    (way : library.ExpandsTo forest) (sound : library.Sound) :
    Populated way.trees way.expansion.augments way.grown := by
  refine ⟨way.ready sound, fun tree member => ?_⟩
  obtain ⟨fresh, grown⟩ := way.grows
  have isModule : tree.2.statement ∈ topsOf forest (library.modules.map (·.2)) := by
    rw [← way.roots.modules, ← (way.trees_spec sound).2, List.map_map]
    exact List.mem_map_of_mem member
  have inForest := ((topsOf_eq way sound (List.Subset.refl _)).2 _ isModule).1
  have number := (sound.read_forest way.same _ (Statement.mem_withinAll_of_mem inForest)).2.2
  rw [grown.next]
  exact Nat.lt_of_lt_of_le number (Nat.le_add_right _ _)

/-- Augments can be applied in any order.  If they can be applied in one, and no node has two children of one
    name in the end, then they can be applied in every other: each gets the same target, and every node has
    the same children, up to their order and the numbers of the cases that are made.  What the modules of a
    library come to, once it is loaded and linked, can always be augmented so. -/
theorem augmentAll_orderIndependent :
    (∀ (directory : Directory) (trees : SchemaTrees) (first second : List SchemaNode) (g : Growth),
      Populated trees first g → first.Perm second →
      ∀ (trees₁ : SchemaTrees) (g₁ : Growth),
        (augmentAll directory trees first).run g = (.ok trees₁, g₁) →
        (∀ node ∈ nodesOfAll (trees₁.map (·.2)), (node.children.map (·.name)).Nodup) →
        ∃ trees₂ g₂, (augmentAll directory trees second).run g = (.ok trees₂, g₂) ∧
          ∃ τ : Nat → Nat, (∀ i < g.next, τ i = i) ∧
            (∀ s ∈ placedAll trees₁.below, ∀ t ∈ placedAll trees₁.below, τ s.id = τ t.id → s.id = t.id) ∧
            List.Forall₂ (fun t t' => t'.1 = t.1 ∧ t.2.Reordered (Renumbered τ) t'.2) trees₁ trees₂ ∧
            ∀ a ∈ first, ∃ target₁ mine₁ target₂ mine₂,
              InPlace directory g.next trees₁ a target₁ mine₁ ∧
              InPlace directory g.next trees₂ a target₂ mine₂ ∧
              target₁.Reordered (Renumbered τ) target₂) ∧
    (∀ (texts : List String) (sources : List Source) (files : FileTree) (library : Library),
      library = ((Library.ofTexts texts).loadAll sources files).library →
      ∀ (forest : List Statement) (log : Log),
        (linkAll library.directory [] library.forest).run.run [] = (.ok forest, log) →
        let expanded := (expandForest forest (library.modules.map (·.2))).run ⟨library.next, [], log⟩
        Populated ((library.modules.map (·.1)).zip expanded.1.modules) expanded.1.augments expanded.2) := by
  constructor
  · intro directory trees first second g populated order trees₁ g₁ done names
    have ready := populated.toReady
    have ready' := ready.perm order
    have distinct : trees₁.NamesDistinct := by
      intro name tree found node inside
      exact names node (SchemaNode.mem_nodesOfAll.2 ⟨tree, List.mem_map_of_mem (mem_of_lookup_eq_some found), inside⟩)
    obtain ⟨trees₂, g₂, done', alike⟩ := augmentAll_confluent
      (SchemaTrees.Reordered.refl Matches.refl trees)
      (List.forall₂_same.2 fun a _ => SameAugment.refl directory g.next a) order done distinct
    have roots := ready.roots_after done
    have roots' := ready'.roots_after done'
    have sameNames : trees₂.map (·.1) = trees₁.map (·.1) := by
      rw [← SchemaTrees.roots_names, ← SchemaTrees.roots_names, roots, roots']
    have nodup : (trees₁.map (·.1)).Nodup := by
      rw [← SchemaTrees.roots_names, roots, SchemaTrees.roots_names]
      exact ready.names
    have before : ∀ t ∈ trees₁, t.2.id < g.next := by
      intro t member
      have isRoot : (t.1, t.2.statement) ∈ trees₁.roots := List.mem_map_of_mem member
      rw [roots] at isRoot
      obtain ⟨tree, inTrees, same⟩ := List.mem_map.1 isRoot
      have number := populated.modules tree inTrees
      rwa [SchemaNode.id, (Prod.mk.inj same).2] at number
    obtain ⟨τ, fixed, each⟩ := exists_renumbering (alike.forall₂ nodup sameNames) (ready.ids_nodup done) before
    have each' : List.Forall₂ (fun t t' => t'.1 = t.1 ∧ t.2.Reordered (Renumbered τ) t'.2) trees₁ trees₂ :=
      each.imp fun t t' here => ⟨here.1, here.2.mono fun p _ p' same => same.1.renumbered same.2⟩
    refine ⟨trees₂, g₂, done', τ, fixed, ?_, each', ?_⟩
    · exact SchemaTrees.injective_of_number each (fun p p' same => same.2) (ready'.ids_nodup done')
    · intro a member
      obtain ⟨target₁, mine₁, inPlace₁⟩ := ready.inPlace done a member
      obtain ⟨target₂, mine₂, inPlace₂⟩ := ready'.inPlace done' a (order.subset member)
      refine ⟨target₁, mine₁, target₂, mine₂, inPlace₁, inPlace₂, ?_⟩
      obtain ⟨path, found⟩ := inPlace₁.leads
      obtain ⟨path', found'⟩ := inPlace₂.leads
      obtain ⟨isPath, leads⟩ := augmentTarget?_eq_some.1 found
      obtain ⟨isPath', leads'⟩ := augmentTarget?_eq_some.1 found'
      obtain ⟨target, leads'', alikeTarget⟩ := (SchemaTrees.reordered_of_forall₂ each').at?
        (renumbered_faithful τ) distinct leads
      cases Option.some.inj (isPath.symm.trans isPath')
      cases Option.some.inj (leads''.symm.trans leads')
      exact alikeTarget
  · intro texts sources files library loaded forest log linked expanded
    have sound : library.Sound := loaded ▸ (Library.sound_ofTexts texts).loadAll sources files
    let way : library.ExpandsTo forest := ⟨log, linked, expanded.1, expanded.2, rfl⟩
    exact way.populated sound

theorem augmentAll_orderIndependent_dependentAugments :
    let library := ((Library.ofTexts [dependentAugments]).loadAll [] ⟨[]⟩).library
    ∃ forest log, (linkAll library.directory [] library.forest).run.run [] = (.ok forest, log) ∧
      (let expanded := (expandForest forest (library.modules.map (·.2))).run ⟨library.next, [], log⟩
       let trees := (library.modules.map (·.1)).zip expanded.1.modules
       let augments := expanded.1.augments
       Populated trees augments expanded.2 ∧ augments.map (·.name) = ["/c/a/a", "/c"] ∧
       ∃ trees₁ g₁, (augmentAll library.directory trees augments).run expanded.2 = (.ok trees₁, g₁) ∧
         (∀ node ∈ nodesOfAll (trees₁.map (·.2)), (node.children.map (·.name)).Nodup) ∧
         ∃ trees₂ g₂,
           (augmentAll library.directory trees augments.reverse).run expanded.2 = (.ok trees₂, g₂) ∧
           ∃ τ : Nat → Nat, (∀ i < expanded.2.next, τ i = i) ∧
             List.Forall₂ (fun t t' => t'.1 = t.1 ∧ t.2.Reordered (Renumbered τ) t'.2) trees₁ trees₂) := by
  intro library
  have expands := exists_run_ok ((linkAll library.directory [] library.forest).run.run []) (fun forest log =>
      let expanded := (expandForest forest (library.modules.map (·.2))).run ⟨library.next, [], log⟩
      let trees := (library.modules.map (·.1)).zip expanded.1.modules
      expanded.1.augments.map (·.name) == ["/c/a/a", "/c"] &&
        ((augmentAll library.directory trees expanded.1.augments).run expanded.2).1.toOption.any fun trees₁ =>
          (nodesOfAll (trees₁.map (·.2))).all fun node => decide (node.children.map (·.name)).Nodup) (by decide +kernel)
  simp only [Bool.and_eq_true, beq_iff_eq] at expands
  obtain ⟨forest, log, linked, paths, augments⟩ := expands
  obtain ⟨trees₁, done, names⟩ := exists_ok augments
  have populated := augmentAll_orderIndependent.2 [dependentAugments] [] ⟨[]⟩ library rfl forest log linked
  simp only [List.all_eq_true, decide_eq_true_eq] at names
  obtain ⟨trees₂, g₂, done', τ, fixed, -, each, -⟩ := augmentAll_orderIndependent.1 library.directory _ _ _ _
    populated (List.reverse_perm _).symm trees₁ _ (eq_mk_of_fst_eq done) names
  exact ⟨forest, log, linked, populated, paths, trees₁, _, eq_mk_of_fst_eq done, names, trees₂, g₂,
    done', τ, fixed, each⟩

end YangStubs.Schema
