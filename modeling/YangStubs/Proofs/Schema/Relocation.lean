import Mathlib.Data.List.Pairwise
import YangStubs.Proofs.Schema.Mirroring

/-! # Blocks of numbers in other places

Each part of a schema takes a block of numbers.  When the parts are put together in another order, or among
others, the blocks come to other places, and everything else stays as it is.
-/

namespace YangStubs.Schema

/-! ## Moving blocks -/

/-- Numbers one after the other that come to another place. -/
structure Block where
  source : Nat
  target : Nat
  size : Nat

namespace Block

def Holds (b : Block) (i : Nat) : Prop :=
  b.source ≤ i ∧ i < b.source + b.size

instance (b : Block) (i : Nat) : Decidable (b.Holds i) :=
  inferInstanceAs (Decidable (_ ∧ _))

/-- The two blocks share no number, neither before nor after they are moved. -/
def Apart (b c : Block) : Prop :=
  (b.source + b.size ≤ c.source ∨ c.source + c.size ≤ b.source) ∧
    (b.target + b.size ≤ c.target ∨ c.target + c.size ≤ b.target)

instance : Std.Symm Apart :=
  ⟨fun _ _ apart => ⟨apart.1.symm, apart.2.symm⟩⟩

/-- Where a number comes to if the blocks are moved, and all other numbers go behind `bound`. -/
def move (blocks : List Block) (bound i : Nat) : Nat :=
  (blocks.find? (·.Holds i)).elim (bound + i) fun b => b.target + (i - b.source)

variable {blocks : List Block} (apart : blocks.Pairwise Apart)
include apart

theorem move_of_holds (bound : Nat) {b : Block} (member : b ∈ blocks) {i : Nat} (holds : b.Holds i) :
    move blocks bound i = b.target + (i - b.source) := by
  cases found : blocks.find? (·.Holds i) with
  | none => simpa [holds] using List.find?_eq_none.1 found b member
  | some c =>
    have holds' : c.Holds i := by simpa using List.find?_some found
    have same : c = b := by
      by_contra different
      have away := apart.forall (List.mem_of_find?_eq_some found) member different
      unfold Apart Holds at *
      omega
    rw [move, found, same]
    rfl

omit apart in
theorem move_cases (blocks : List Block) (bound i : Nat) :
    (∃ b ∈ blocks, b.Holds i ∧ move blocks bound i = b.target + (i - b.source)) ∨ move blocks bound i = bound + i := by
  cases found : blocks.find? (·.Holds i) with
  | none =>
    rw [move, found]
    exact .inr rfl
  | some b =>
    refine .inl ⟨b, List.mem_of_find?_eq_some found, by simpa using List.find?_some found, ?_⟩
    rw [move, found]
    rfl

theorem move_injective {bound : Nat} (below : ∀ b ∈ blocks, b.target + b.size ≤ bound) :
    Function.Injective (move blocks bound) := by
  intro i j same
  cases move_cases blocks bound i with
  | inl hit =>
    obtain ⟨b, inB, holdsI, movedI⟩ := hit
    have low := below b inB
    cases move_cases blocks bound j with
    | inl hit' =>
      obtain ⟨c, inC, holdsJ, movedJ⟩ := hit'
      by_cases equal : b = c
      · subst equal
        unfold Holds at *
        omega
      · have away := apart.forall inB inC equal
        unfold Apart Holds at *
        omega
    | inr movedJ =>
      unfold Holds at holdsI
      omega
  | inr movedI =>
    cases move_cases blocks bound j with
    | inl hit =>
      obtain ⟨c, inC, holdsJ, movedJ⟩ := hit
      have low := below c inC
      unfold Holds at holdsJ
      omega
    | inr movedJ => omega

end Block

/-- A renumbering that goes on where another one ends: below `start` it is the other one, and all later numbers
    stay behind `start'`. -/
structure Continues (ρ₀ : Nat → Nat) (start start' : Nat) (ρ : Nat → Nat) : Prop where
  injective : Function.Injective ρ
  before : ∀ i < start, ρ i = ρ₀ i
  since : ∀ i, start ≤ i → start' ≤ ρ i

/-- A renumbering of the numbers below `start`, into those below `start'`. -/
structure Places (ρ₀ : Nat → Nat) (start start' : Nat) : Prop where
  injective : ∀ i < start, ∀ j < start, ρ₀ i = ρ₀ j → i = j
  below : ∀ i < start, ρ₀ i < start'

/-- Blocks of later numbers can be moved at will. -/
theorem Places.exists_continues {ρ₀ : Nat → Nat} {start start' : Nat} (places : Places ρ₀ start start')
    {blocks : List Block} (apart : blocks.Pairwise Block.Apart)
    (later : ∀ b ∈ blocks, start ≤ b.source ∧ start' ≤ b.target) :
    ∃ ρ, Continues ρ₀ start start' ρ ∧ ∀ b ∈ blocks, ∀ k < b.size, ρ (b.source + k) = b.target + k := by
  obtain ⟨bound, low, below⟩ : ∃ bound, start' ≤ bound ∧ ∀ b ∈ blocks, b.target + b.size ≤ bound := by
    clear later apart
    induction blocks with
    | nil => exact ⟨start', Nat.le_refl _, by simp⟩
    | cons b rest ih =>
      obtain ⟨bound, low, below⟩ := ih
      refine ⟨max bound (b.target + b.size), by omega, fun c member => ?_⟩
      cases List.mem_cons.1 member with
      | inl isFirst =>
        subst isFirst
        omega
      | inr isLater =>
        have := below c isLater
        omega
  have since : ∀ i, start' ≤ Block.move blocks bound i := by
    intro i
    cases Block.move_cases blocks bound i with
    | inl hit =>
      obtain ⟨b, member, -, moved⟩ := hit
      have := (later b member).2
      omega
    | inr moved => omega
  refine ⟨fun i => if i < start then ρ₀ i else Block.move blocks bound i, ⟨?_, ?_, ?_⟩, ?_⟩
  · intro i j same
    have moved := Block.move_injective apart below
    have lowI := places.below i
    have lowJ := places.below j
    have highI := since i
    have highJ := since j
    simp only at same
    split at same
    · split at same
      · exact places.injective i ‹_› j ‹_› same
      · omega
    · split at same
      · omega
      · exact moved same
  · exact fun i before => if_pos before
  · intro i isLater
    rw [if_neg (by omega)]
    exact since i
  · intro b member k inside
    have bounds := later b member
    have holds : b.Holds (b.source + k) := ⟨by omega, by omega⟩
    have isLater : ¬ b.source + k < start := by omega
    simp only [isLater, if_false, Block.move_of_holds apart bound member holds]
    omega

/-! ## Computations one after the other -/

/-- What a computation makes. -/
def freshOf {α : Type} (x : StateM Growth α) (g : Growth) : List Made :=
  (x.run g).2.made.drop g.made.length

/-- A computation that takes new numbers and adds what it makes to what is there. -/
def Adding {α : Type} (x : StateM Growth α) : Prop :=
  ∀ g : Growth, g.next ≤ (x.run g).2.next ∧ (x.run g).2.made = g.made ++ freshOf x g

theorem adding_of_made {α : Type} {x : StateM Growth α}
    (adds : ∀ g : Growth, g.next ≤ (x.run g).2.next ∧ ∃ fresh, (x.run g).2.made = g.made ++ fresh) :
    Adding x := by
  intro g
  obtain ⟨later, fresh, made⟩ := adds g
  refine ⟨later, ?_⟩
  rw [freshOf, made, List.drop_left]

theorem Mirrors.fresh {α β : Type} {ρ : Nat → Nat} {view : α → β} {x : StateM Growth α} {x' : StateM Growth β}
    (mirrors : Mirrors ρ view x x') {g g' : Growth}
    (block : ∀ k < (x.run g).2.next - g.next, ρ (g.next + k) = g'.next + k) :
    (x'.run g').1 = view (x.run g).1 ∧ (x'.run g').2.next = g'.next + ((x.run g).2.next - g.next) ∧
      freshOf x' g' = (freshOf x g).map (Made.renumber ρ) := by
  obtain ⟨n, fresh, next, made, mirror⟩ := mirrors g
  have count : (x.run g).2.next - g.next = n := by omega
  rw [count] at block ⊢
  obtain ⟨result, next', made'⟩ := mirror g' block
  refine ⟨result, next', ?_⟩
  rw [freshOf, freshOf, made, made', List.drop_left, List.drop_left]

/-- How computations go one after the other: the state in which each of them starts, and the last state. -/
structure Runs {ι α : Type} (x : ι → StateM Growth α) (l : List ι) (g : Growth) (state : ι → Growth)
    (final : Growth) : Prop where
  result : (l.mapM x).run g = (l.map fun t => ((x t).run (state t)).1, final)
  made : final.made = g.made ++ l.flatMap fun t => freshOf (x t) (state t)
  later : g.next ≤ final.next
  within : ∀ t ∈ l, g.next ≤ (state t).next ∧ (state t).next ≤ ((x t).run (state t)).2.next ∧
    ((x t).run (state t)).2.next ≤ final.next
  apart : ∀ t ∈ l, ∀ u ∈ l, t ≠ u →
    ((x t).run (state t)).2.next ≤ (state u).next ∨ ((x u).run (state u)).2.next ≤ (state t).next

theorem mapM_cons_run {ι α : Type} (x : ι → StateM Growth α) (t : ι) (rest : List ι) (g : Growth) :
    ((t :: rest).mapM x).run g =
      (((x t).run g).1 :: ((rest.mapM x).run ((x t).run g).2).1, ((rest.mapM x).run ((x t).run g).2).2) := by
  rw [List.mapM_cons]
  rfl

theorem exists_runs {ι α : Type} {x : ι → StateM Growth α} {l : List ι} (nodup : l.Nodup)
    (adding : ∀ t ∈ l, Adding (x t)) (g : Growth) : ∃ state final, Runs x l g state final := by
  classical
  induction l generalizing g with
  | nil => exact ⟨fun _ => g, g, rfl, by simp, Nat.le_refl _, by simp, by simp⟩
  | cons t rest ih =>
    obtain ⟨notLater, nodup⟩ := List.nodup_cons.1 nodup
    obtain ⟨first, made⟩ := adding t List.mem_cons_self g
    obtain ⟨state, final, runs⟩ := ih nodup (fun u member => adding u (List.mem_cons_of_mem t member)) ((x t).run g).2
    have elsewhere : ∀ u ∈ rest, (if u = t then g else state u) = state u := by
      intro u member
      have different : u ≠ t := fun same => notLater (same ▸ member)
      exact if_neg different
    refine ⟨fun u => if u = t then g else state u, final, ?_, ?_, ?_, ?_, ?_⟩
    · rw [mapM_cons_run, runs.result, List.map_cons, if_pos rfl]
      congr 2
      exact List.map_congr_left fun u member => by rw [elsewhere u member]
    · rw [runs.made, made, List.flatMap_cons, if_pos rfl, List.append_assoc]
      congr 2
      exact List.flatMap_congr fun u member => by rw [elsewhere u member]
    · exact Nat.le_trans first runs.later
    · intro u member
      cases List.mem_cons.1 member with
      | inl isFirst =>
        subst isFirst
        rw [if_pos rfl]
        exact ⟨Nat.le_refl _, first, runs.later⟩
      | inr isLater =>
        rw [elsewhere u isLater]
        have bounds := runs.within u isLater
        exact ⟨Nat.le_trans first bounds.1, bounds.2⟩
    · intro u inU v inV different
      cases List.mem_cons.1 inU with
      | inl isFirst =>
        subst isFirst
        have isLater := (List.mem_cons.1 inV).resolve_left (Ne.symm different)
        rw [if_pos rfl, elsewhere v isLater]
        exact .inl (runs.within v isLater).1
      | inr isLater =>
        rw [elsewhere u isLater]
        cases List.mem_cons.1 inV with
        | inl isFirst =>
          subst isFirst
          rw [if_pos rfl]
          exact .inr (runs.within u isLater).1
        | inr isLater' =>
          rw [elsewhere v isLater']
          exact runs.apart u isLater v isLater' different

/-- Computations that are found again among others, perhaps in another order, do the same there, with other
    numbers.  Some more numbers, as many as one likes, come right after the last ones on both sides. -/
theorem Runs.exists_relocation {ι κ α β : Type} {x : ι → StateM Growth α} {x' : κ → StateM Growth β}
    {twin : ι → κ} {view : (Nat → Nat) → α → β} {l : List ι} {l' : List κ} {g g' final final' : Growth}
    {state : ι → Growth} {state' : κ → Growth} (runs : Runs x l g state final)
    (runs' : Runs x' l' g' state' final') (nodup : l.Nodup) (known : ∀ t ∈ l, twin t ∈ l')
    (distinct : ∀ t ∈ l, ∀ u ∈ l, twin t = twin u → t = u) {ρ₀ : Nat → Nat} {start start' : Nat}
    (places : Places ρ₀ start start') (since : start ≤ g.next) (since' : start' ≤ g'.next)
    (mirrors : ∀ ρ, Continues ρ₀ start start' ρ → ∀ t ∈ l, Mirrors ρ (view ρ) (x t) (x' (twin t)))
    (tail : Nat) :
    ∃ ρ, Continues ρ₀ start start' ρ ∧ (∀ k < tail, ρ (final.next + k) = final'.next + k) ∧
      ∀ t ∈ l, ((x' (twin t)).run (state' (twin t))).1 = view ρ ((x t).run (state t)).1 ∧
        freshOf (x' (twin t)) (state' (twin t)) = (freshOf (x t) (state t)).map (Made.renumber ρ) := by
  let block : ι → Block := fun t =>
    ⟨(state t).next, (state' (twin t)).next, ((x t).run (state t)).2.next - (state t).next⟩
  have later : ∀ t ∈ l, start ≤ (block t).source ∧ start' ≤ (block t).target := by
    intro t member
    exact ⟨Nat.le_trans since (runs.within t member).1, Nat.le_trans since' (runs'.within (twin t) (known t member)).1⟩
  -- The size of a block is found by moving this block alone.
  have size : ∀ t ∈ l, ((x' (twin t)).run (state' (twin t))).2.next = (block t).target + (block t).size := by
    intro t member
    have alone : [block t].Pairwise Block.Apart := List.pairwise_singleton _ _
    obtain ⟨ρ, continues, moved⟩ := places.exists_continues alone (by simpa using later t member)
    exact ((mirrors ρ continues t member).fresh (moved (block t) List.mem_cons_self)).2.1
  have apart : (l.map block).Pairwise Block.Apart := by
    rw [List.pairwise_map]
    refine nodup.imp_of_mem fun {t u} inT inU different => ?_
    have here := runs.apart t inT u inU different
    have there := runs'.apart (twin t) (known t inT) (twin u) (known u inU)
      fun same => different (distinct t inT u inU same)
    have sizeT := size t inT
    have sizeU := size u inU
    have boundsT := runs.within t inT
    have boundsU := runs.within u inU
    simp only [block] at sizeT sizeU
    simp only [Block.Apart, block]
    omega
  have all : (l.map block ++ [Block.mk final.next final'.next tail]).Pairwise Block.Apart := by
    refine List.pairwise_append.2 ⟨apart, List.pairwise_singleton _ _, fun b inBlocks c isTail => ?_⟩
    obtain ⟨t, member, rfl⟩ := List.mem_map.1 inBlocks
    cases List.mem_singleton.1 isTail
    have sizeT := size t member
    have bounds := runs.within t member
    have bounds' := runs'.within (twin t) (known t member)
    simp only [block] at sizeT
    simp only [Block.Apart, block]
    omega
  obtain ⟨ρ, continues, moved⟩ := places.exists_continues all fun b member => by
    cases List.mem_append.1 member with
    | inl inBlocks =>
      obtain ⟨t, inList, rfl⟩ := List.mem_map.1 inBlocks
      exact later t inList
    | inr isTail =>
      cases List.mem_singleton.1 isTail
      exact ⟨Nat.le_trans since runs.later, Nat.le_trans since' runs'.later⟩
  refine ⟨ρ, continues, fun k inTail => ?_, fun t member => ?_⟩
  · exact moved _ (List.mem_append_right _ List.mem_cons_self) k inTail
  · have here := (mirrors ρ continues t member).fresh
      (moved (block t) (List.mem_append_left _ (List.mem_map_of_mem member)))
    exact ⟨here.1, here.2.2⟩

/-! ## The parts of an expansion -/

/-- What is expanded in one go: a module, or the groupings and augments of a tree. -/
inductive Part where
  | module (s : Statement)
  | definitions (s : Statement)

/-- What a part brings to the expansion. -/
def Part.grow (expand : Expander) : Part → StateM Growth Expansion
  | .module s => do
    let node ← YangStubs.Schema.grow expand [] s
    return ⟨[node], [], []⟩
  | .definitions s => do
    let found ← growDefinitions expand (s.listing none)
    return ⟨[], found.1, found.2⟩

theorem Part.module_run (expand : Expander) (s : Statement) (g : Growth) :
    (Part.grow expand (.module s)).run g =
      (⟨[((YangStubs.Schema.grow expand [] s).run g).1], [], []⟩, ((YangStubs.Schema.grow expand [] s).run g).2) := rfl

theorem Part.definitions_run (expand : Expander) (s : Statement) (g : Growth) :
    (Part.grow expand (.definitions s)).run g =
      (let found := (growDefinitions expand (s.listing none)).run g
       (⟨[], found.1.1, found.1.2⟩, found.2)) := rfl

/-- The part with other numbers. -/
def Part.renumber (ρ : Nat → Nat) : Part → Part
  | .module s => .module (s.renumber ρ)
  | .definitions s => .definitions (s.renumber ρ)

/-- The expansion with other numbers. -/
def Expansion.renumber (ρ : Nat → Nat) (expansion : Expansion) : Expansion :=
  ⟨expansion.modules.map (SchemaNode.renumber ρ), expansion.groupings.map (SchemaNode.renumber ρ),
    expansion.augments.map (SchemaNode.renumber ρ)⟩

theorem Part.grow_mirrors {ρ : Nat → Nat} {expand expand' : Expander}
    (mirrors : ∀ busy, expand.Mirrors ρ expand' busy) (part : Part) :
    Mirrors ρ (Expansion.renumber ρ) (part.grow expand) ((part.renumber ρ).grow expand') := by
  cases part with
  | module s =>
    exact (YangStubs.Schema.grow_mirrors (mirrors []) s).bind fun node =>
      Mirrors.pure (⟨[node], [], []⟩ : Expansion)
  | definitions s =>
    have listing := growDefinitions_mirrors mirrors (s.listing none)
    rw [← Statement.listing_renumber, Option.map_none] at listing
    exact listing.bind fun found => Mirrors.pure (⟨[], found.1, found.2⟩ : Expansion)

theorem Part.grow_adding (groupings : List Statement) (bound : Nat) (part : Part) :
    Adding (part.grow (expander groupings bound)) := by
  have growing := expander_growing_true groupings bound
  refine adding_of_made fun g => ?_
  cases part with
  | module s =>
    obtain ⟨-, fresh, grown⟩ := grow_grows holdsOfCases_true growing [] s g
    exact ⟨grown.next ▸ Nat.le_add_right _ _, fresh, grown.made⟩
  | definitions s =>
    obtain ⟨-, -, fresh, grown⟩ := growDefinitions_grows holdsOfCases_true growing (s.listing none) g
    exact ⟨grown.next ▸ Nat.le_add_right _ _, fresh, grown.made⟩

/-- The parts of an expansion in their order. -/
def partsOf (tops forest : List Statement) : List Part :=
  tops.map .module ++ forest.map .definitions

theorem mapM_module_run (expand : Expander) (tops : List Statement) :
    ∀ g : Growth, ((tops.map Part.module).mapM (Part.grow expand)).run g =
      (((growModules expand tops).run g).1.map fun node => ⟨[node], [], []⟩, ((growModules expand tops).run g).2) := by
  induction tops with
  | nil => exact fun _ => rfl
  | cons s rest ih =>
    intro g
    rw [List.map_cons, mapM_cons_run, growModules_cons_run]
    simp only [Part.grow, run_bind, ih]
    rfl

theorem mapM_definitions_run (expand : Expander) (forest : List Statement) :
    ∀ g : Growth, let r := ((forest.map Part.definitions).mapM (Part.grow expand)).run g
      let found := (growDefinitions expand (Statement.listingOfAll none none forest)).run g
      r.1.flatMap (·.modules) = [] ∧ r.1.flatMap (·.groupings) = found.1.1 ∧
        r.1.flatMap (·.augments) = found.1.2 ∧ r.2 = found.2 := by
  induction forest with
  | nil => exact fun _ => ⟨rfl, rfl, rfl, rfl⟩
  | cons s rest ih =>
    intro g
    have listing : Statement.listingOfAll none none (s :: rest) =
        s.listing none ++ Statement.listingOfAll none none rest := rfl
    obtain ⟨modules, groupings, augments, final⟩ := ih ((growDefinitions expand (s.listing none)).run g).2
    simp only [listing, growDefinitions_append, run_bind, List.map_cons, mapM_cons_run, Part.grow, List.flatMap_cons]
    exact ⟨modules, congrArg _ groupings, congrArg _ augments, final⟩

theorem expandForest_eq_mapM (forest : List Statement) (ids : List Nat) (g : Growth) :
    (expandForest forest ids).run g =
      (let r := ((partsOf (topsOf forest ids) forest).mapM (Part.grow (forestExpander forest))).run g
       (⟨r.1.flatMap (·.modules), r.1.flatMap (·.groupings), r.1.flatMap (·.augments)⟩, r.2)) := by
  have appended : ((partsOf (topsOf forest ids) forest).mapM (Part.grow (forestExpander forest))).run g =
      (let first := (((topsOf forest ids).map Part.module).mapM (Part.grow (forestExpander forest))).run g
       let second := ((forest.map Part.definitions).mapM (Part.grow (forestExpander forest))).run first.2
       (first.1 ++ second.1, second.2)) := by
    rw [partsOf, List.mapM_append]
    rfl
  rw [expandForest_run, appended, mapM_module_run]
  obtain ⟨modules, groupings, augments, final⟩ := mapM_definitions_run (forestExpander forest) forest
    ((growModules (forestExpander forest) (topsOf forest ids)).run g).2
  have nothing : ∀ l : List SchemaNode, l.flatMap (fun _ => ([] : List SchemaNode)) = [] := by simp
  have itself : ∀ l : List SchemaNode, l.flatMap (fun node => [node]) = l := by simp
  simp only [List.flatMap_append, List.flatMap_map, modules, groupings, augments, final, List.append_nil]
  rw [nothing, itself]
  rfl

end YangStubs.Schema
