import YangStubs.Proofs.Model.Following

/-! # Chains of leafrefs

A leafref leads to the node made for its target, which may be a leafref again.  The targets that are being made
when a node is made are the statements of the reference nodes around it.  A chain therefore passes no statement
twice, and it is cut only where the next target is that of a reference node around the leafref.
-/

namespace YangStubs.Model

open YangStubs.Schema

variable {n r : Node}

namespace Module

/-- A node that was made for the target of a leafref. -/
def IsReference (m : Module) (r : Node) : Prop :=
  r ∈ m.nodes ∧ ∃ n ∈ m.nodes, n.reference? = some r.id

/-- A node is around itself and around all nodes below it. -/
inductive Encloses (m : Module) (r : Node) : Node → Prop
  | self : m.Encloses r r
  | above {b n : Node} (member : b ∈ m.nodes) (parent : n.parent = some b.id) (encloses : m.Encloses r b) :
      m.Encloses r n

/-- The nodes that leafrefs lead to from a node, one after the other. -/
inductive Chain (m : Module) : Node → List Node → Prop
  | nil {n : Node} : m.Chain n []
  | cons {n r : Node} {rest : List Node} (member : r ∈ m.nodes) (reference : n.reference? = some r.id)
      (chain : m.Chain r rest) : m.Chain n (r :: rest)

/-- Leafrefs lead from node to node without coming back, and as far as they can. -/
structure Chained (schema : Resolved) (m : Module) : Prop where
  /-- A leafref leads to a later node right below it, which is one of the target. -/
  reference : ∀ n ∈ m.nodes, ∀ id, n.reference? = some id → ∃ r ∈ m.nodes, r.id = id ∧ n.id < r.id ∧
    r.parent = some n.id ∧ schema.leafTarget? n.statement = some r.statement
  /-- No statement is passed twice. -/
  distinct : ∀ n ∈ m.nodes, ∀ chain, m.Chain n chain → (chain.map (·.statement)).Nodup
  finite : ∀ n ∈ m.nodes, ∀ chain, m.Chain n chain → chain.length ≤ m.nodes.length
  /-- A leafref with a target leads nowhere only if a node made for the target is around it. -/
  cut : ∀ n ∈ m.nodes, ∀ target, schema.leafTarget? n.statement = some target →
    ∃ t, n.typing = some t ∧ t.form = .leafref ∧
      (t.reference = none ↔ ∃ r, m.IsReference r ∧ m.Encloses r n ∧ r.statement = target)

theorem Chain.subset {m : Module} {chain : List Node} (isChain : m.Chain n chain) : chain ⊆ m.nodes := by
  induction isChain with
  | nil => exact List.nil_subset _
  | cons member _ _ ih => exact List.cons_subset.2 ⟨member, ih⟩

end Module

theorem ne_type_of_isLeafKeyword {keyword : String} (isLeaf : isLeafKeyword keyword) : keyword ≠ "type" := by
  rintro rfl
  cases isLeaf

/-! ## Steps of chains -/

namespace Traced

variable {shop : Workshop} {busy : List Nat} {n : Node}

theorem owned (traced : Traced shop busy n) : ∀ c ∈ n.owned, Traced shop (n.pending busy c) c := by
  cases traced with
  | intro _ _ below => exact below

theorem typed (traced : Traced shop busy n) {t : Typing} (typing : n.typing = some t) :
    ∃ s ∈ shop.schema.all, n.statement = s.id ∧ ∃ type, s.sub? "type" = some type ∧ n.TypedAs shop busy s type t := by
  cases traced with
  | intro _ typed _ => exact typed t typing

/-- What a leafref leads to: all that its node owns. -/
theorem followed (traced : Traced shop busy n) {id : Nat} (follows : n.reference? = some id) :
    ∃ r, n.owned = [r] ∧ r.id = id ∧ r.statement ∉ busy ∧ Traced shop (r.statement :: busy) r ∧
      ∃ s ∈ shop.schema.all, n.statement = s.id ∧ ∃ type, s.sub? "type" = some type ∧
        type.name = "leafref" ∧ shop.schema.targets.lookup type.id = some r.statement := by
  obtain ⟨t, typing, isFollowed⟩ := Option.bind_eq_some_iff.1 follows
  obtain ⟨s, known, statement, type, isType, typedAs⟩ := traced.typed typing
  obtain ⟨r, owned, atId, isLeafref, isTarget, notBusy⟩ := typedAs.followed id isFollowed
  have traced' := traced.owned r (owned ▸ List.mem_singleton_self r)
  rw [Node.pending, follows, atId, if_pos rfl] at traced'
  exact ⟨r, owned, atId, notBusy, traced', s, known, statement, type, isType, isLeafref, isTarget⟩

end Traced

/-- The type of a node that leads nowhere is its own. -/
theorem Node.referent_of_last (last : n.reference? = none) : n.referent = n := by
  cases n
  rw [Node.reference?] at last
  rw [Node.referent, last]

/-- The type of a leafref is that of the node that it leads to. -/
theorem Node.referent_of_owned (owned : n.owned = [r]) (follows : n.reference? = some r.id) :
    n.referent = r.referent := by
  cases n
  cases owned
  rw [Node.reference?] at follows
  rw [Node.referent, follows]
  simp [Node.referentIn?]

section Arranged

variable {shop : Workshop} {tree : SchemaNode} {m : Module} (arranged : m.Arranged shop tree)
  (kept : m.Kept shop)

include arranged in
/-- What holds of the trees and is handed down to what nodes own holds everywhere. -/
theorem Module.Arranged.listing_induction {holds : Node → Prop} (trees : ∀ n ∈ m.root :: m.definitions, holds n)
    (owned : ∀ b ∈ m.listing, holds b → ∀ c ∈ b.owned, holds c) : ∀ n ∈ m.listing, holds n := by
  intro n
  -- Owners have smaller numbers.
  induction isId : n.id using Nat.strongRecOn generalizing n with
  | _ id ih =>
    intro member
    cases owner_of_mem_listingOfAll _ member with
    | inl isTree => exact trees n isTree
    | inr owner =>
      obtain ⟨b, inListing, isOwned⟩ := owner
      have later := ((arranged.seated b inListing).below n isOwned).2.2
      exact owned b inListing (ih b.id (isId ▸ later) b rfl inListing) n isOwned

include arranged kept

theorem Module.Arranged.eq_owner {b b' c : Node} (member : b ∈ m.listing) (isOwned : c ∈ b.owned)
    (member' : b' ∈ m.listing) (parent : c.parent = some b'.id) : b' = b := by
  have below := ((arranged.seated b member).below c isOwned).1
  exact kept.eq_of_id_eq member' member (Option.some.inj (parent.symm.trans below.parent))

theorem Module.Arranged.encloses_owned {b c : Node} (member : b ∈ m.listing) (isOwned : c ∈ b.owned) :
    m.Encloses r c ↔ r = c ∨ m.Encloses r b := by
  constructor
  · intro encloses
    cases encloses with
    | self => exact .inl rfl
    | above inNodes parent above =>
      have same := arranged.eq_owner kept member isOwned (Module.mem_nodes_iff.1 inNodes) parent
      exact .inr (same ▸ above)
  · rintro (rfl | above)
    · exact .self
    · have below := ((arranged.seated b member).below c isOwned).1
      exact .above (Module.mem_nodes_iff.2 member) below.parent above

end Arranged

/-! ## Nodes around a node -/

/-- A model with all nodes in their places, made by following leafrefs. -/
structure Module.Followed (shop : Workshop) (tree : SchemaNode) (m : Module) : Prop where
  sound : shop.Sound
  standard : shop.Standard
  refers : shop.schema.RefersFromLeafs
  kept : m.Kept shop
  arranged : m.Arranged shop tree
  trees : ∀ n ∈ m.root :: m.definitions, Traced shop [] n

namespace Module.Followed

variable {shop : Workshop} {tree : SchemaNode} {m : Module} (followed : m.Followed shop tree)
include followed

theorem exists_traced : ∀ n ∈ m.listing, ∃ busy, Traced shop busy n := by
  refine followed.arranged.listing_induction (fun n isTree => ⟨[], followed.trees n isTree⟩) ?_
  rintro b - ⟨busy, traced⟩ c isOwned
  exact ⟨_, traced.owned c isOwned⟩

theorem owned_of_reference (member : n ∈ m.listing) (inListing : r ∈ m.listing) (follows : n.reference? = some r.id) :
    n.owned = [r] := by
  obtain ⟨busy, traced⟩ := followed.exists_traced n member
  obtain ⟨r', owned, atId, -⟩ := traced.followed follows
  have inListing' : r' ∈ m.listing :=
    mem_listingOfAll_owned (owned ▸ List.mem_singleton_self r') _ member
  rw [owned, followed.kept.eq_of_id_eq inListing' inListing atId]

theorem isReference_owned {b c : Node} (member : b ∈ m.listing) (isOwned : c ∈ b.owned) :
    m.IsReference c ↔ b.reference? = some c.id := by
  have inListing : c ∈ m.listing := mem_listingOfAll_owned isOwned _ member
  constructor
  · rintro ⟨-, n, inNodes, follows⟩
    rw [Module.mem_nodes_iff] at inNodes
    have owned := followed.owned_of_reference inNodes inListing follows
    have below := (followed.arranged.seated n inNodes).below c (owned ▸ List.mem_singleton_self c)
    rwa [followed.arranged.eq_owner followed.kept member isOwned inNodes below.1.parent] at follows
  · exact fun follows =>
      ⟨Module.mem_nodes_iff.2 inListing, b, Module.mem_nodes_iff.2 member, follows⟩

/-- No reference node is around the module or a definition. -/
theorem not_encloses_tree (isTree : n ∈ m.root :: m.definitions) (isReference : m.IsReference r) :
    ¬ m.Encloses r n := by
  obtain ⟨inNodes, b, inNodes', follows⟩ := isReference
  rw [Module.mem_nodes_iff] at inNodes inNodes'
  have owned := followed.owned_of_reference inNodes' inNodes follows
  obtain ⟨below, notShared, -⟩ :=
    (followed.arranged.seated b inNodes').below r (owned ▸ List.mem_singleton_self r)
  have notRoot : ¬ m.Encloses r m.root := by
    intro encloses
    cases encloses with
    | self => cases followed.arranged.parent.symm.trans below.parent
    | above _ parent _ => cases followed.arranged.parent.symm.trans parent
  intro encloses
  -- A definition has the module as its parent, and around the module there is nothing.
  cases List.mem_cons.1 isTree with
  | inl isRoot => exact notRoot (isRoot ▸ encloses)
  | inr isDefinition =>
    obtain ⟨atTop, shared⟩ := followed.arranged.definitions n isDefinition
    cases encloses with
    | self => rw [notShared] at shared; cases shared
    | @above b' _ member parent above =>
      have atRoot : b'.id = m.root.id := by
        rw [followed.arranged.id]
        exact Option.some.inj (parent.symm.trans atTop.parent)
      have isRoot := followed.kept.eq_of_id_eq (Module.mem_nodes_iff.1 member) Module.root_mem_listing atRoot
      exact notRoot (isRoot ▸ above)

/-- The targets that were being made when a node was made are those of the reference nodes around it. -/
theorem exists_busy : ∀ n ∈ m.listing, ∃ busy, Traced shop busy n ∧
    ∀ x, x ∈ busy ↔ ∃ r, m.IsReference r ∧ m.Encloses r n ∧ r.statement = x := by
  refine followed.arranged.listing_induction ?_ ?_
  · intro n isTree
    refine ⟨[], followed.trees n isTree, fun x => ⟨by simp, ?_⟩⟩
    rintro ⟨r, isReference, encloses, -⟩
    exact absurd encloses (followed.not_encloses_tree isTree isReference)
  · rintro b member ⟨busy, traced, around⟩ c isOwned
    have enclosed := fun r => followed.arranged.encloses_owned followed.kept (r := r) member isOwned
    have isReference := followed.isReference_owned member isOwned
    refine ⟨_, traced.owned c isOwned, fun x => ?_⟩
    -- Below `b` a statement is added just for the node that `b` leads to.
    calc x ∈ b.pending busy c
      _ ↔ b.reference? = some c.id ∧ c.statement = x ∨ x ∈ busy := by
        unfold Node.pending
        by_cases follows : b.reference? = some c.id
        · rw [if_pos follows, List.mem_cons, and_iff_right follows, eq_comm]
        · rw [if_neg follows, iff_false_intro (not_and_of_not_left _ follows), false_or]
      _ ↔ ∃ r, m.IsReference r ∧ m.Encloses r c ∧ r.statement = x := by
        rw [around]
        constructor
        · rintro (⟨follows, statement⟩ | ⟨r, ofLeafref, above, statement⟩)
          · exact ⟨c, isReference.2 follows, .self, statement⟩
          · exact ⟨r, ofLeafref, (enclosed r).2 (.inr above), statement⟩
        · rintro ⟨r, ofLeafref, encloses, statement⟩
          rcases (enclosed r).1 encloses with rfl | above
          · exact .inl ⟨isReference.1 ofLeafref, statement⟩
          · exact .inr ⟨r, ofLeafref, above, statement⟩

/-- A reference node around a node with a type is a leafref that leads on, or the node itself. -/
theorem reference_of_encloses (isReference : m.IsReference r) (encloses : m.Encloses r n) :
    n ∈ m.listing → n.typing.isSome → r = n ∨ r.reference?.isSome := by
  induction encloses with
  | self => exact fun _ _ => .inl rfl
  | @above b n inNodes parent above ih =>
    intro inListing isTyped
    apply Or.inr
    rw [Module.mem_nodes_iff] at inNodes
    cases owner_of_mem_listingOfAll _ inListing with
    | inl isTree =>
      refine absurd (Module.Encloses.above (Module.mem_nodes_iff.2 inNodes) parent above) ?_
      exact followed.not_encloses_tree isTree isReference
    | inr owner =>
      obtain ⟨b', inListing', isOwned⟩ := owner
      obtain rfl := followed.arranged.eq_owner followed.kept inListing' isOwned inNodes parent
      obtain ⟨busy, traced, around⟩ := followed.exists_busy b inNodes
      have isBusy : r.statement ∈ busy := (around _).2 ⟨r, isReference, above, rfl⟩
      have notUntyped : ∀ {c : Node}, c.typing.isSome → ¬ c.Untyped := by
        rintro c isSome ⟨typing, -⟩
        rw [typing] at isSome
        cases isSome
      -- While something is being made, nodes are made only for types: `b` has one, or none is below it.
      cases traced with
      | intro forType typed below =>
        rcases forType with rfl | isSome | ⟨-, untyped⟩
        · cases isBusy
        · obtain ⟨t, typing⟩ := Option.isSome_iff_exists.1 isSome
          obtain ⟨s, -, -, type, -, typedAs⟩ := typed t typing
          have follows := (typedAs.apart n isOwned).resolve_left (notUntyped isTyped)
          rcases ih inNodes isSome with rfl | leadsOn
          · rw [Node.reference?, typing, Option.bind_some, follows]
            rfl
          · exact leadsOn
        · exact absurd (untyped n isOwned) (notUntyped isTyped)

/-! ## What chains are like -/

/-- A chain passes no statement twice, and none whose node is being made. -/
theorem nodup_of_traced {chain : List Node} (isChain : m.Chain n chain) :
    ∀ {busy}, n ∈ m.listing → Traced shop busy n →
      (chain.map (·.statement)).Nodup ∧ ∀ x ∈ chain.map (·.statement), x ∉ busy := by
  induction isChain with
  | nil => exact fun _ _ => ⟨List.nodup_nil, by simp⟩
  | @cons n r rest inNodes follows _ ih =>
    intro busy member traced
    rw [Module.mem_nodes_iff] at inNodes
    obtain ⟨r', owned, -, notBusy, traced', -⟩ := traced.followed follows
    obtain rfl : r = r' := by simpa [followed.owned_of_reference member inNodes follows] using owned
    -- The rest is made while the statement of `r` is, so that it does not come again.
    obtain ⟨nodup, apart⟩ := ih inNodes traced'
    refine ⟨List.nodup_cons.2 ⟨fun again => apart _ again List.mem_cons_self, nodup⟩, ?_⟩
    refine List.forall_mem_cons.2 ⟨notBusy, fun x inRest isBusy => ?_⟩
    exact apart x inRest (List.mem_cons_of_mem _ isBusy)

theorem nodup_of_chain (member : n ∈ m.listing) {chain : List Node} (isChain : m.Chain n chain) :
    (chain.map (·.statement)).Nodup := by
  obtain ⟨busy, traced⟩ := followed.exists_traced n member
  exact (followed.nodup_of_traced isChain member traced).1

section

variable {w : Node} (member : w ∈ m.listing) {s : Statement} (known : s ∈ shop.schema.all)
  (statement : w.statement = s.id)
include member known statement

theorem shows : Shows shop s w :=
  ((followed.kept.lawful w member).of_statement followed.sound.schema known statement).2.1

theorem shows_leaf (isLeaf : isLeafKeyword s.keyword) : w.name = s.name ∧ (w.kind = .leaf ∨ w.kind = .leafList) := by
  have shows := followed.shows member known statement
  rw [shows.kind (ne_type_of_isLeafKeyword isLeaf)]
  exact ⟨shows.name, followed.standard.kindOf_leaf isLeaf⟩

/-- A node that is to have a type has that of its statement, if there is one. -/
theorem typing_of_statement (notType : s.keyword ≠ "type")
    (part : partOf (shop.constructorFor s.keyword) = .typing) :
    s.sub? "type" = none ∧ w.typing = none ∨
    ∃ type t busy, s.sub? "type" = some type ∧ w.typing = some t ∧ w.TypedAs shop busy s type t ∧
      t.typedef = if isBuiltinType type.name then none else (shop.typedefIn m.ledger type).map (·.2) := by
  obtain ⟨records, shows, -⟩ := (followed.kept.lawful w member).of_statement followed.sound.schema known statement
  cases isType : s.sub? "type" with
  | none =>
    refine .inl ⟨rfl, Option.eq_none_iff_forall_ne_some.2 fun t typing => ?_⟩
    obtain ⟨type, found, -⟩ := records.typing t typing
    cases isType.symm.trans found
  | some type =>
    obtain ⟨t, typing, -⟩ := shows.typed notType part type isType
    obtain ⟨type', isType', typedef⟩ := records.typing t typing
    obtain rfl := Option.some.inj (isType.symm.trans isType')
    obtain ⟨busy, traced⟩ := followed.exists_traced w member
    obtain ⟨s', known', statement', type', isType'', typedAs⟩ := traced.typed typing
    obtain rfl := followed.sound.schema.eq_of_id_eq known' known (statement'.symm.trans statement)
    obtain rfl := Option.some.inj (isType.symm.trans isType'')
    exact .inr ⟨type, t, busy, rfl, typing, typedAs, typedef⟩

/-- A node of a leaf has the type of the leaf, if there is one. -/
theorem typing_of_leaf (isLeaf : isLeafKeyword s.keyword) :
    s.sub? "type" = none ∧ w.typing = none ∨
    ∃ type t, s.sub? "type" = some type ∧ w.typing = some t ∧
      t.builtin = (if isBuiltinType type.name then some type.name else none) ∧
      (isBuiltinType type.name → t.dataType = some (shop.dataType type.name)) ∧
      t.typedef = if isBuiltinType type.name then none else (shop.typedefIn m.ledger type).map (·.2) := by
  refine (followed.typing_of_statement member known statement (ne_type_of_isLeafKeyword isLeaf)
    (followed.standard.lookup?_leaf isLeaf).2).imp_right ?_
  rintro ⟨type, t, busy, isType, typing, typedAs, typedef⟩
  exact ⟨type, t, isType, typing, typedAs.builtin, typedAs.dataType, typedef⟩

end

theorem chained : m.Chained shop.schema where
  reference := by
    intro n inNodes id follows
    rw [Module.mem_nodes_iff] at inNodes
    obtain ⟨busy, traced⟩ := followed.exists_traced n inNodes
    obtain ⟨r, owned, atId, -, -, s, known, statement, type, isType, -, isTarget⟩ := traced.followed follows
    have isOwned : r ∈ n.owned := owned ▸ List.mem_singleton_self r
    obtain ⟨below, -, later⟩ := (followed.arranged.seated n inNodes).below r isOwned
    refine ⟨r, Module.mem_nodes_iff.2 (mem_listingOfAll_owned isOwned _ inNodes), atId, later, below.parent, ?_⟩
    rw [statement, followed.sound.schema.leafTarget?_eq known isType, isTarget]
  distinct n inNodes chain isChain := followed.nodup_of_chain (Module.mem_nodes_iff.1 inNodes) isChain
  finite := by
    intro n inNodes chain isChain
    have nodup := (followed.nodup_of_chain (Module.mem_nodes_iff.1 inNodes) isChain).of_map
    exact (nodup.subperm isChain.subset).length_le
  cut := by
    intro n inNodes target isTarget
    rw [Module.mem_nodes_iff] at inNodes
    obtain ⟨s, known, atId, isLeaf, type, isType, isLeafref⟩ :=
      Resolved.leafTarget?_spec followed.refers isTarget
    obtain ⟨noType, -⟩ | ⟨type', t, isType', typing, builtin, -⟩ :=
      followed.typing_of_leaf inNodes known atId.symm isLeaf
    · cases isType.symm.trans noType
    obtain rfl := Option.some.inj (isType.symm.trans isType')
    have form : t.form = .leafref := by
      rw [isLeafref] at builtin
      rw [Typing.form, builtin]
      rfl
    refine ⟨t, typing, form, ?_⟩
    obtain ⟨busy, traced, around⟩ := followed.exists_busy n inNodes
    obtain ⟨s', known', statement, type', isType'', typedAs⟩ := traced.typed typing
    rw [statement, followed.sound.schema.leafTarget?_eq known' isType''] at isTarget
    rw [← around]
    constructor
    · exact fun notFollowed => typedAs.cut notFollowed target isTarget
    · intro isBusy
      cases isFollowed : t.reference with
      | none => rfl
      | some id =>
        obtain ⟨r, -, -, -, isTarget', notBusy⟩ := typedAs.followed id isFollowed
        cases isTarget.symm.trans isTarget'
        exact absurd isBusy notBusy

/-- A node of a leaf that is no leafref leads nowhere. -/
theorem reference?_eq_none {w : Node} (member : w ∈ m.listing) {s : Statement} (known : s ∈ shop.schema.all)
    (statement : w.statement = s.id) (notLeafref : (s.sub? "type").map (·.name) ≠ some "leafref") :
    w.reference? = none := by
  refine Option.eq_none_iff_forall_ne_some.2 fun id follows => ?_
  obtain ⟨busy, traced⟩ := followed.exists_traced w member
  obtain ⟨-, -, -, -, -, s', known', statement', type, isType, isLeafref, -⟩ := traced.followed follows
  obtain rfl := followed.sound.schema.eq_of_id_eq known' known (statement'.symm.trans statement)
  exact notLeafref (by rw [isType, Option.map_some, isLeafref])

/-- A leafref whose target is no leafref leads to it. -/
theorem reference_of_target (member : n ∈ m.listing) {target : Nat}
    (isTarget : shop.schema.leafTarget? n.statement = some target) {s : Statement} (known : s ∈ shop.schema.all)
    (atId : s.id = target) (notLeafref : (s.sub? "type").map (·.name) ≠ some "leafref") :
    ∃ r, n.owned = [r] ∧ n.reference? = some r.id ∧ r.statement = target := by
  obtain ⟨t, typing, -, cut⟩ := followed.chained.cut n (Module.mem_nodes_iff.2 member) target isTarget
  obtain ⟨busy, traced⟩ := followed.exists_traced n member
  -- A node of the target around the leafref would be one itself.
  have isFollowed : t.reference ≠ none := by
    intro notFollowed
    obtain ⟨r, isReference, encloses, statement⟩ := cut.1 notFollowed
    rcases followed.reference_of_encloses isReference encloses member (by rw [typing]; rfl) with rfl | leadsOn
    · obtain ⟨s', known', atId', -, type, isType, isLeafref⟩ := Resolved.leafTarget?_spec followed.refers isTarget
      obtain rfl := followed.sound.schema.eq_of_id_eq known' known (atId'.trans (statement.trans atId.symm))
      exact notLeafref (by rw [isType, Option.map_some, isLeafref])
    · have inListing := Module.mem_nodes_iff.1 isReference.1
      rw [followed.reference?_eq_none inListing known (statement.trans atId.symm) notLeafref] at leadsOn
      cases leadsOn
  obtain ⟨id, isReference⟩ := Option.ne_none_iff_exists'.1 isFollowed
  have follows : n.reference? = some id := by rw [Node.reference?, typing, Option.bind_some, isReference]
  obtain ⟨r, owned, rfl, -, -, s', known', statement, type', isType', -, isTarget'⟩ := traced.followed follows
  rw [statement, followed.sound.schema.leafTarget?_eq known' isType'] at isTarget
  exact ⟨r, owned, follows, Option.some.inj (isTarget'.symm.trans isTarget)⟩

end Module.Followed

/-- The model of a module is made by following leafrefs. -/
theorem build_followed {texts : List String} {sources : List Source} {files : FileTree} {schema : Resolved}
    (resolved : ((Library.ofTexts texts).resolve sources files).result = .ok schema) {backend : Backend}
    {m : String × SchemaNode} (isModule : m ∈ schema.modules)
    (standard : (shopOf schema backend m.2).Standard) :
    (Module.build schema backend m.2).1.Followed (shopOf schema backend m.2) m.2 := by
  have sound := (Library.sound_ofTexts texts).schema_sound resolved
  have refers := resolve_refersFromLeafs resolved
  exact {
    sound := ⟨sound, rfl⟩
    standard := standard
    refers := refers
    kept := build_kept sound backend isModule
    arranged := build_arranged sound backend isModule
    trees := build_traced sound refers isModule standard }

end YangStubs.Model
