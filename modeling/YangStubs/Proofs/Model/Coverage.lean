import YangStubs.Proofs.Model.Module

/-! # What a model has nodes for

Building a module makes nodes of its tree, of the definitions at its top whether they are referred to or not,
and of all definitions that these refer to.  Nothing is left out, as far as the backend has constructors and
definitions can be told apart by their keys.
-/

namespace YangStubs.Model

open YangStubs.Schema
open Node (listingOfAll)

/-! ## Nodes below nodes -/

theorem mem_listingOfAll_of_mem {c : Node} {l : List Node} (member : c ∈ l) : c ∈ listingOfAll l := by
  induction l with
  | nil => exact absurd member List.not_mem_nil
  | cons tree rest ih =>
    rw [Node.listingOfAll_cons, Node.listing_eq]
    cases List.mem_cons.1 member with
    | inl same => simp [same]
    | inr later => simp [ih later]

mutual
theorem mem_listing_owned {n c : Node} (isOwned : c ∈ n.owned) :
    ∀ tree : Node, n ∈ tree.listing → c ∈ tree.listing
  | ⟨_, _, _, _, _, _, _, _, _, _, _, _, _, owned⟩, inside => by
    rw [Node.listing_eq, List.mem_cons] at inside ⊢
    cases inside with
    | inl same =>
      subst same
      exact .inr (mem_listingOfAll_of_mem isOwned)
    | inr below => exact .inr (mem_listingOfAll_owned isOwned owned below)

theorem mem_listingOfAll_owned {n c : Node} (isOwned : c ∈ n.owned) :
    ∀ l : List Node, n ∈ listingOfAll l → c ∈ listingOfAll l
  | [], inside => absurd inside List.not_mem_nil
  | tree :: rest, inside => by
    rw [Node.listingOfAll_cons, List.mem_append] at inside ⊢
    exact inside.imp (mem_listing_owned isOwned tree) (mem_listingOfAll_owned isOwned rest)
end

/-! ## Covered schema nodes -/

/-- No other definition of the keyword has the key. -/
def Definition.Distinct (shop : Workshop) (d : Definition) : Prop :=
  ∀ d' ∈ shop.definitions, d'.node.keyword = d.node.keyword → d'.key = d.key → d' = d

/-- The links to definitions that making a node of a schema node follows, with the keywords of these. -/
def Workshop.linksOf (shop : Workshop) (x : SchemaNode) : List (String × Option Nat) :=
  match partOf (shop.constructorFor x.keyword) with
  | .members => (shop.usesOf x.statement).map fun u => ("grouping", u.grouping)
  | .typing => (derivedTypes x.statement).map fun t => ("typedef", t.typedef)
  | .nothing => []

/-- The schema nodes that the model of a module has nodes for: its tree, the definitions at its top, and
    what is below or referred to by these. -/
inductive Covered (shop : Workshop) (tree : SchemaNode) : SchemaNode → Prop
  | root : Covered shop tree tree
  | atTop {s : Statement} {d : Definition} (sub : s ∈ tree.statement.subs) (shared : isShared s.keyword)
      (served : (shop.backend.lookup? s.keyword).isSome) (found : shop.definition? s.id = some d)
      (distinct : d.Distinct shop) : Covered shop tree d.node
  | under {x c : SchemaNode} (above : Covered shop tree x)
      (opens : partOf (shop.constructorFor x.keyword) = .members) (isChild : c ∈ x.children)
      (served : (shop.backend.lookup? c.keyword).isSome) : Covered shop tree c
  | linked {x : SchemaNode} {keyword : String} {link : Option Nat} {d : Definition}
      (above : Covered shop tree x) (isLink : (keyword, link) ∈ shop.linksOf x)
      (served : (shop.backend.lookup? keyword).isSome) (found : link.bind shop.definition? = some d)
      (distinct : d.Distinct shop) : Covered shop tree d.node

theorem derivedTypes_known {schema : Resolved} {s t : Statement} (known : s ∈ schema.all)
    (isType : t ∈ derivedTypes s) : t ∈ schema.all := by
  obtain ⟨type, isOwn, isMember⟩ := List.mem_flatMap.1 isType
  have typeKnown := Resolved.Sound.subs_known known (sub?_spec (Option.mem_toList.1 isOwn)).1
  obtain ⟨isMember, -⟩ := List.mem_filter.1 isMember
  split at isMember
  · exact Resolved.Sound.subs_known typeKnown (mem_subsWith isMember).1
  · exact List.mem_singleton.1 isMember ▸ typeKnown

theorem Workshop.Sound.linked_spec {shop : Workshop} (sound : shop.Sound) {x : SchemaNode}
    (known : x.statement ∈ shop.schema.all) {keyword : String} {link : Option Nat}
    (isLink : (keyword, link) ∈ shop.linksOf x) {d : Definition}
    (found : link.bind shop.definition? = some d) : d ∈ shop.definitions ∧ d.node.keyword = keyword := by
  unfold Workshop.linksOf at isLink
  split at isLink
  · obtain ⟨u, isUses, same⟩ := List.mem_map.1 isLink
    cases same
    exact sound.grouping_of_uses (usesOf_known sound known u isUses) found
  · obtain ⟨t, isType, same⟩ := List.mem_map.1 isLink
    cases same
    exact sound.typedef_of_type (derivedTypes_known known isType) found
  · cases isLink

/-- A node says what the statement says that it has the number of. -/
theorem Lawful.of_statement {shop : Workshop} {ledger : List LedgerEntry} {w : Node} (lawful : Lawful shop ledger w)
    (sound : shop.schema.Sound) {s : Statement} (known : s ∈ shop.schema.all) (atId : w.statement = s.id) :
    Records shop ledger s w ∧ Shows shop s w ∧ Lists shop ledger s w := by
  obtain ⟨⟨r, recorded, sameId, -, records⟩, -, ⟨t, shown, sameId', shows⟩, ⟨u, listed, sameId'', lists⟩⟩ := lawful
  refine ⟨?_, ?_, ?_⟩
  · exact sound.eq_of_id_eq recorded known (sameId.symm.trans atId) ▸ records
  · exact sound.eq_of_id_eq shown known (sameId'.symm.trans atId) ▸ shows
  · exact sound.eq_of_id_eq listed known (sameId''.symm.trans atId) ▸ lists

section Build

variable {schema : Resolved} (sound : schema.Sound) (backend : Backend) {m : String × SchemaNode}
  (isModule : m ∈ schema.modules)
include sound isModule

theorem Covered.proper {z : SchemaNode} (covered : Covered (shopOf schema backend m.2) m.2 z) :
    Proper schema z ∧ z.keyword ≠ "type" := by
  have shopSound : (shopOf schema backend m.2).Sound := ⟨sound, rfl⟩
  have ofDefinition : ∀ d ∈ (shopOf schema backend m.2).definitions,
      Proper schema d.node ∧ d.node.keyword ≠ "type" := by
    intro d member
    obtain ⟨-, isShared, proper⟩ := shopSound.mem_definitions member
    refine ⟨proper, fun isType => ?_⟩
    rw [isType] at isShared
    exact absurd isShared (by decide)
  induction covered with
  | root =>
    refine ⟨proper_of_module sound isModule, ?_⟩
    rw [(sound.modules m isModule).2.1]
    decide
  | atTop sub shared served found distinct => exact ofDefinition _ (shopSound.definition?_eq_some.1 found).1
  | under above opens isChild served ih =>
    obtain ⟨proper, -⟩ := ih
    cases proper with
    | intro _ _ tree below =>
      refine ⟨below _ isChild, fun isType => ?_⟩
      have isTree := tree _ isChild
      rw [isType] at isTree
      exact absurd isTree (by decide)
  | linked above isLink served found distinct ih =>
    exact ofDefinition _ (shopSound.linked_spec ih.1.known isLink found).1

/-- A node of the model says what the statement says that it has the number of. -/
theorem lawful_of_statement {w : Node} (inListing : w ∈ (Module.build schema backend m.2).1.listing)
    {s : Statement} (known : s ∈ schema.all) (atId : w.statement = s.id) :
    let shop := shopOf schema backend m.2
    let ledger := (Module.build schema backend m.2).1.ledger
    Records shop ledger s w ∧ Shows shop s w ∧ Lists shop ledger s w :=
  ((build_kept sound backend isModule).lawful w inListing).of_statement sound known atId

/-- A definition that is listed has a node of its own, if it can be told apart. -/
theorem exists_node_of_listed {keyword : String} {link : Option Nat} {d : Definition}
    (listed : Listed (shopOf schema backend m.2) (Module.build schema backend m.2).1.ledger keyword link)
    (served : (backend.lookup? keyword).isSome)
    (found : link.bind (shopOf schema backend m.2).definition? = some d)
    (member : d ∈ (shopOf schema backend m.2).definitions) (isOf : d.node.keyword = keyword)
    (distinct : d.Distinct (shopOf schema backend m.2)) :
    ∃ w ∈ (Module.build schema backend m.2).1.listing, w.statement = d.node.id := by
  have shopSound : (shopOf schema backend m.2).Sound := ⟨sound, rfl⟩
  have kept := build_kept sound backend isModule
  have shared : isShared keyword := isOf ▸ (shopSound.mem_definitions member).2.1
  obtain ⟨e, entered⟩ := Option.isSome_iff_exists.1 (listed d found served)
  obtain ⟨inLedger, isKeyword, isKey⟩ := entered?_spec entered
  obtain ⟨w, inListing, rfl⟩ := (kept.entry_mem_iff shared isKeyword).1 inLedger
  have sharedNode : isShared w.keyword := by
    rw [show w.keyword = keyword from isKeyword]
    exact shared
  -- The entry is that of some definition with the key, and there is only one.
  obtain ⟨d', isDefinition, atId, key, ofNode⟩ := kept.definition shopSound inListing sharedNode
  have isOwn : d' = d :=
    distinct d' isDefinition (ofNode.trans (isKeyword.trans isOf.symm)) (key.trans isKey)
  exact ⟨w, inListing, by rw [← atId, isOwn]⟩

/-- A node of the model lists the definitions that the links of its schema node lead to. -/
theorem listed_of_link {x : SchemaNode} (proper : Proper schema x) (notType : x.keyword ≠ "type") {w : Node}
    (inListing : w ∈ (Module.build schema backend m.2).1.listing) (atId : w.statement = x.id)
    {keyword : String} {link : Option Nat} (isLink : (keyword, link) ∈ (shopOf schema backend m.2).linksOf x) :
    Listed (shopOf schema backend m.2) (Module.build schema backend m.2).1.ledger keyword link := by
  obtain ⟨-, shows, lists⟩ := lawful_of_statement sound backend isModule inListing proper.known atId
  unfold Workshop.linksOf at isLink
  split at isLink
  · obtain ⟨u, isUses, same⟩ := List.mem_map.1 isLink
    cases same
    exact lists.uses (shows.opened notType ‹_›) u isUses
  · obtain ⟨t, isType, same⟩ := List.mem_map.1 isLink
    cases same
    refine lists.types ?_ t isType
    obtain ⟨type, isOwn, -⟩ := List.mem_flatMap.1 isType
    obtain ⟨typing, isTyping, -⟩ := shows.typed notType ‹_› type (Option.mem_toList.1 isOwn)
    exact Option.isSome_of_eq_some isTyping
  · cases isLink

/-- Every covered schema node has a node in the model. -/
theorem build_covers {z : SchemaNode} (covered : Covered (shopOf schema backend m.2) m.2 z) :
    ∃ w ∈ (Module.build schema backend m.2).1.listing, w.statement = z.id := by
  have shopSound : (shopOf schema backend m.2).Sound := ⟨sound, rfl⟩
  obtain ⟨rootStatement, listed⟩ := build_listed sound backend isModule
  induction covered with
  | root =>
    exact ⟨_, mem_listingOfAll_of_mem List.mem_cons_self, rootStatement⟩
  | @atTop s d sub shared served found distinct =>
    have rootKnown := (Covered.root.proper sound backend isModule).1.known
    obtain ⟨member, same⟩ := shopSound.keyword_of_link (Resolved.Sound.subs_known rootKnown sub) found
    exact exists_node_of_listed sound backend isModule (listed s sub shared) served found member same distinct
  | @under x c above opens isChild served ih =>
    obtain ⟨proper, notType⟩ := above.proper sound backend isModule
    obtain ⟨w, inListing, atId⟩ := ih
    obtain ⟨-, shows, -⟩ := lawful_of_statement sound backend isModule inListing proper.known atId
    have isOpen := shows.opened notType opens
    rw [← proper.own] at isChild
    obtain ⟨made, isOwned, sameId⟩ := shows.below isOpen c isChild served
    exact ⟨made, mem_listingOfAll_owned isOwned _ inListing, sameId⟩
  | @linked x keyword link d above isLink served found distinct ih =>
    -- Making the node of `x` has followed its links, and the ledger only grows.
    obtain ⟨proper, notType⟩ := above.proper sound backend isModule
    obtain ⟨w, inListing, atId⟩ := ih
    obtain ⟨member, isOf⟩ := shopSound.linked_spec proper.known isLink found
    exact exists_node_of_listed sound backend isModule
      (listed_of_link sound backend isModule proper notType inListing atId isLink) served found member isOf
      distinct

end Build

end YangStubs.Model
