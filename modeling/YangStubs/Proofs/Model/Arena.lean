import YangStubs.Proofs.Model.Placement

/-! # Nodes by number and by key

The nodes of a model are numbered in the order of their creation, the node of the module first, and every
other node is below one with a smaller number.  The ledger finds the first node of each key.
-/

namespace YangStubs.Model

open YangStubs.Schema
open Node (listingOfAll)

variable {n : Node}

/-! ## Building in place -/

section Steps

variable {shop : Workshop} {make : Maker}

theorem buildRoot_seats (sound : shop.Sound) (makes : MakesBelow shop make) {tree : SchemaNode}
    (proper : Proper shop.schema tree) (isModule : tree.keyword = "module") (p : Progress) :
    Leaves (buildRoot shop make tree) p fun root q =>
      Seats shop p root.listing q ∧ root.IsOf tree ∧ root.id = p.next ∧ root.parent = none ∧ root.key = tree.name := by
  have unreferenced : ∀ keyword, Keeps (fun p q => Seats shop p [] q) (makeUnreferenced shop make keyword _) :=
    fun keyword => makeUnreferenced_lasts (seats_lasting shop) sound (makeDefinition_seats sound makes [] keyword) _
      (subsWith_known proper.known _)
  have quiet : Lasting fun p q => Seats shop p [] q ∧ q.next = p.next :=
    ⟨fun ledger next definitions _ => ⟨.idle ledger next definitions, next⟩,
      fun first second => ⟨first.1.trans second.1, second.2.trans first.2⟩⟩
  unfold buildRoot
  refine (report_lasts quiet _ _ _ p).bind ?_
  rintro - q₁ ⟨seats₁, sameNext⟩
  have constructed := construct_madeAt sound makes [] tree none q₁ proper (.inl isModule)
  rw [isModule] at constructed
  refine constructed.bind fun root q₂ made => ?_
  refine (unreferenced "grouping" q₂).bind fun _ q₃ seats₃ => ?_
  refine (unreferenced "typedef" q₃).bind fun _ q₄ seats₄ => .pure ?_
  have all := ((seats₁.trans made.seats).trans seats₃).trans seats₄
  exact ⟨by simpa using all, made.isOf, made.id.trans sameNext, made.parent, made.key⟩

end Steps

/-- A model with all nodes in their places and found by the ledger. -/
structure Module.Arranged (shop : Workshop) (tree : SchemaNode) (m : Module) : Prop where
  isOf : m.root.IsOf tree
  id : m.root.id = 1
  parent : m.root.parent = none
  key : m.root.key = tree.name
  definitions : ∀ d ∈ m.definitions, d.Below ⟨1, tree.name⟩ ∧ isShared d.keyword
  seated : ∀ n ∈ m.listing, n.Seated shop
  entered : ∀ e ∈ m.ledger, ∃ n ∈ m.listing, n.entry = e ∧ n.isListed
  first : ∀ n ∈ m.listing, n.isListed → ∃ e ∈ m.ledger, e.address = n.entry.address ∧ e.node ≤ n.id

theorem build_arranged {schema : Resolved} (sound : schema.Sound) (backend : Backend)
    {m : String × SchemaNode} (isModule : m ∈ schema.modules) :
    (Module.build schema backend m.2).1.Arranged (shopOf schema backend m.2) m.2 := by
  have shopSound : (shopOf schema backend m.2).Sound := ⟨sound, rfl⟩
  obtain ⟨-, ⟨entries, definitions, atEnd, atTop, filing⟩, isOf, id, parent, key⟩ :=
    buildRoot_seats shopSound (makeWithin_makesBelow shopSound (jumpBound schema))
      (proper_of_module sound isModule) (sound.modules m isModule).2.1 ⟨1, [], [], [], []⟩
  rw [List.nil_append] at atEnd
  have ledger := filing.ledger
  rw [List.nil_append] at ledger
  subst atEnd ledger
  rw [build_eq]
  exact ⟨isOf, id, parent, key, atTop, filing.seated, filing.entered, filing.first (by simp [Progress.Numbered])⟩

/-! ## Climbing -/

mutual
theorem owner_of_mem_listing {n : Node} :
    ∀ tree : Node, n ∈ tree.listing → n = tree ∨ ∃ b ∈ tree.listing, n ∈ b.owned
  | ⟨_, _, _, _, _, _, _, _, _, _, _, _, _, owned⟩, inside => by
    rw [Node.listing_eq, List.mem_cons] at inside
    cases inside with
    | inl same => exact .inl same
    | inr below =>
      apply Or.inr
      cases owner_of_mem_listingOfAll owned below with
      | inl isOwned => exact ⟨_, by rw [Node.listing_eq]; exact List.mem_cons_self, isOwned⟩
      | inr deeper =>
        obtain ⟨b, inBelow, isOwned⟩ := deeper
        exact ⟨b, by rw [Node.listing_eq]; exact List.mem_cons_of_mem _ inBelow, isOwned⟩

/-- A node among trees is one of them, or some node owns it. -/
theorem owner_of_mem_listingOfAll {n : Node} :
    ∀ trees : List Node, n ∈ listingOfAll trees → n ∈ trees ∨ ∃ b ∈ listingOfAll trees, n ∈ b.owned
  | [], inside => absurd inside List.not_mem_nil
  | tree :: rest, inside => by
    rw [Node.listingOfAll_cons, List.mem_append] at inside
    cases inside with
    | inl here =>
      cases owner_of_mem_listing tree here with
      | inl same => exact .inl (same ▸ List.mem_cons_self)
      | inr owner =>
        obtain ⟨b, inTree, isOwned⟩ := owner
        exact .inr ⟨b, List.mem_append_left _ inTree, isOwned⟩
    | inr later =>
      cases owner_of_mem_listingOfAll rest later with
      | inl member => exact .inl (List.mem_cons_of_mem _ member)
      | inr owner =>
        obtain ⟨b, inRest, isOwned⟩ := owner
        exact .inr ⟨b, List.mem_append_right _ inRest, isOwned⟩
end

namespace Module

variable {shop : Workshop} {tree : SchemaNode} {m : Module}

theorem root_mem_listing : m.root ∈ m.listing :=
  mem_listingOfAll_of_mem List.mem_cons_self

theorem Kept.one_le (kept : m.Kept shop) (member : n ∈ m.listing) : 1 ≤ n.id := by
  have numbered := kept.ids.mem_iff.1 (List.mem_map_of_mem member)
  simp only [List.mem_range'_1] at numbered
  exact numbered.1

theorem Kept.id_le (kept : m.Kept shop) (member : n ∈ m.listing) : n.id ≤ m.listing.length := by
  have numbered := kept.ids.mem_iff.1 (List.mem_map_of_mem member)
  simp only [List.mem_range'_1] at numbered
  omega

theorem Kept.eq_of_id_eq (kept : m.Kept shop) {n' : Node} (member : n ∈ m.listing) (member' : n' ∈ m.listing)
    (same : n.id = n'.id) : n = n' :=
  List.inj_on_of_nodup_map kept.ids_nodup member member' same

theorem Kept.node?_eq (kept : m.Kept shop) (member : n ∈ m.listing) : m.node? n.id = some n :=
  find?_key_eq kept.ids_nodup member

section

variable (arranged : m.Arranged shop tree) (kept : m.Kept shop)
include arranged kept

/-- Every node but that of the module is below another one, which came before it. -/
theorem Arranged.exists_below (member : n ∈ m.listing) (notRoot : n ≠ m.root) :
    ∃ b ∈ m.listing, n.Below b.place ∧ b.id < n.id ∧ (isShared n.keyword → b = m.root) := by
  cases owner_of_mem_listingOfAll _ member with
  | inr owner =>
    obtain ⟨b, inListing, isOwned⟩ := owner
    obtain ⟨below, notShared, later⟩ := (arranged.seated b inListing).below n isOwned
    exact ⟨b, inListing, below, later, by simp [notShared]⟩
  | inl isTree =>
    -- The other trees are definitions, and the first number is taken.
    have isDefinition : n ∈ m.definitions := (List.mem_cons.1 isTree).resolve_left notRoot
    have place : m.root.place = ⟨1, tree.name⟩ := by rw [Node.place, arranged.id, arranged.key]
    have positive := kept.one_le member
    have apart : n.id ≠ m.root.id := fun same => notRoot (kept.eq_of_id_eq member root_mem_listing same)
    rw [arranged.id] at apart
    refine ⟨m.root, root_mem_listing, place ▸ (arranged.definitions n isDefinition).1, ?_, fun _ => rfl⟩
    rw [arranged.id]
    omega

theorem Arranged.parent_eq_none_iff (member : n ∈ m.listing) : n.parent = none ↔ n = m.root := by
  constructor
  · intro noParent
    apply Classical.byContradiction
    intro notRoot
    obtain ⟨b, -, below, -⟩ := arranged.exists_below kept member notRoot
    rw [below.parent] at noParent
    cases noParent
  · rintro rfl
    exact arranged.parent

theorem Arranged.topWithin_eq (bound : Nat) : ∀ n ∈ m.listing, n.id ≤ bound → m.topWithin bound n.id = m.root.id := by
  induction bound with
  | zero =>
    intro n member within
    have positive := kept.one_le member
    omega
  | succ bound ih =>
    intro n member within
    rw [topWithin, kept.node?_eq member, Option.bind_some]
    by_cases isRoot : n = m.root
    · rw [isRoot, arranged.parent]
    · obtain ⟨b, inListing, below, earlier, -⟩ := arranged.exists_below kept member isRoot
      rw [below.parent]
      -- The numbers go down on the way up, so the bound is never used up.
      have within' : b.id ≤ bound := by omega
      exact ih b inListing within'

end

/-! ## Finding by key -/

theorem Arranged.isListed_iff (arranged : m.Arranged shop tree) (kept : m.Kept shop) (member : n ∈ m.listing) :
    n.isListed ↔ n ≠ m.root ∧ isUnlisted n.keyword = false := by
  have isRoot := arranged.parent_eq_none_iff kept member
  rw [Node.isListed, Bool.and_eq_true, Option.isSome_iff_ne_none, Ne, isRoot, Bool.not_eq_true']

theorem Kept.mem_ledgerOf {keyword key : String} {id : Nat} :
    (key, id) ∈ m.ledgerOf keyword ↔ ∃ e ∈ m.ledger, e.address = (keyword, key) ∧ e.node = id := by
  simp only [ledgerOf, List.mem_map, List.mem_filter, beq_iff_eq, Prod.mk.injEq, LedgerEntry.address, and_assoc]

/-- The node that the ledger has for a key: the first of those with the keyword and the key. -/
def IsFirst (m : Module) (keyword key : String) (n : Node) : Prop :=
  n ∈ m.nodes ∧ n ≠ m.root ∧ n.keyword = keyword ∧ n.key = key ∧
    ∀ n' ∈ m.nodes, n' ≠ m.root → n'.keyword = keyword → n'.key = key → n.id ≤ n'.id

theorem Arranged.mem_ledgerOf_iff (arranged : m.Arranged shop tree) (kept : m.Kept shop)
    {keyword key : String} {id : Nat} :
    (key, id) ∈ m.ledgerOf keyword ↔ isUnlisted keyword = false ∧ ∃ n, m.IsFirst keyword key n ∧ n.id = id := by
  have listing : ∀ {n}, n ∈ m.nodes ↔ n ∈ m.listing := (nodes_perm m).mem_iff
  rw [Kept.mem_ledgerOf]
  constructor
  · rintro ⟨e, inLedger, address, rfl⟩
    obtain ⟨n, member, rfl, isListed⟩ := arranged.entered e inLedger
    have isKeyword : n.keyword = keyword := congrArg Prod.fst address
    obtain ⟨notRoot, listed⟩ := (arranged.isListed_iff kept member).1 isListed
    refine ⟨isKeyword ▸ listed, n, ⟨listing.2 member, notRoot, isKeyword, congrArg Prod.snd address, ?_⟩, rfl⟩
    intro n' member' notRoot' isKeyword' isKey'
    rw [listing] at member'
    have isListed' := (arranged.isListed_iff kept member').2 ⟨notRoot', by rw [isKeyword', ← isKeyword]; exact listed⟩
    obtain ⟨e, inLedger', address', notLater⟩ := arranged.first n' member' isListed'
    -- There is one entry of the address only, so the earlier one is the one at hand.
    have sameAddress : e.address = n.entry.address :=
      address'.trans ((Prod.ext isKeyword' isKey').trans address.symm)
    have same := List.inj_on_of_nodup_map kept.steady.distinct inLedger' inLedger sameAddress
    rwa [same] at notLater
  · rintro ⟨listed, n, ⟨member, notRoot, rfl, rfl, isFirst⟩, rfl⟩
    rw [listing] at member
    have isListed := (arranged.isListed_iff kept member).2 ⟨notRoot, listed⟩
    obtain ⟨e, inLedger, address, notLater⟩ := arranged.first n member isListed
    obtain ⟨n', member', rfl, isListed'⟩ := arranged.entered e inLedger
    have notRoot' := ((arranged.isListed_iff kept member').1 isListed').1
    have notEarlier := isFirst n' (listing.2 member') notRoot' (congrArg Prod.fst address) (congrArg Prod.snd address)
    exact ⟨n'.entry, inLedger, address, Nat.le_antisymm notLater notEarlier⟩

end Module

/-! ## The whole arena -/

/-- The nodes of a model, by number and by key. -/
structure Module.IsArena (schema : Resolved) (m : Module) : Prop where
  /-- The node of the module comes first. -/
  first : m.nodes.head? = some m.root
  /-- It alone is below nothing. -/
  root : ∀ n ∈ m.nodes, n.parent = none ↔ n = m.root
  /-- Every other node is below one with a smaller number. -/
  parent : ∀ n ∈ m.nodes, n ≠ m.root → ∃ b ∈ m.nodes, n.parent = some b.id ∧ b.id < n.id
  top : ∀ n ∈ m.nodes, m.top n.id = m.root.id
  /-- A definition is below the module, known by its name and that of the statement it is defined in. -/
  shared : ∀ n ∈ m.nodes, n.keyword = "grouping" ∨ n.keyword = "typedef" → n.parent = some m.root.id ∧
    ∃ s ∈ Statement.listingOfAll none none schema.forest, s.statement.id = n.statement ∧
      n.key = (s.around.map (·.name)).getD "" ++ "/" ++ s.statement.name
  /-- Any other node is known by its path. -/
  path : ∀ n ∈ m.nodes, n.keyword ≠ "grouping" → n.keyword ≠ "typedef" →
    ∀ b ∈ m.nodes, n.parent = some b.id → n.key = b.key ++ "/" ++ n.name
  /-- The ledger finds the first node of each key, and none of some keywords. -/
  ledger : ∀ keyword key id, (key, id) ∈ m.ledgerOf keyword ↔
    keyword ∉ ["enum", "input", "output", "type"] ∧ ∃ n, m.IsFirst keyword key n ∧ n.id = id
  /-- Every key is in the ledger once. -/
  keys : ∀ keyword, ((m.ledgerOf keyword).map (·.1)).Nodup

theorem Module.Arranged.first_node {shop : Workshop} {tree : SchemaNode} {m : Module}
    (arranged : m.Arranged shop tree) (kept : m.Kept shop) : m.nodes.head? = some m.root := by
  have member : m.root ∈ m.nodes := (nodes_perm m).mem_iff.2 root_mem_listing
  have sorted := nodes_sorted m
  cases isNodes : m.nodes with
  | nil =>
    rw [isNodes] at member
    cases member
  | cons n rest =>
    have inListing : n ∈ m.listing := (nodes_perm m).mem_iff.1 (isNodes ▸ List.mem_cons_self)
    rw [isNodes] at member sorted
    cases List.mem_cons.1 member with
    | inl same => rw [same]; rfl
    | inr later =>
      have least := (List.pairwise_cons.1 sorted).1 _ later
      have positive := kept.one_le inListing
      have number := arranged.id
      rw [kept.eq_of_id_eq root_mem_listing inListing (by omega)]
      rfl

theorem mem_definitionsOf {schema : Resolved} (sound : schema.Sound) {d : Definition}
    (member : d ∈ definitionsOf schema) :
    ∃ s ∈ Statement.listingOfAll none none schema.forest, s.statement.id = d.node.id ∧
      d.key = (s.around.map (·.name)).getD "" ++ "/" ++ s.statement.name := by
  obtain ⟨s, inListing, isDefinition⟩ := List.mem_filterMap.1 member
  have own := schemaNode_statement sound (listing_known s inListing)
  split at isDefinition
  · cases isDefinition
    refine ⟨s, inListing, ?_, ?_⟩
    · rw [SchemaNode.id, own]
    · rw [Definition.key, SchemaNode.name, own]
  · cases isDefinition

/-- In the model of a module, the module comes first and everything else below what came before it; shared
    definitions are right below it.  The ledger finds exactly the first node of each keyword and key. -/
theorem build_isArena (texts : List String) (sources : List Source) (files : FileTree) (schema : Resolved)
    (resolved : ((Library.ofTexts texts).resolve sources files).result = .ok schema)
    (backend : Backend) (m : String × SchemaNode) (isModule : m ∈ schema.modules) :
    (Module.build schema backend m.2).1.IsArena schema := by
  have sound := (Library.sound_ofTexts texts).schema_sound resolved
  have shopSound : (shopOf schema backend m.2).Sound := ⟨sound, rfl⟩
  have kept := build_kept sound backend isModule
  have arranged := build_arranged sound backend isModule
  have listing : ∀ {n}, n ∈ (Module.build schema backend m.2).1.nodes ↔
      n ∈ (Module.build schema backend m.2).1.listing := (nodes_perm _).mem_iff
  refine ⟨arranged.first_node kept, ?_, ?_, ?_, ?_, ?_, ?_, kept.keys⟩
  · exact fun n member => arranged.parent_eq_none_iff kept (listing.1 member)
  · intro n member notRoot
    obtain ⟨b, inListing, below, earlier, -⟩ := arranged.exists_below kept (listing.1 member) notRoot
    exact ⟨b, listing.2 inListing, below.parent, earlier⟩
  · exact fun n member => arranged.topWithin_eq kept n.id n (listing.1 member) (Nat.le_refl _)
  · intro n member isDefinition
    rw [listing] at member
    have shared : isShared n.keyword := isShared_iff.2 isDefinition
    have notRoot : n ≠ (Module.build schema backend m.2).1.root := by
      rintro rfl
      rw [arranged.isOf.keyword, (sound.modules m isModule).2.1] at shared
      exact absurd shared (by decide)
    obtain ⟨b, -, below, -, atTop⟩ := arranged.exists_below kept member notRoot
    obtain ⟨d, inDefinitions, atId, key, -⟩ := kept.definition shopSound member shared
    obtain ⟨s, inListing, sameId, isKey⟩ := mem_definitionsOf sound inDefinitions
    exact ⟨atTop shared ▸ below.parent, s, inListing, sameId.trans atId, key.symm.trans isKey⟩
  · intro n member notGrouping notTypedef b inNodes isParent
    rw [listing] at member inNodes
    have notShared : isShared n.keyword = false := by simp [isShared, notGrouping, notTypedef]
    have notRoot : n ≠ (Module.build schema backend m.2).1.root := by
      rintro rfl
      rw [arranged.parent] at isParent
      cases isParent
    obtain ⟨b', inListing, below, -⟩ := arranged.exists_below kept member notRoot
    have same : b = b' :=
      kept.eq_of_id_eq inNodes inListing (Option.some.inj (isParent.symm.trans below.parent))
    rw [below.key notShared, same]
    rfl
  · intro keyword key id
    rw [arranged.mem_ledgerOf_iff kept]
    simp [isUnlisted]

/-- A module that uses a grouping twice in one container. -/
def repeatedUses : String :=
  "<module name='m' xmlns='urn:ietf:params:xml:ns:yang:yin:1'><grouping name='g'><leaf name='x'>" ++
  "<type name='int8'/></leaf></grouping><container name='c'><uses name='g'/><uses name='g'/>" ++
  "</container></module>"

theorem build_isArena_repeatedUses :
    ∃ schema m, ((Library.ofTexts [repeatedUses]).resolve [] ⟨[]⟩).result = .ok schema ∧
      m ∈ schema.modules ∧ (Module.build schema (.root 0) m.2).1.IsArena schema ∧
      (Module.build schema (.root 0) m.2).1.nodes.map (fun n => (n.key, n.parent)) =
        [("m", none), ("m/c", some 1), ("m/c/x", some 2), ("m/c/x", some 2), ("m/g", some 1), ("m/g/x", some 5)] ∧
      (Module.build schema (.root 0) m.2).1.ledgerOf "leaf" = [("m/c/x", 3), ("m/g/x", 6)] := by
  have evaluated : (((Library.ofTexts [repeatedUses]).resolve [] ⟨[]⟩).result.toOption.map
      fun schema => schema.modules.map fun m =>
        ((Module.build schema (.root 0) m.2).1.nodes.map (fun n => (n.key, n.parent)),
          (Module.build schema (.root 0) m.2).1.ledgerOf "leaf")) =
      some [([("m", none), ("m/c", some 1), ("m/c/x", some 2), ("m/c/x", some 2), ("m/g", some 1),
        ("m/g/x", some 5)], [("m/c/x", 3), ("m/g/x", 6)])] := by
    decide +kernel
  obtain ⟨schema, m, resolved, isModule, both⟩ := exists_module evaluated
  have isArena := build_isArena _ _ _ schema resolved (.root 0) m isModule
  exact ⟨schema, m, resolved, isModule, isArena, congrArg Prod.fst both, congrArg Prod.snd both⟩

end YangStubs.Model
