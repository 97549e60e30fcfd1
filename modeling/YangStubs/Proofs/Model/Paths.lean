import YangStubs.Proofs.Model.Arena

/-! # Paths

A path of names leads through the model as it leads through the schema tree: at each step to the first node
of that name that the backend has a constructor for.  Making definitions and leafref targets in between does
not get in the way, since a node lists its members only when all of them are made.
-/

namespace YangStubs.Model

open YangStubs.Schema

/-! ## First of each name -/

section FirstOfEach

variable {α : Type}

/-- What `firstOfEach` does with one named value. -/
def keepFirst (kept : List (String × α)) (entry : String × α) : List (String × α) :=
  if kept.any (·.1 == entry.1) then kept else kept ++ [entry]

theorem firstOfEach_eq (entries : List (String × α)) : firstOfEach entries = entries.foldl keepFirst [] :=
  rfl

theorem keepFirst_nodup {kept : List (String × α)} (nodup : (kept.map (·.1)).Nodup)
    (entry : String × α) : ((keepFirst kept entry).map (·.1)).Nodup := by
  unfold keepFirst
  split
  · exact nodup
  · rename_i absent
    rw [List.map_append, List.map_singleton]
    apply List.Nodup.append nodup (List.nodup_singleton _)
    simpa using absent

theorem lookup_keepFirst (kept : List (String × α)) (entry : String × α) (name : String) :
    (keepFirst kept entry).lookup name = (kept.lookup name).or (if entry.1 == name then some entry.2 else none) := by
  obtain ⟨own, value⟩ := entry
  unfold keepFirst
  by_cases isKept : kept.any (·.1 == own) = true
  · rw [if_pos isKept]
    by_cases here : own = name
    · -- The name has a value already, and that one stays.
      obtain ⟨first, member, same⟩ := List.any_eq_true.1 isKept
      cases found : kept.lookup name with
      | none =>
        have different := List.lookup_eq_none_iff.1 found first member
        simp [← here, eq_of_beq same] at different
      | some old => rfl
    · simp [here]
  · rw [if_neg isKept, List.lookup_append]
    by_cases here : own = name
    · simp [here]
    · have elsewhere : (name == own) = false := by simpa using Ne.symm here
      simp [here, elsewhere, List.lookup_cons]

theorem lookup_foldl_keepFirst (entries : List (String × α)) (name : String) :
    ∀ kept : List (String × α), (entries.foldl keepFirst kept).lookup name =
      (kept.lookup name).or ((entries.find? (·.1 == name)).map (·.2)) := by
  induction entries with
  | nil => simp
  | cons entry rest ih =>
    intro kept
    rw [List.foldl_cons, ih, lookup_keepFirst, List.find?_cons]
    cases entry.1 == name <;> simp

/-- The value of a name is the first one that there is. -/
theorem lookup_firstOfEach (entries : List (String × α)) (name : String) :
    (firstOfEach entries).lookup name = (entries.find? (·.1 == name)).map (·.2) := by
  rw [firstOfEach_eq, lookup_foldl_keepFirst]
  simp

theorem firstOfEach_nodup (entries : List (String × α)) : ((firstOfEach entries).map (·.1)).Nodup := by
  rw [firstOfEach_eq]
  have general : ∀ kept : List (String × α), (kept.map (·.1)).Nodup →
      ((entries.foldl keepFirst kept).map (·.1)).Nodup := by
    induction entries with
    | nil => exact fun kept nodup => nodup
    | cons entry rest ih => exact fun kept nodup => ih _ (keepFirst_nodup nodup entry)
  exact general [] List.nodup_nil

/-- If no name is there twice, all values are kept. -/
theorem firstOfEach_of_nodup {entries : List (String × α)} (nodup : (entries.map (·.1)).Nodup) :
    firstOfEach entries = entries := by
  have general : ∀ kept : List (String × α), ((kept ++ entries).map (·.1)).Nodup →
      entries.foldl keepFirst kept = kept ++ entries := by
    induction entries with
    | nil => simp
    | cons entry rest ih =>
      intro kept nodup'
      have regrouped : kept ++ entry :: rest = (kept ++ [entry]) ++ rest := by simp
      have absent : ¬ kept.any (·.1 == entry.1) = true := by
        simp only [List.map_append, List.map_cons, List.nodup_append, List.mem_map, List.mem_cons] at nodup'
        simp only [List.any_eq_true, beq_iff_eq, not_exists, not_and]
        exact fun old isOld => nodup'.2.2 _ ⟨old, isOld, rfl⟩ _ (.inl rfl)
      rw [regrouped] at nodup' ⊢
      rw [List.foldl_cons, keepFirst, if_neg absent]
      exact ih (List.nodup_cons.1 nodup).2 _ nodup'
  rw [firstOfEach_eq]
  exact general [] nodup

end FirstOfEach

theorem find?_rel {α β : Type} {R : α → β → Prop} {p : α → Bool} {q : β → Bool}
    (same : ∀ a b, R a b → p a = q b) {l : List α} {l' : List β} (related : List.Forall₂ R l l') :
    Option.Rel R (l.find? p) (l'.find? q) := by
  induction related with
  | nil => exact .none
  | cons here _ ih =>
    rw [List.find?_cons, List.find?_cons, same _ _ here]
    split
    · exact .some here
    · exact ih

/-! ## One step -/

/-- The first schema node of a name below another one, among those with a constructor. -/
def firstNamed? (backend : Backend) (x : SchemaNode) (name : String) : Option SchemaNode :=
  x.children.find? fun c => (backend.lookup? c.keyword).isSome && c.name == name

theorem firstNamed?_eq (shop : Workshop) (x : SchemaNode) (name : String) :
    firstNamed? shop.backend x name = (shop.served x.children).find? (·.name == name) := by
  rw [Workshop.served, List.find?_filter, firstNamed?]
  congr 1
  funext c
  rw [Bool.eq_iff_iff]
  simp

theorem firstNamed?_spec {backend : Backend} {x c : SchemaNode} {name : String}
    (found : firstNamed? backend x name = some c) : c.name = name ∧ c ∈ x.children := by
  have holds := List.find?_some found
  simp only [Bool.and_eq_true, beq_iff_eq] at holds
  exact ⟨holds.2, List.mem_of_find?_eq_some found⟩

/-- The schema node of a node is the only one. -/
theorem Node.IsOf.eq {schema : Resolved} (sound : schema.Sound) {x y : SchemaNode} {n : Node}
    (isOf : n.IsOf x) (isOf' : n.IsOf y) (proper : Proper schema x) (proper' : Proper schema y) :
    x = y := by
  have sameId : x.id = y.id := isOf.statement.symm.trans isOf'.statement
  have same := sound.eq_of_id_eq proper.known proper'.known sameId
  rw [← proper.own, ← proper'.own, same]

/-- What is found under a name in the members of a node. -/
theorem Node.Holds.lookup {shop : Workshop} {x : SchemaNode} {n : Node} {members : Members}
    (holds : n.Holds shop x members) (name : String) :
    Option.Rel (fun c id => ∃ o ∈ n.owned, o.id = id ∧ o.IsOf c)
      (firstNamed? shop.backend x name) (members.children.lookup name) := by
  have related := find?_rel (p := fun c => c.name == name) (q := fun o => o.name == name)
    (fun c o isOf => by rw [isOf.name]) holds.areOf
  rw [firstNamed?_eq, holds.children, lookup_firstOfEach, List.find?_map, Option.map_map]
  have composed : ((fun e : String × Nat => e.1 == name) ∘ fun o : Node => (o.name, o.id)) =
      fun o => o.name == name := rfl
  rw [composed]
  generalize (shop.served x.children).find? (·.name == name) = found at related ⊢
  cases isOwned : n.owned.find? (·.name == name) with
  | none =>
    rw [isOwned] at related
    cases related
    exact .none
  | some o =>
    rw [isOwned] at related
    cases related with
    | some isOf => exact .some ⟨o, List.mem_of_find?_eq_some isOwned, rfl, isOf⟩

/-- A node reached by one step from another one. -/
structure Module.Step (m : Module) (b : Node) (name : String) (c : SchemaNode) (o : Node) : Prop where
  member : o ∈ m.nodes
  isOf : o.IsOf c
  parent : o.parent = some b.id
  key : o.key = b.key ++ "/" ++ name

section Build

variable {schema : Resolved} (sound : schema.Sound) (backend : Backend) {m : String × SchemaNode}
  (isModule : m ∈ schema.modules)
include sound isModule

theorem step_of_owned {b o : Node} (member : b ∈ (Module.build schema backend m.2).1.listing)
    (isOwned : o ∈ b.owned) {c : SchemaNode} (isOf : o.IsOf c) {name : String} (isName : c.name = name) :
    (Module.build schema backend m.2).1.Step b name c o := by
  have seated := (build_arranged sound backend isModule).seated b member
  obtain ⟨below, notShared, -⟩ := seated.below o isOwned
  refine ⟨(nodes_perm _).mem_iff.2 (mem_listingOfAll_owned isOwned _ member), isOf, below.parent, ?_⟩
  rw [below.key notShared, isOf.name, isName]
  rfl

/-- A step in the schema tree is one in the model. -/
theorem child?_of_firstNamed? {x c : SchemaNode} (proper : Proper schema x)
    (opens : (shopOf schema backend m.2).Opens x.keyword) (notType : x.keyword ≠ "type") {b : Node}
    (member : b ∈ (Module.build schema backend m.2).1.listing) (isOf : b.IsOf x) {name : String}
    (found : firstNamed? backend x name = some c) :
    ∃ o, (Module.build schema backend m.2).1.child? b.id name = some o.id ∧
      (Module.build schema backend m.2).1.Step b name c o := by
  have kept := build_kept sound backend isModule
  obtain ⟨-, shows, -⟩ := lawful_of_statement sound backend isModule member proper.known isOf.statement
  obtain ⟨members, isMembers⟩ := Option.isSome_iff_exists.1 (shows.opened notType opens.1)
  obtain ⟨y, isOf', holds⟩ :=
    ((build_arranged sound backend isModule).seated b member).members members isMembers
  obtain rfl := isOf.eq sound isOf' proper holds.proper
  have related := holds.lookup name
  have found' : firstNamed? (shopOf schema backend m.2).backend x name = some c := found
  rw [found'] at related
  cases isEntry : members.children.lookup name with
  | none =>
    rw [isEntry] at related
    cases related
  | some id =>
    rw [isEntry] at related
    cases related with
    | some isNode =>
      obtain ⟨o, isOwned, rfl, isOfChild⟩ := isNode
      have isName := (firstNamed?_spec found).1
      refine ⟨o, ?_, step_of_owned sound backend isModule member isOwned isOfChild isName⟩
      simp [Module.child?, kept.node?_eq member, Node.child?, isMembers, isEntry]

theorem firstNamed?_of_mem {b : Node} (member : b ∈ (Module.build schema backend m.2).1.listing)
    {members : Members} (isMembers : b.members = some members) {name : String} {id : Nat}
    (isEntry : (name, id) ∈ members.children) :
    ∃ x c o, Proper schema x ∧ b.IsOf x ∧ (shopOf schema backend m.2).Opens x.keyword ∧
      firstNamed? backend x name = some c ∧ (Module.build schema backend m.2).1.Step b name c o ∧
      o.id = id := by
  obtain ⟨x, isOf, holds⟩ :=
    ((build_arranged sound backend isModule).seated b member).members members isMembers
  have nodup : (members.children.map (·.1)).Nodup := by
    rw [holds.children]
    exact firstOfEach_nodup _
  have related := holds.lookup name
  rw [lookup_eq_some_of_mem nodup isEntry] at related
  cases found : firstNamed? (shopOf schema backend m.2).backend x name with
  | none =>
    rw [found] at related
    cases related
  | some c =>
    rw [found] at related
    cases related with
    | some isNode =>
      obtain ⟨o, isOwned, sameId, isOfChild⟩ := isNode
      exact ⟨x, c, o, holds.proper, isOf, holds.opens, found,
        step_of_owned sound backend isModule member isOwned isOfChild (firstNamed?_spec found).1, sameId⟩

end Build

/-! ## Walks -/

/-- The keywords of the statements in a tree whose nodes have members. -/
def openKeywords : List String :=
  ["module", "container", "list", "choice", "case", "rpc", "input", "output", "notification"]

/-- Walks down the schema tree, each time to the first schema node of that name with a constructor, and
    answers the schema nodes that it comes through. -/
def walk? (backend : Backend) : SchemaNode → List String → Option (List SchemaNode)
  | x, [] => some [x]
  | x, name :: rest =>
    if x.keyword ∈ openKeywords then
      (firstNamed? backend x name).bind fun c => (walk? backend c rest).map (x :: ·)
    else none

theorem walk?_cons {backend : Backend} {x : SchemaNode} {name : String} {rest : List String}
    {visited : List SchemaNode} (walk : walk? backend x (name :: rest) = some visited) :
    x.keyword ∈ openKeywords ∧ ∃ c below, firstNamed? backend x name = some c ∧
      walk? backend c rest = some below ∧ visited = x :: below := by
  rw [walk?] at walk
  split at walk
  · rename_i isOpen
    obtain ⟨c, found, walked⟩ := Option.bind_eq_some_iff.1 walk
    obtain ⟨below, isBelow, rfl⟩ := Option.map_eq_some_iff.1 walked
    exact ⟨isOpen, c, below, found, isBelow, rfl⟩
  · cases walk

theorem lookup?_root (serial : Nat) (keyword : String) :
    (Backend.root serial).lookup? keyword = Backend.standardConstructors.lookup keyword := by
  simp [Backend.root, Backend.lookup?, Backend.layers]

theorem opens_root (schema : Resolved) (serial : Nat) (tree : SchemaNode) (keyword : String) :
    (shopOf schema (.root serial) tree).Opens keyword ↔ keyword ∈ openKeywords ∨ keyword = "grouping" := by
  have lookup : (shopOf schema (.root serial) tree).backend.lookup? keyword =
      Backend.standardConstructors.lookup keyword := lookup?_root serial keyword
  rw [Workshop.Opens, Workshop.constructorFor, lookup]
  constructor
  · rintro ⟨part, isModule | served⟩
    · exact .inl (by rw [isModule]; decide)
    · obtain ⟨constructor, found⟩ := Option.isSome_iff_exists.1 served
      rw [found] at part
      have listed := mem_of_lookup_eq_some found
      -- One case for each constructor; those of types have no members.
      simp only [Backend.standardConstructors, List.mem_cons, Prod.mk.injEq, List.not_mem_nil, or_false] at listed
      rcases listed with ⟨rfl, rfl⟩ | ⟨rfl, rfl⟩ | ⟨rfl, rfl⟩ | ⟨rfl, rfl⟩ | ⟨rfl, rfl⟩ | ⟨rfl, rfl⟩ |
        ⟨rfl, rfl⟩ | ⟨rfl, rfl⟩ | ⟨rfl, rfl⟩ | ⟨rfl, rfl⟩ | ⟨rfl, rfl⟩ | ⟨rfl, rfl⟩ | ⟨rfl, rfl⟩ |
        ⟨rfl, rfl⟩ <;> first | decide | cases part
  · intro isOpen
    have isKeyword : keyword ∈ "grouping" :: openKeywords := List.mem_cons.2 isOpen.symm
    simp only [openKeywords, List.mem_cons, List.not_mem_nil, or_false] at isKeyword
    rcases isKeyword with rfl | rfl | rfl | rfl | rfl | rfl | rfl | rfl | rfl | rfl <;>
      exact ⟨by decide, .inr (by decide)⟩

/-- The nodes from one node down to another, each right below the one before it. -/
structure Module.Line (m : Module) (top : Node) (line : List Node) (n : Node) : Prop where
  nodes : ∀ b ∈ line, b ∈ m.nodes
  first : line.head? = some top
  last : line.getLast? = some n
  below : line.IsChain fun b c => c.parent = some b.id

theorem Module.Line.single {m : Module} {n : Node} (member : n ∈ m.nodes) : m.Line n [n] n :=
  ⟨by simpa using member, rfl, rfl, .singleton n⟩

theorem Module.Line.cons {m : Module} {b o n : Node} {line : List Node} (member : b ∈ m.nodes)
    (parent : o.parent = some b.id) (rest : m.Line o line n) : m.Line b (b :: line) n := by
  cases line with
  | nil => exact absurd rest.first nofun
  | cons head tail =>
    have isHead : head = o := by simpa using rest.first
    subst isHead
    refine ⟨List.forall_mem_cons.2 ⟨member, rest.nodes⟩, rfl, ?_, ?_⟩
    · rw [List.getLast?_cons_cons]
      exact rest.last
    · exact List.isChain_cons_cons.2 ⟨parent, rest.below⟩

/-- A model in which names lead where they lead in the schema tree. -/
structure Module.FollowsTree (schema : Resolved) (backend : Backend) (tree : SchemaNode) (m : Module) :
    Prop where
  /-- Where a walk leads, a path leads, and all nodes above are those of the walk. -/
  walks : ∀ names visited, walk? backend tree names = some visited →
    ∃ line n s, m.path? names = some n.id ∧ visited.getLast? = some s ∧ n.IsOf s ∧
      m.Line m.root line n ∧ List.Forall₂ Node.IsOf visited line ∧
      n.key = "/".intercalate (m.name :: names)
  /-- There is nothing above the node of the module. -/
  top : m.root.parent = none
  /-- All that is listed below a node has been stepped to. -/
  steps : ∀ b ∈ m.nodes, ∀ members, b.members = some members →
    ∀ name id, (name, id) ∈ members.children →
      ∃ x c o, schemaNode schema x.statement = x ∧ b.IsOf x ∧
        (x.keyword ∈ openKeywords ∨ x.keyword = "grouping") ∧ firstNamed? backend x name = some c ∧
        m.Step b name c o ∧ o.id = id

theorem pathFrom?_of_walk {schema : Resolved} (sound : schema.Sound) (serial : Nat)
    {m : String × SchemaNode} (isModule : m ∈ schema.modules) (names : List String) :
    ∀ {x : SchemaNode} {visited : List SchemaNode} {b : Node}, Proper schema x →
      b ∈ (Module.build schema (.root serial) m.2).1.nodes → b.IsOf x →
      walk? (.root serial) x names = some visited →
      ∃ line n s, (Module.build schema (.root serial) m.2).1.pathFrom? b.id names = some n.id ∧
        visited.getLast? = some s ∧ n.IsOf s ∧
        (Module.build schema (.root serial) m.2).1.Line b line n ∧
        List.Forall₂ Node.IsOf visited line ∧ n.key = "/".intercalate (b.key :: names) := by
  induction names with
  | nil =>
    intro x visited b proper member isOf walk
    cases walk
    exact ⟨[b], b, x, rfl, rfl, isOf, .single member, .cons isOf .nil, rfl⟩
  | cons name rest ih =>
    intro x visited b proper member isOf walk
    obtain ⟨isOpen, c, below, found, walked, rfl⟩ := walk?_cons walk
    have opens := (opens_root schema serial m.2 x.keyword).2 (.inl isOpen)
    have notType : x.keyword ≠ "type" := by
      intro isType
      rw [isType] at isOpen
      exact absurd isOpen (by decide)
    obtain ⟨o, isChild, step⟩ := child?_of_firstNamed? sound (.root serial) isModule proper opens notType
      ((nodes_perm _).mem_iff.1 member) isOf found
    have properChild : Proper schema c := by
      cases proper with
      | intro _ _ _ proper => exact proper c (firstNamed?_spec found).2
    obtain ⟨line, n, s, path, isLast, isOfLast, isLine, areOf, key⟩ :=
      ih properChild step.member step.isOf walked
    refine ⟨b :: line, n, s, ?_, ?_, isOfLast, isLine.cons member step.parent, .cons isOf areOf, ?_⟩
    · simp [Module.pathFrom?, isChild, path]
    · cases below with
      | nil => cases isLast
      | cons first others => rwa [List.getLast?_cons_cons]
    · rw [key, step.key]
      rfl

/-- In the model that the root backend makes of a module, paths refine walks down the schema tree. -/
theorem build_followsTree (texts : List String) (sources : List Source) (files : FileTree)
    (schema : Resolved)
    (resolved : ((Library.ofTexts texts).resolve sources files).result = .ok schema) (serial : Nat)
    (m : String × SchemaNode) (isModule : m ∈ schema.modules) :
    (Module.build schema (.root serial) m.2).1.FollowsTree schema (.root serial) m.2 ∧
      (Module.build schema (.root serial) m.2).1.name = m.1 := by
  have sound := (Library.sound_ofTexts texts).schema_sound resolved
  have arranged := build_arranged sound (.root serial) isModule
  have member : (Module.build schema (.root serial) m.2).1.root ∈
      (Module.build schema (.root serial) m.2).1.nodes := (nodes_perm _).mem_iff.2 Module.root_mem_listing
  have proper := (Covered.root.proper sound (.root serial) isModule).1
  refine ⟨⟨?_, arranged.parent, ?_⟩, (sound.modules m isModule).2.2⟩
  · intro names visited walk
    have followed := pathFrom?_of_walk sound serial isModule names proper member arranged.isOf walk
    rw [arranged.key] at followed
    exact followed
  · intro b inNodes members isMembers name id isEntry
    obtain ⟨x, c, o, properNode, isOf, opens, found, step, sameId⟩ := firstNamed?_of_mem sound
      (.root serial) isModule ((nodes_perm _).mem_iff.1 inNodes) isMembers isEntry
    exact ⟨x, c, o, properNode.own, isOf, (opens_root schema serial m.2 x.keyword).1 opens, found, step, sameId⟩

/-- A module with a leaf written right inside a choice. -/
def shorthandCase : String :=
  "<module name='m' xmlns='urn:ietf:params:xml:ns:yang:yin:1'><container name='c'><choice name='d'>" ++
  "<leaf name='x'><type name='int8'/></leaf></choice></container></module>"

theorem build_followsTree_shorthandCase :
    ∃ schema m, ((Library.ofTexts [shorthandCase]).resolve [] ⟨[]⟩).result = .ok schema ∧
      m ∈ schema.modules ∧
      (Module.build schema (.root 0) m.2).1.FollowsTree schema (.root 0) m.2 ∧
      (walk? (.root 0) m.2 ["c", "d", "x", "x"]).map (List.map (·.keyword)) =
        some ["module", "container", "choice", "case", "leaf"] ∧
      (Module.build schema (.root 0) m.2).1.path? ["c", "d", "x", "x"] = some 5 := by
  have evaluated : (((Library.ofTexts [shorthandCase]).resolve [] ⟨[]⟩).result.toOption.map
      fun schema => schema.modules.map fun m =>
        ((walk? (.root 0) m.2 ["c", "d", "x", "x"]).map (List.map (·.keyword)),
          (Module.build schema (.root 0) m.2).1.path? ["c", "d", "x", "x"])) =
      some [(some ["module", "container", "choice", "case", "leaf"], some 5)] := by
    decide +kernel
  obtain ⟨schema, m, resolved, isModule, both⟩ := exists_module evaluated
  obtain ⟨follows, -⟩ := build_followsTree _ _ _ schema resolved 0 m isModule
  exact ⟨schema, m, resolved, isModule, follows, congrArg Prod.fst both, congrArg Prod.snd both⟩

end YangStubs.Model
