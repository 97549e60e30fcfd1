import YangStubs.Backend.Builtin
import YangStubs.Proofs.Model.Building

/-! # Models of modules

A module is built without ever reaching the bound on jumps.  In its model every grouping and every typedef
that is made has one node and one entry in the ledger.
-/

namespace YangStubs.Model

open YangStubs.Schema
open Node (listingOfAll)

/-! ## Building the root -/

section Steps

variable {shop : Workshop} {make make' : Maker} {budget : Nat}

/-- Makes the definition of a statement unless there is an entry for it. -/
def makeAbsent (shop : Workshop) (make : Maker) (keyword : String) (s : Statement) : Builder Unit := do
  match shop.definition? s.id with
  | none => pure ()
  | some definition =>
    if (entered? keyword definition.key (← get).ledger).isNone then
      report .debug .modules ("wrapping unreferenced " ++ keyword ++ " " ++ Text.quoted definition.key)
      discard <| makeDefinition shop make [] keyword definition

theorem makeUnreferenced_cons (make : Maker) (keyword : String) (s : Statement)
    (rest : List Statement) :
    makeUnreferenced shop make keyword (s :: rest) =
      (makeAbsent shop make keyword s >>= fun _ => makeUnreferenced shop make keyword rest) := by
  funext p
  show (makeUnreferenced shop make keyword (s :: rest)).run p = StateT.run _ p
  simp only [makeUnreferenced, makeAbsent, run_bind]
  cases shop.definition? s.id with
  | none => rfl
  | some d =>
    have current : ((get : Builder Progress).run p) = (p, p) := rfl
    simp only [run_bind, current]
    split <;> rfl

theorem makeAbsent_agrees (sound : shop.Sound) (serves : Serves shop make make' budget)
    {keyword : String} {s : Statement} (known : s ∈ shop.schema.all) (isKeyword : s.keyword = keyword)
    {p : Progress} (ready : Ready shop budget [] 0 p) :
    Agrees (makeAbsent shop make keyword s) (makeAbsent shop make' keyword s) p
      fun _ q => Grown shop p [] q ∧ Listed shop q.ledger s.keyword (some s.id) := by
  unfold makeAbsent
  cases found : shop.definition? s.id with
  | none => exact .pure ⟨Grown.refl p, by simp [Listed, found]⟩
  | some d =>
    obtain ⟨member, same⟩ := sound.keyword_of_link known found
    have sameKeyword := (same.trans isKeyword).symm
    refine (Agrees.get p).bind ?_
    rintro s' q ⟨rfl, rfl⟩
    by_cases absent : (entered? keyword d.key p.ledger).isNone = true
    · rw [if_pos absent, if_pos absent]
      refine (report_agrees shop _ _ _ p).bind ?_
      rintro - q ⟨grown, unchanged⟩
      refine (makeDefinition_agrees sound serves member sameKeyword (ready.later grown)
        (unchanged ▸ by simpa using absent)).map _ ?_
      rintro made r ⟨grown', none, some⟩
      refine ⟨grown.trans grown', fun d' found' served => ?_⟩
      obtain rfl := Option.some.inj (found.symm.trans found')
      rw [isKeyword] at served ⊢
      cases made with
      | none => simp [(none rfl).1] at served
      | some id => exact Option.isSome_of_eq_some (some id rfl)
    · rw [if_neg absent, if_neg absent]
      refine .pure ⟨Grown.refl p, fun d' found' _ => ?_⟩
      obtain rfl := Option.some.inj (found.symm.trans found')
      rw [isKeyword, Option.isSome_iff_ne_none]
      simpa using absent

theorem makeUnreferenced_agrees (sound : shop.Sound) (serves : Serves shop make make' budget)
    {keyword : String} (statements : List Statement) :
    ∀ {p : Progress}, (∀ s ∈ statements, s ∈ shop.schema.all ∧ s.keyword = keyword) → Ready shop budget [] 0 p →
      Agrees (makeUnreferenced shop make keyword statements)
        (makeUnreferenced shop make' keyword statements) p
        fun _ q => Grown shop p [] q ∧ ∀ s ∈ statements, Listed shop q.ledger s.keyword (some s.id) := by
  induction statements with
  | nil => exact fun _ _ => .pure ⟨Grown.refl _, fun s member => absurd member List.not_mem_nil⟩
  | cons s rest ih =>
    intro p spec ready
    obtain ⟨known, isKeyword⟩ := spec s List.mem_cons_self
    rw [makeUnreferenced_cons, makeUnreferenced_cons]
    refine (makeAbsent_agrees sound serves known isKeyword ready).bind ?_
    rintro - q ⟨grown, listed⟩
    refine (ih (fun t inRest => spec t (List.mem_cons_of_mem _ inRest)) (ready.later grown)).mono ?_
    rintro - r ⟨grown', others⟩
    exact ⟨grown.trans grown', List.forall_mem_cons.2 ⟨listed.later grown'.ledger, others⟩⟩

/-- What building leaves: the root with all that is below it, and an entry for every definition at the top. -/
structure Built (shop : Workshop) (p : Progress) (tree : SchemaNode) (root : Node) (q : Progress) : Prop where
  grown : Grown shop p root.listing q
  statement : root.statement = tree.id
  listed : ∀ s ∈ tree.statement.subs, isShared s.keyword → Listed shop q.ledger s.keyword (some s.id)

theorem buildRoot_agrees (sound : shop.Sound) (serves : Serves shop make make' budget)
    {tree : SchemaNode} (proper : Proper shop.schema tree) (isModule : tree.keyword = "module")
    {p : Progress} (ready : Ready shop budget [] shop.schema.all.length p) :
    Agrees (buildRoot shop make tree) (buildRoot shop make' tree) p (Built shop p tree) := by
  have notShared : isShared tree.keyword = false := by rw [isModule]; decide
  have toMake : ∀ ledger, shop.toMake ledger tree.keyword = shop.unentered ledger := by
    intro ledger
    rw [Workshop.toMake, notShared]
    rfl
  have makeable : ∀ q, Makeable shop q tree shop.schema.all.length := fun q =>
    ⟨proper, fun s inside => Resolved.Sound.size_le (proper.placed_known tree s inside), by simp [notShared]⟩
  unfold buildRoot
  refine (report_agrees shop _ _ _ p).bind fun _ q₁ ⟨grown₁, _⟩ => ?_
  have affordRoot : shop.cost (shop.toMake q₁.ledger tree.keyword) [] shop.schema.all.length ≤ budget := by
    rw [toMake]
    exact (ready.later grown₁).affordable
  have constructed := construct_agrees sound serves tree none (grown₁.steady ready.steady) (makeable q₁)
    (by simp [notShared]) (by simp [notShared]) affordRoot
  rw [isModule] at constructed
  refine constructed.bind fun root q₂ made => ?_
  have grown₂ := grown₁.trans made.grown
  refine (makeUnreferenced_agrees sound serves _ (subsWith_known proper.known "grouping")
    ((ready.later grown₂).mono (Nat.zero_le _))).bind fun _ q₃ groupings => ?_
  have grown₃ := grown₂.trans groupings.1
  refine (makeUnreferenced_agrees sound serves _ (subsWith_known proper.known "typedef")
    ((ready.later grown₃).mono (Nat.zero_le _))).bind fun _ q₄ typedefs => ?_
  refine .pure ⟨by simpa using grown₃.trans typedefs.1, made.statement, fun s sub shared => ?_⟩
  have ofKeyword : s ∈ tree.statement.subsWith s.keyword := List.mem_filter.2 ⟨sub, by simp⟩
  cases isShared_iff.1 shared with
  | inl isGrouping => exact (groupings.2 s (isGrouping ▸ ofKeyword)).later typedefs.1.ledger
  | inr isTypedef => exact typedefs.2 s (isTypedef ▸ ofKeyword)

end Steps

/-! ## The whole model -/

/-- The workshop in which a module is built. -/
def shopOf (schema : Resolved) (backend : Backend) (tree : SchemaNode) : Workshop :=
  ⟨schema, backend, definitionsOf schema, ⟨1, tree.name⟩⟩

/-- The model that comes of building a module, with the log. -/
def Module.ofRun (name : String) (run : Node × Progress) : Module × Log :=
  (⟨name, run.1, run.2.definitions, run.2.ledger, run.2.derived⟩, run.2.log)

/-- Builds the model of a module, with the last maker for jumps that go deeper than the bound. -/
def Module.buildFrom (schema : Resolved) (backend : Backend) (last : Maker) (tree : SchemaNode) : Module × Log :=
  let shop := shopOf schema backend tree
  Module.ofRun tree.name ((buildRoot shop (makeFrom shop last (jumpBound schema)) tree).run ⟨1, [], [], [], []⟩)

theorem build_eq (schema : Resolved) (backend : Backend) (tree : SchemaNode) :
    Module.build schema backend tree =
      Module.ofRun tree.name ((buildRoot (shopOf schema backend tree)
        (makeWithin (shopOf schema backend tree) (jumpBound schema)) tree).run ⟨1, [], [], [], []⟩) := rfl

theorem jumpBound_le {shop : Workshop} (sound : shop.Sound) (ledger : List LedgerEntry) :
    shop.cost (shop.unentered ledger) [] shop.schema.all.length ≤ jumpBound shop.schema := by
  have count := unentered_add_free_le sound [] ledger
  have length : shop.schema.statements.length = shop.schema.all.length := by
    rw [← Resolved.statements_eq_all, List.length_map]
  rw [jumpBound, length]
  have product := Nat.mul_le_mul_right (shop.schema.all.length + 1) count
  have square : (shop.schema.all.length + 1) * (shop.schema.all.length + 1) =
      shop.schema.all.length * (shop.schema.all.length + 1) + (shop.schema.all.length + 1) :=
    Nat.succ_mul _ _
  unfold Workshop.cost Workshop.width
  omega

section Build

variable {schema : Resolved} (sound : schema.Sound) (backend : Backend) {m : String × SchemaNode}
  (isModule : m ∈ schema.modules)
include sound isModule

/-- Building a module: the last maker does not matter, and everything has grown from nothing. -/
theorem build_agrees (last : Maker) :
    let shop := shopOf schema backend m.2
    Agrees (buildRoot shop (makeFrom shop last (jumpBound schema)) m.2)
      (buildRoot shop (makeWithin shop (jumpBound schema)) m.2) ⟨1, [], [], [], []⟩
      (Built shop ⟨1, [], [], [], []⟩ m.2) := by
  have shopSound : (shopOf schema backend m.2).Sound := ⟨sound, rfl⟩
  exact buildRoot_agrees shopSound (makeFrom_serves shopSound last _) (proper_of_module sound isModule)
    (sound.modules m isModule).2.1 ⟨steady_nil _, jumpBound_le shopSound _⟩

theorem buildFrom_eq (last : Maker) : Module.buildFrom schema backend last m.2 = Module.build schema backend m.2 := by
  rw [build_eq, ← (build_agrees sound backend isModule last).1]
  rfl

end Build

/-- A model as building leaves it: numbered without gaps, with a ledger that lists the shared nodes, and
    with every node right. -/
structure Module.Kept (shop : Workshop) (m : Module) : Prop where
  ids : (m.listing.map (·.id)).Perm (List.range' 1 m.listing.length)
  shared : (m.ledger.filter fun e => isShared e.keyword).Perm
    ((m.listing.filter fun n => isShared n.keyword).map Node.entry)
  steady : Steady shop m.ledger
  lawful : ∀ n ∈ m.listing, Lawful shop m.ledger n

section

variable {schema : Resolved} (sound : schema.Sound) (backend : Backend) {m : String × SchemaNode}
  (isModule : m ∈ schema.modules)
include sound backend isModule

theorem build_kept : (Module.build schema backend m.2).1.Kept (shopOf schema backend m.2) := by
  let shop := shopOf schema backend m.2
  have agrees := build_agrees sound backend isModule fun _ _ _ _ => pure none
  have grown := agrees.2.grown
  rw [agrees.1] at grown
  have steady := grown.steady (steady_nil _)
  obtain ⟨entries, definitions, atEnd, tally, lawful⟩ := grown
  have listing : (Module.build schema backend m.2).1.listing =
      ((buildRoot shop (makeWithin shop (jumpBound schema)) m.2).run ⟨1, [], [], [], []⟩).1.listing ++
        listingOfAll definitions := by
    rw [build_eq, Module.listing]
    exact congrArg (fun ds => _ ++ listingOfAll ds) atEnd
  have ledger := tally.ledger
  have ids := tally.ids
  have counted := ids.length_eq
  rw [List.length_map, List.length_range', ← listing] at counted
  refine ⟨?_, ?_, steady, ?_⟩
  · rw [counted, listing]
    exact ids
  · rw [listing]
    refine List.Perm.trans ?_ tally.shared
    exact List.Perm.of_eq (congrArg (List.filter fun e => isShared e.keyword) ledger)
  · rw [listing]
    exact lawful _ (List.prefix_refl _) steady

/-- The definitions at the top of a module are all made, referred to or not. -/
theorem build_listed :
    (Module.build schema backend m.2).1.root.statement = m.2.id ∧
      ∀ s ∈ m.2.statement.subs, isShared s.keyword →
        Listed (shopOf schema backend m.2) (Module.build schema backend m.2).1.ledger s.keyword (some s.id) := by
  have agrees := build_agrees sound backend isModule fun _ _ _ _ => pure none
  have built := agrees.2
  rw [agrees.1] at built
  exact ⟨built.statement, built.listed⟩

end

/-! ## Nodes in the order of their numbers -/

theorem insertNode_perm (node : Node) (l : List Node) : (Module.insertNode node l).Perm (node :: l) := by
  induction l with
  | nil => exact List.Perm.refl _
  | cons other rest ih =>
    rw [Module.insertNode]
    split
    · exact List.Perm.refl _
    · exact (ih.cons other).trans (List.Perm.swap node other rest)

theorem insertNode_sorted (node : Node) (l : List Node) (sorted : l.Pairwise (·.id ≤ ·.id)) :
    (Module.insertNode node l).Pairwise (·.id ≤ ·.id) := by
  induction l with
  | nil => exact List.pairwise_singleton _ _
  | cons other rest ih =>
    obtain ⟨least, later⟩ := List.pairwise_cons.1 sorted
    rw [Module.insertNode]
    split
    · rename_i smaller
      refine List.pairwise_cons.2 ⟨fun n member => ?_, sorted⟩
      cases List.mem_cons.1 member with
      | inl same => exact same ▸ Nat.le_of_lt smaller
      | inr inRest => exact Nat.le_trans (Nat.le_of_lt smaller) (least n inRest)
    · rename_i notSmaller
      refine List.pairwise_cons.2 ⟨fun n member => ?_, ih later⟩
      cases List.mem_cons.1 ((insertNode_perm node rest).subset member) with
      | inl same => exact same ▸ Nat.le_of_not_lt notSmaller
      | inr inRest => exact least n inRest

theorem nodes_perm (m : Module) : m.nodes.Perm m.listing := by
  rw [Module.nodes]
  induction m.listing with
  | nil => exact List.Perm.refl _
  | cons node rest ih => exact (insertNode_perm node _).trans (ih.cons node)

theorem Module.mem_nodes_iff {m : Module} {n : Node} : n ∈ m.nodes ↔ n ∈ m.listing :=
  (nodes_perm m).mem_iff

theorem nodes_sorted (m : Module) : m.nodes.Pairwise (·.id ≤ ·.id) := by
  rw [Module.nodes]
  induction m.listing with
  | nil => exact List.Pairwise.nil
  | cons node rest ih => exact insertNode_sorted node _ ih

/-! ## One node for each definition -/

/-- The groupings and the typedefs of a model correspond one to one to the entries of the ledger. -/
structure Module.DefinesOnce (m : Module) : Prop where
  /-- Every node has a number of its own. -/
  ids : (m.listing.map (·.id)).Nodup
  /-- Every key is in the ledger once. -/
  keys : ∀ keyword, isShared keyword → ((m.ledgerOf keyword).map (·.1)).Nodup
  /-- Every entry has its node, and every node its entry. -/
  nodes : ∀ keyword, isShared keyword → (m.ledgerOf keyword).Perm
    ((m.listing.filter (·.keyword == keyword)).map fun n => (n.key, n.id))
  /-- Every statement has one node at most. -/
  statements : ∀ keyword, isShared keyword → ((m.listing.filter (·.keyword == keyword)).map (·.statement)).Nodup

namespace Module.Kept

variable {shop : Workshop} {m : Module}

theorem ids_nodup (kept : m.Kept shop) : (m.listing.map (·.id)).Nodup :=
  kept.ids.nodup_iff.2 List.nodup_range'

theorem keys (kept : m.Kept shop) (keyword : String) : ((m.ledgerOf keyword).map (·.1)).Nodup := by
  rw [Module.ledgerOf, List.map_map]
  refine List.Nodup.map_on ?_ ((List.Nodup.of_map _ kept.steady.distinct).filter _)
  intro e inLedger e' inLedger' sameKey
  obtain ⟨member, isKeyword⟩ := List.mem_filter.1 inLedger
  obtain ⟨member', isKeyword'⟩ := List.mem_filter.1 inLedger'
  refine List.inj_on_of_nodup_map kept.steady.distinct member member' ?_
  simp only [beq_iff_eq] at isKeyword isKeyword'
  exact Prod.ext (isKeyword.trans isKeyword'.symm) sameKey

theorem entries_perm (kept : m.Kept shop) {keyword : String} (shared : isShared keyword) :
    (m.ledger.filter (·.keyword == keyword)).Perm ((m.listing.filter (·.keyword == keyword)).map Node.entry) := by
  have narrowed : ∀ {α : Type} (of : α → String) (l : List α),
      (l.filter fun a => isShared (of a)).filter (of · == keyword) = l.filter (of · == keyword) := by
    intro α of l
    rw [List.filter_filter]
    refine List.filter_congr fun a _ => ?_
    cases same : of a == keyword with
    | false => rfl
    | true => rw [eq_of_beq same, shared]; rfl
  have both := kept.shared.filter (·.keyword == keyword)
  rw [narrowed LedgerEntry.keyword, List.filter_map] at both
  rw [← narrowed Node.keyword m.listing]
  exact both

theorem entry_mem_iff (kept : m.Kept shop) {keyword : String} (shared : isShared keyword)
    {e : LedgerEntry} (isKeyword : e.keyword = keyword) :
    e ∈ m.ledger ↔ ∃ n ∈ m.listing, n.entry = e := by
  constructor
  · intro member
    have listed := (kept.entries_perm shared).mem_iff.1 (List.mem_filter.2 ⟨member, by simp [isKeyword]⟩)
    obtain ⟨n, inListing, same⟩ := List.mem_map.1 listed
    exact ⟨n, (List.mem_filter.1 inListing).1, same⟩
  · rintro ⟨n, inListing, rfl⟩
    have listed : n.entry ∈ (m.listing.filter (·.keyword == keyword)).map Node.entry :=
      List.mem_map_of_mem (List.mem_filter.2 ⟨inListing, beq_iff_eq.2 isKeyword⟩)
    exact (List.mem_filter.1 ((kept.entries_perm shared).mem_iff.2 listed)).1

/-- The definition of a shared node. -/
theorem definition (sound : shop.Sound) (kept : m.Kept shop) {n : Node}
    (member : n ∈ m.listing) (shared : isShared n.keyword) :
    ∃ d ∈ shop.definitions, d.node.id = n.statement ∧ d.key = n.key ∧ d.node.keyword = n.keyword := by
  have lawful := kept.lawful n member
  obtain ⟨d, isDefinition, atId, key⟩ := lawful.shared shared
  obtain ⟨s, known, sameId, keyword, -⟩ := lawful.records
  have same := sound.schema.eq_of_id_eq (sound.mem_definitions isDefinition).1 known (atId.trans sameId)
  exact ⟨d, isDefinition, atId, key, by rw [keyword, ← same]; rfl⟩

theorem eq_of_statement_eq (sound : shop.Sound) (kept : m.Kept shop) {n n' : Node}
    (member : n ∈ m.listing) (member' : n' ∈ m.listing) (shared : isShared n.keyword)
    (sameKeyword : n.keyword = n'.keyword) (same : n.statement = n'.statement) : n = n' := by
  obtain ⟨d, isDefinition, atId, key⟩ := (kept.lawful n member).shared shared
  obtain ⟨d', isDefinition', atId', key'⟩ := (kept.lawful n' member').shared (sameKeyword ▸ shared)
  have sameDefinition : d = d' :=
    sound.eq_of_id_eq isDefinition isDefinition' (atId.trans (same.trans atId'.symm))
  have sameAddress : n.entry.address = n'.entry.address :=
    Prod.ext sameKeyword (key.symm.trans (sameDefinition ▸ key'))
  have inLedger := (kept.entry_mem_iff shared rfl).2 ⟨n, member, rfl⟩
  have inLedger' := (kept.entry_mem_iff shared sameKeyword.symm).2 ⟨n', member', rfl⟩
  have sameEntry := List.inj_on_of_nodup_map kept.steady.distinct inLedger inLedger' sameAddress
  exact List.inj_on_of_nodup_map kept.ids_nodup member member' (congrArg LedgerEntry.node sameEntry)

theorem definesOnce (sound : shop.Sound) (kept : m.Kept shop) : m.DefinesOnce where
  ids := kept.ids_nodup
  keys := fun keyword _ => kept.keys keyword
  nodes := by
    intro keyword shared
    have both := (kept.entries_perm shared).map fun e => (e.key, e.node)
    rw [List.map_map] at both
    exact both
  statements := by
    intro keyword shared
    refine List.Nodup.map_on ?_ ((List.Nodup.of_map _ kept.ids_nodup).filter _)
    intro n inListing n' inListing' same
    obtain ⟨member, isKeyword⟩ := List.mem_filter.1 inListing
    obtain ⟨member', isKeyword'⟩ := List.mem_filter.1 inListing'
    simp only [beq_iff_eq] at isKeyword isKeyword'
    exact kept.eq_of_statement_eq sound member member' (isKeyword ▸ shared) (isKeyword.trans isKeyword'.symm) same

end Module.Kept

/-- Building the model of a loaded module ends by itself: whatever would be done at the bound on jumps is
    never done.  In the model, no grouping and no typedef is made twice. -/
theorem build_ends_definesOnce (texts : List String) (sources : List Source) (files : FileTree)
    (schema : Resolved)
    (resolved : ((Library.ofTexts texts).resolve sources files).result = .ok schema)
    (backend : Backend) (m : String × SchemaNode) (isModule : m ∈ schema.modules) :
    (∀ last, Module.buildFrom schema backend last m.2 = Module.build schema backend m.2) ∧
      (Module.build schema backend m.2).1.DefinesOnce := by
  have sound := (Library.sound_ofTexts texts).schema_sound resolved
  refine ⟨fun last => buildFrom_eq sound backend isModule last, ?_⟩
  have shopSound : (shopOf schema backend m.2).Sound := ⟨sound, rfl⟩
  exact (build_kept sound backend isModule).definesOnce shopSound

/-- A schema with one module, of which something is known. -/
theorem exists_module {α : Type} {result : Except SchemaError Resolved}
    {f : Resolved → String × SchemaNode → α} {a : α}
    (evaluated : (result.toOption.map fun schema => schema.modules.map (f schema)) = some [a]) :
    ∃ schema m, result = .ok schema ∧ m ∈ schema.modules ∧ f schema m = a := by
  cases result with
  | error e => simp [Except.toOption] at evaluated
  | ok schema =>
    simp only [Except.toOption, Option.map_some, Option.some.injEq] at evaluated
    obtain ⟨m, modules, value⟩ := List.map_eq_singleton_iff.1 evaluated
    exact ⟨schema, m, rfl, modules ▸ List.mem_singleton_self m, value⟩

/-- The same with a backend that is built in. -/
theorem exists_selected (name : String) (texts : List String) (f : Backend → Resolved → String × SchemaNode → Bool)
    (evaluated : Backend.Registry.builtin.toOption.any (fun built => (built.1.select name []).toOption.any
      fun selected => ((Library.ofTexts texts).resolve [] ⟨[]⟩).result.toOption.any fun schema =>
        schema.modules.any (f selected.1 schema)) = true) :
    ∃ registry log backend registry' schema m, Backend.Registry.builtin = .ok (registry, log) ∧
      registry.select name [] = .ok (backend, registry') ∧
      ((Library.ofTexts texts).resolve [] ⟨[]⟩).result = .ok schema ∧ m ∈ schema.modules ∧
      f backend schema m = true := by
  obtain ⟨⟨registry, log⟩, built, ofBackend⟩ := exists_ok evaluated
  obtain ⟨⟨backend, registry'⟩, selected, ofSchema⟩ := exists_ok ofBackend
  obtain ⟨schema, resolved, ofModule⟩ := exists_ok ofSchema
  obtain ⟨m, isModule, value⟩ := List.any_eq_true.1 ofModule
  exact ⟨registry, log, backend, registry', schema, m, built, selected, resolved, isModule, value⟩

/-- A module with a grouping that uses itself. -/
def recursiveGrouping : String :=
  "<module name='m' xmlns='urn:ietf:params:xml:ns:yang:yin:1'><grouping name='g'>" ++
  "<container name='a'><uses name='g'/></container></grouping></module>"

theorem build_ends_definesOnce_recursiveGrouping :
    ∃ schema m, ((Library.ofTexts [recursiveGrouping]).resolve [] ⟨[]⟩).result = .ok schema ∧
      m ∈ schema.modules ∧
      (∀ last, Module.buildFrom schema (.root 0) last m.2 = Module.build schema (.root 0) m.2) ∧
      (Module.build schema (.root 0) m.2).1.DefinesOnce ∧
      (Module.build schema (.root 0) m.2).1.ledgerOf "grouping" = [("m/g", 2)] := by
  have ledgers : (((Library.ofTexts [recursiveGrouping]).resolve [] ⟨[]⟩).result.toOption.map
      fun schema => schema.modules.map fun m =>
        (Module.build schema (.root 0) m.2).1.ledgerOf "grouping") = some [[("m/g", 2)]] := by
    decide +kernel
  obtain ⟨schema, m, resolved, isModule, ledger⟩ := exists_module ledgers
  obtain ⟨ends, once⟩ := build_ends_definesOnce _ _ _ schema resolved (.root 0) m isModule
  exact ⟨schema, m, resolved, isModule, ends, once, ledger⟩

end YangStubs.Model
