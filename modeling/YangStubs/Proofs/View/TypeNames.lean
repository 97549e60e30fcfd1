import YangStubs.Proofs.Backend.Builtin
import YangStubs.Proofs.Model.Chains
import YangStubs.Proofs.Model.Paths
import YangStubs.Proofs.Naming.Spelling
import YangStubs.Proofs.View.Linking

/-! # Names of types

A leafref has the type that the last node of its chain has.  The node that it leads to is made below it, so that
an inline type of the target may be named after the leafref instead of what is around the target.
-/

namespace YangStubs.View

open YangStubs.Model
open YangStubs.Backend (Registry defaultName rustName select_lookup? select_naming)
open YangStubs.Naming (inlineName_some_eq_iff)
open YangStubs.Schema (Library Resolved SchemaNode Source Statement isBuiltinType isLeafKeyword)

/-! ## Following leafrefs by number -/

/-- The type of a node, found by looking up one node after the other. -/
inductive Lens.Types (lens : Lens) : Node → Needing String → Prop
  | own {n : Node} (last : n.reference? = none) : lens.Types n (lens.ownType n)
  | target {n r : Node} {id : Nat} {type : Needing String} (follows : n.reference? = some id)
      (found : lens.node? id = some r) (types : lens.Types r type) : lens.Types n type

section Steps

variable (lens : Lens) {n : Node}

theorem typeName_of_last (last : n.reference? = none) : lens.typeName n = lens.ownType n := by
  rw [Lens.typeName, Node.referent_of_last last]

theorem typeName_of_owned {r : Node} (owned : n.owned = [r]) (follows : n.reference? = some r.id) :
    lens.typeName n = lens.typeName r := by
  rw [Lens.typeName, Lens.typeName, Node.referent_of_owned owned follows]

end Steps

section Followed

variable {shop : Workshop} {tree : SchemaNode} {m : Module} (followed : m.Followed shop tree) (backend : Backend)
include followed

/-- Looking up one node after the other comes to an end, and to the type that the node has. -/
theorem types_typeName {n : Node} (member : n ∈ m.listing) :
    (Lens.ofModule m backend).Types n ((Lens.ofModule m backend).typeName n) := by
  -- Each node has a higher number than the one before it.
  induction isLeft : m.listing.length - n.id using Nat.strongRecOn generalizing n with
  | _ left ih =>
    cases follows : n.reference? with
    | none =>
      rw [typeName_of_last _ follows]
      exact .own follows
    | some id =>
      obtain ⟨busy, traced⟩ := followed.exists_traced n member
      obtain ⟨r, owned, rfl, -⟩ := traced.followed follows
      have isOwned : r ∈ n.owned := owned ▸ List.mem_singleton_self r
      have inListing := mem_listingOfAll_owned isOwned _ member
      have later := ((followed.arranged.seated n member).below r isOwned).2.2
      have within := followed.kept.id_le inListing
      rw [typeName_of_owned _ owned follows]
      exact .target follows (node?_eq followed.kept backend inListing) (ih _ (by omega) inListing rfl)

theorem types_iff {n : Node} (member : n ∈ m.listing) {type : Needing String} :
    (Lens.ofModule m backend).Types n type ↔ type = (Lens.ofModule m backend).typeName n := by
  refine ⟨fun types => ?_, fun same => same ▸ types_typeName followed backend member⟩
  induction types with
  | own last => exact (typeName_of_last _ last).symm
  | @target n r id type follows found _ ih =>
    have inListing := node?_mem backend found
    have atId : r.id = id := by simpa using List.find?_some found
    subst atId
    have owned := followed.owned_of_reference member inListing follows
    rw [ih inListing, typeName_of_owned _ owned follows]

end Followed

/-- With the default backend, leafrefs lead from node to node without coming back and as far as they can, and
    looking for the type of a node along them comes to an end. -/
theorem leafref_chains_end (texts : List String) (sources : List Source) (files : FileTree) (schema : Resolved)
    (resolved : ((Library.ofTexts texts).resolve sources files).result = .ok schema) (serial : Nat)
    (m : String × SchemaNode) (isModule : m ∈ schema.modules) :
    let model := (Module.build schema (.root serial) m.2).1
    let lens := Lens.ofModule model (.root serial)
    model.Chained schema ∧ ∀ n ∈ model.nodes, ∀ type, lens.Types n type ↔ type = lens.typeName n := by
  have standard : (shopOf schema (.root serial) m.2).Standard := lookup?_root serial
  have followed := build_followed resolved isModule standard
  refine ⟨followed.chained, fun n inNodes type => ?_⟩
  exact types_iff followed (.root serial) (Module.mem_nodes_iff.1 inNodes)

/-- A module with two leafrefs that refer to one another. -/
def mutualLeafrefs : String :=
  "<module name='m' xmlns='urn:ietf:params:xml:ns:yang:yin:1'><leaf name='a'><type name='leafref'>" ++
  "<path value='../b'/></type></leaf><leaf name='b'><type name='leafref'><path value='../a'/></type></leaf>" ++
  "</module>"

/-- Each of the two leads to the other one and from there to itself, where the chain is cut. -/
theorem leafref_chains_end_mutualLeafrefs :
    ∃ schema m, ((Library.ofTexts [mutualLeafrefs]).resolve [] ⟨[]⟩).result = .ok schema ∧ m ∈ schema.modules ∧
      (let model := (Module.build schema (.root 0) m.2).1
       let lens := Lens.ofModule model (.root 0)
       model.nodes.map (fun n => (n.id, n.statement, n.reference?)) =
          [(1, 1, none), (2, 2, some 3), (3, 5, some 4), (4, 2, none), (5, 5, some 6), (6, 2, some 7), (7, 5, none)] ∧
        model.Chained schema ∧ ∀ n ∈ model.nodes, lens.Types n (lens.typeName n)) := by
  have evaluated : (((Library.ofTexts [mutualLeafrefs]).resolve [] ⟨[]⟩).result.toOption.map
      fun schema => schema.modules.map fun m =>
        (Module.build schema (.root 0) m.2).1.nodes.map fun n => (n.id, n.statement, n.reference?)) =
      some [[(1, 1, none), (2, 2, some 3), (3, 5, some 4), (4, 2, none), (5, 5, some 6), (6, 2, some 7),
        (7, 5, none)]] := by
    decide +kernel
  obtain ⟨schema, m, resolved, isModule, nodes⟩ := exists_module evaluated
  obtain ⟨chained, types⟩ := leafref_chains_end _ _ _ schema resolved 0 m isModule
  exact ⟨schema, m, resolved, isModule, nodes, chained, fun n inNodes => (types n inNodes _).2 rfl⟩

/-! ## Types of targets -/

theorem form_inline_iff {t : Typing} : t.form = .enumeration ∨ t.form = .union ↔
    t.builtin = some "enumeration" ∨ t.builtin = some "union" := by
  rw [Typing.form]
  cases t.builtin with
  | none => cases t.typedef <;> simp
  | some name =>
    split <;> simp_all

theorem form_of_derived {t : Typing} (derived : t.builtin = none) : t.form = .typedefRef ∨ t.form = .unresolved := by
  rw [Typing.form, derived]
  cases t.typedef with
  | none => exact .inr rfl
  | some id => exact .inl rfl

section Types

variable (lens : Lens)

theorem ownType_of_inline {w : Node} {t : Typing} (typing : w.typing = some t)
    (inline : t.form = .enumeration ∨ t.form = .union) : lens.ownType w = lens.reference w := by
  rw [Lens.ownType, typing]
  rcases inline with form | form <;> simp only [form]

/-- Nodes whose types refer to the same things have one type, unless they define it themselves. -/
theorem ownType_congr {w w' : Node} {t t' : Typing} (typing : w.typing = some t) (typing' : w'.typing = some t')
    (builtin : t.builtin = t'.builtin) (typedef : t.typedef = t'.typedef)
    (dataType : t.builtin.isSome → t.dataType = t'.dataType)
    (plain : ¬ (t.form = .enumeration ∨ t.form = .union)) : lens.ownType w = lens.ownType w' := by
  have form : t'.form = t.form := by rw [Typing.form, Typing.form, builtin, typedef]
  have builtIn : t.form = .builtin ∨ t.form = .leafref → t.dataType = t'.dataType := by
    intro isForm
    refine dataType (Option.isSome_iff_ne_none.2 fun isNone => ?_)
    rcases form_of_derived isNone with derived | derived <;> simp [derived] at isForm
  rw [Lens.ownType, Lens.ownType, typing, typing']
  simp only [form]
  cases isForm : t.form with
  | builtin => rw [builtIn (.inl isForm)]
  | leafref => rw [builtIn (.inr isForm)]
  | enumeration => exact absurd (.inl isForm) plain
  | union => exact absurd (.inr isForm) plain
  | typedefRef => rw [typedef]
  | unresolved => rfl

theorem itemName_of_leaf {w : Node} (isLeaf : w.kind = .leaf ∨ w.kind = .leafList) :
    lens.itemName w = lens.naming.inlineName (lens.ownerName? w) w.name := by
  rw [Lens.itemName]
  rcases isLeaf with kind | kind <;> rw [kind]

theorem ownerName?_below_leaf {n r : Node} (isLeaf : n.kind = .leaf ∨ n.kind = .leafList)
    (parent : r.parent = some n.id) (found : lens.node? n.id = some n) :
    lens.ownerName? r = some (lens.naming.className n.name) := by
  rw [Lens.ownerName?, parent, Option.bind_some, found]
  rcases isLeaf with kind | kind <;> simp [kind]

end Types

/-- Whether the types of a leaf are defined where it stands. -/
def DefinesInline (s : Statement) : Prop :=
  (s.sub? "type").map (·.name) = some "enumeration" ∨ (s.sub? "type").map (·.name) = some "union"

section Targets

variable {shop : Workshop} {tree : SchemaNode} {m : Module} (followed : m.Followed shop tree) (backend : Backend)
  {s : Statement} (known : s ∈ shop.schema.all) (isLeaf : isLeafKeyword s.keyword)
include followed known isLeaf

theorem ownType_of_definesInline {w : Node} (member : w ∈ m.listing) (statement : w.statement = s.id)
    (inline : DefinesInline s) :
    let lens := Lens.ofModule m backend
    (lens.ownType w).value = lens.naming.inlineName (lens.ownerName? w) s.name := by
  intro lens
  obtain ⟨name, kind⟩ := followed.shows_leaf member known statement isLeaf
  obtain ⟨noType, -⟩ | ⟨type, t, isType, typing, builtin, -⟩ :=
    followed.typing_of_leaf member known statement isLeaf
  · simp [DefinesInline, noType] at inline
  · have form : t.form = .enumeration ∨ t.form = .union := by
      rw [form_inline_iff, builtin]
      rw [DefinesInline, isType, Option.map_some, Option.some.injEq, Option.some.injEq] at inline
      rcases inline with isName | isName <;> rw [isName] <;> decide
    rw [ownType_of_inline lens typing form, Lens.reference, itemName_of_leaf lens kind, name]

/-- The nodes of a leaf all have one type, unless each defines it where it stands. -/
theorem ownType_eq_of_statement {w w' : Node} (member : w ∈ m.listing) (member' : w' ∈ m.listing)
    (statement : w.statement = s.id) (statement' : w'.statement = s.id) (plain : ¬ DefinesInline s) :
    (Lens.ofModule m backend).ownType w = (Lens.ofModule m backend).ownType w' := by
  obtain ⟨noType, untyped⟩ | ⟨type, t, isType, typing, builtin, dataType, typedef⟩ :=
    followed.typing_of_leaf member known statement isLeaf
  all_goals obtain ⟨noType', untyped'⟩ | ⟨type', t', isType', typing', builtin', dataType', typedef'⟩ :=
    followed.typing_of_leaf member' known statement' isLeaf
  · rw [Lens.ownType, Lens.ownType, untyped, untyped']
  · cases noType.symm.trans isType'
  · cases isType.symm.trans noType'
  · obtain rfl := Option.some.inj (isType.symm.trans isType')
    refine ownType_congr _ typing typing' (builtin.trans builtin'.symm) (typedef.trans typedef'.symm) ?_ ?_
    · intro isSome
      have isBuiltin : isBuiltinType type.name = true := by
        apply Classical.byContradiction
        intro notBuiltin
        rw [builtin, if_neg notBuiltin] at isSome
        cases isSome
      rw [dataType isBuiltin, dataType' isBuiltin]
    · rw [form_inline_iff, builtin]
      rw [DefinesInline, isType, Option.map_some] at plain
      split
      · exact plain
      · nofun

end Targets

/-- A leafref to a leaf that is none has the type of the nodes of that leaf, with one exception: for Rust, an
    enumeration or a union is named after what is around it, which for the leafref is the leafref itself. -/
theorem leafref_typeName_eq_iff (texts : List String) (sources : List Source) (files : FileTree)
    (schema : Resolved) (resolved : ((Library.ofTexts texts).resolve sources files).result = .ok schema)
    {registry registry' : Registry} {log : Log} {name : String} {patterns : List (String × String)}
    {backend : Backend} (built : Registry.builtin = .ok (registry, log))
    (selected : registry.select name patterns = .ok (backend, registry'))
    (m : String × SchemaNode) (isModule : m ∈ schema.modules) :
    let model := (Module.build schema backend m.2).1
    let lens := Lens.ofModule model backend
    ∀ n ∈ model.nodes, ∀ w ∈ model.nodes, schema.leafTarget? n.statement = some w.statement →
      ∀ s, schema.statement? w.statement = some s → (s.sub? "type").map (·.name) ≠ some "leafref" →
        ((lens.typeName n).value = (lens.typeName w).value ↔
          Registry.key name = defaultName ∨ ¬ DefinesInline s ∨
            lens.naming.className n.name = (lens.ownerName? w).getD "") := by
  intro model lens n inNodes w inNodes' isTarget s stated notLeafref
  have followed := build_followed resolved isModule fun keyword =>
    (select_lookup? built selected keyword).trans (lookup?_root 0 keyword)
  rw [Module.mem_nodes_iff] at inNodes inNodes'
  obtain ⟨known, atId⟩ := Resolved.Sound.statement?_spec stated
  rw [← atId] at isTarget
  have isLeaf := followed.sound.schema.isLeaf_of_leafTarget? known isTarget
  obtain ⟨r, owned, follows, statement⟩ := followed.reference_of_target inNodes isTarget known rfl notLeafref
  have isOwned : r ∈ n.owned := owned ▸ List.mem_singleton_self r
  have inListing := mem_listingOfAll_owned isOwned _ inNodes
  have last := followed.reference?_eq_none inListing known statement notLeafref
  have last' := followed.reference?_eq_none inNodes' known atId.symm notLeafref
  rw [typeName_of_owned lens owned follows, typeName_of_last lens last, typeName_of_last lens last']
  -- Now `r` and `w` are nodes of one leaf, and all that sets them apart is what they are below.
  by_cases inline : DefinesInline s
  · obtain ⟨s', known', atId', isLeaf', -⟩ := Resolved.leafTarget?_spec followed.refers isTarget
    have owner : lens.ownerName? r = some (lens.naming.className n.name) :=
      ownerName?_below_leaf lens (followed.shows_leaf inNodes known' atId'.symm isLeaf').2
        ((followed.arranged.seated n inNodes).below r isOwned).1.parent (node?_eq followed.kept backend inNodes)
    rw [ownType_of_definesInline followed backend known isLeaf inListing statement inline,
      ownType_of_definesInline followed backend known isLeaf inNodes' atId.symm inline, owner]
    rcases select_naming built selected with ⟨isRust, naming⟩ | ⟨isDefault, naming⟩
    · have other : Registry.key name ≠ defaultName := by
        rw [isRust]
        decide
      have isNaming : lens.naming = .rust := naming
      rw [or_iff_right other, or_iff_right (not_not_intro inline), isNaming]
      exact inlineName_some_eq_iff _ _ _
    · refine iff_of_true ?_ (.inl isDefault)
      have isNaming : lens.naming = .standard := naming
      rw [isNaming]
      rfl
  · refine iff_of_true ?_ (.inr (.inl inline))
    exact congrArg Needing.value
      (ownType_eq_of_statement followed backend known isLeaf inListing inNodes' statement atId.symm inline)

/-- A module with a leafref to an enumeration beside it. -/
def leafrefToEnumeration : String :=
  "<module name='m' xmlns='urn:ietf:params:xml:ns:yang:yin:1'><container name='c'><leaf name='mode'>" ++
  "<type name='enumeration'><enum name='fast'/></type></leaf><leaf name='ref'><type name='leafref'>" ++
  "<path value='../mode'/></type></leaf></container></module>"

/-- Whether a leafref to an enumeration has one type and its target another. -/
def Lens.differsInType (lens : Lens) (schema : Resolved) (type targetType : String) (n w : Node) : Bool :=
  schema.leafTarget? n.statement == some w.statement &&
    (schema.statement? w.statement).any (fun s => (s.sub? "type").map (·.name) == some "enumeration") &&
    (lens.typeName n).value == type && (lens.typeName w).value == targetType

/-- For Rust, the leafref does not have the type of its target. -/
theorem leafref_typeName_eq_iff_leafrefToEnumeration :
    ∃ registry log backend registry' schema m, Registry.builtin = .ok (registry, log) ∧
      registry.select rustName [] = .ok (backend, registry') ∧
      ((Library.ofTexts [leafrefToEnumeration]).resolve [] ⟨[]⟩).result = .ok schema ∧ m ∈ schema.modules ∧
      (let model := (Module.build schema backend m.2).1
       let lens := Lens.ofModule model backend
       ∃ n ∈ model.nodes, ∃ w ∈ model.nodes, schema.leafTarget? n.statement = some w.statement ∧
         (lens.typeName n).value = "RefMode" ∧ (lens.typeName w).value = "CMode" ∧
         lens.naming.className n.name ≠ (lens.ownerName? w).getD "") := by
  obtain ⟨registry, log, backend, registry', schema, m, built, selected, resolved, isModule, ofNodes⟩ :=
    exists_selected rustName [leafrefToEnumeration] (fun backend schema m =>
      let model := (Module.build schema backend m.2).1
      model.nodes.any fun n => model.nodes.any fun w =>
        (Lens.ofModule model backend).differsInType schema "RefMode" "CMode" n w) (by decide +kernel)
  obtain ⟨n, inNodes, ofTarget⟩ := List.any_eq_true.1 ofNodes
  obtain ⟨w, inNodes', differs⟩ := List.any_eq_true.1 ofTarget
  simp only [Lens.differsInType, Bool.and_eq_true, beq_iff_eq] at differs
  obtain ⟨⟨⟨isTarget, ofType⟩, type⟩, targetType⟩ := differs
  refine ⟨registry, log, backend, registry', schema, m, built, selected, resolved, isModule, n, inNodes, w,
    inNodes', isTarget, type, targetType, fun same => ?_⟩
  cases stated : schema.statement? w.statement with
  | none =>
    rw [stated] at ofType
    cases ofType
  | some s =>
    have isEnumeration : (s.sub? "type").map (·.name) = some "enumeration" := by simpa [stated] using ofType
    have notLeafref : (s.sub? "type").map (·.name) ≠ some "leafref" := by
      rw [isEnumeration]
      decide
    have equal := (leafref_typeName_eq_iff _ _ _ schema resolved built selected m isModule n inNodes w inNodes'
      isTarget s stated notLeafref).2 (.inr (.inr same))
    rw [type, targetType] at equal
    exact absurd equal (by decide)

end YangStubs.View
