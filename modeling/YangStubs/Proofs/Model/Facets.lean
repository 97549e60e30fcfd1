import YangStubs.Proofs.Model.Chains
import YangStubs.Proofs.Model.Paths

/-! # The parts of a type

A leaf, leaf-list or typedef has a type if its statement has one.  Main statement: which parts the type of a node has
agrees with how it is to be understood, and the nodes that it names are in the model, at the places where they belong.
-/

namespace YangStubs.Model

open YangStubs.Schema

/-! ## How a type is to be understood -/

/-- Which form a type has is settled by its name and by whether there is a typedef. -/
theorem form_iff {t : Typing} {name : String}
    (builtin : t.builtin = if isBuiltinType name then some name else none) :
    (t.form = .enumeration ↔ name = "enumeration") ∧ (t.form = .union ↔ name = "union") ∧
      (t.form = .leafref ↔ name = "leafref") ∧
      (t.form = .typedefRef ↔ isBuiltinType name = false ∧ t.typedef.isSome) ∧
      (t.form = .unresolved ↔ isBuiltinType name = false ∧ t.typedef = none) := by
  have known : isBuiltinType "enumeration" = true ∧ isBuiltinType "union" = true ∧ isBuiltinType "leafref" = true := by
    decide
  rw [Typing.form, builtin]
  cases isBuiltin : isBuiltinType name with
  | false =>
    have other : ∀ {name'}, isBuiltinType name' = true → name ≠ name' := by
      rintro _ isBuiltin' rfl
      cases isBuiltin.symm.trans isBuiltin'
    cases t.typedef <;> simp [other known.1, other known.2.1, other known.2.2]
  | true =>
    simp only [if_true, Bool.true_eq_false, false_and, iff_false]
    split <;> simp_all

/-! ## Coherent types -/

/-- The type of a node, which is that of a `type` statement, has the parts that its form asks for. -/
structure Typing.Coherent (m : Module) (type : Statement) (n : Node) (t : Typing) : Prop where
  isBuiltin : t.isBuiltin = true ↔ t.form ≠ .typedefRef ∧ t.form ≠ .unresolved
  exclusive : t.builtin = none ∨ t.typedef = none
  dataType : t.dataType = none ↔ t.form = .unresolved
  enumeration : t.enumeration.isSome ↔ t.form = .enumeration
  /-- The node of an enumeration is below the node, and its values are the nodes of the `enum` statements. -/
  enumerates : ∀ i, t.enumeration = some i → ∃ c ∈ m.nodes, c.id = i ∧ c.parent = some n.id ∧
    ∃ values : List Node, c.kind = .enumeration (values.map (·.id)) ∧
      values.map (·.statement) = (type.subsWith "enum").map (·.id) ∧
      ∀ v ∈ values, v ∈ m.nodes ∧ v.parent = some c.id ∧ ∃ value, v.kind = .enum value
  union : t.union.isSome ↔ t.form = .union
  /-- The node of a union is below the node. -/
  unites : ∀ i, t.union = some i → ∃ c ∈ m.nodes, c.id = i ∧ c.parent = some n.id ∧ ∃ members, c.kind = .union members
  leafref : t.reference.isSome ∨ t.path.isSome → t.form = .leafref
  /-- A typedef is a node that the ledger lists. -/
  typedef : ∀ i, t.typedef = some i → ∃ d ∈ m.nodes, d.id = i ∧ d.keyword = "typedef" ∧
    (d.key, i) ∈ m.ledgerOf "typedef"

namespace Module.Followed

variable {shop : Workshop} {tree : SchemaNode} {m : Module} (followed : m.Followed shop tree)
include followed

theorem owned_mem {n c : Node} (member : n ∈ m.listing) (isOwned : c ∈ n.owned) : c ∈ m.nodes ∧ c.parent = some n.id :=
  ⟨Module.mem_nodes_iff.2 (mem_listingOfAll_owned isOwned _ member),
    ((followed.arranged.seated n member).below c isOwned).1.parent⟩

theorem kind_of_value {type : Statement} (known : type ∈ shop.schema.all) {c : Node} (member : c ∈ m.listing)
    (enumerates : c.Enumerates type) {v : Node} (isOwned : v ∈ c.owned) : ∃ value, v.kind = .enum value := by
  have isEnum : v.statement ∈ (type.subsWith "enum").map (·.id) := enumerates.values ▸ List.mem_map_of_mem isOwned
  obtain ⟨s, sub, atId⟩ := List.mem_map.1 isEnum
  obtain ⟨inSubs, keyword⟩ := mem_subsWith sub
  have shows := followed.shows (Module.mem_nodes_iff.1 (followed.owned_mem member isOwned).1)
    (Resolved.Sound.subs_known known inSubs) atId.symm
  have kind := shows.kind (by rw [keyword]; decide)
  rw [keyword, followed.standard.constructorFor_eq] at kind
  exact ⟨_, kind⟩

theorem typedef_listed {type : Statement} {i : Nat} (answered : (shop.typedefIn m.ledger type).map (·.2) = some i) :
    ∃ d ∈ m.nodes, d.id = i ∧ d.keyword = "typedef" ∧ (d.key, i) ∈ m.ledgerOf "typedef" := by
  obtain ⟨answer, found, rfl⟩ := Option.map_eq_some_iff.1 answered
  obtain ⟨definition, -, entered⟩ := Option.bind_eq_some_iff.1 found
  obtain ⟨e, isEntry, rfl⟩ := Option.map_eq_some_iff.1 entered
  obtain ⟨inLedger, keyword, -⟩ := entered?_spec isEntry
  obtain ⟨d, inListing, rfl⟩ := (followed.kept.entry_mem_iff (by decide) keyword).1 inLedger
  exact ⟨d, Module.mem_nodes_iff.2 inListing, rfl, keyword,
    Module.Kept.mem_ledgerOf.2 ⟨_, inLedger, Prod.ext keyword rfl, rfl⟩⟩

theorem coherent {n : Node} (member : n ∈ m.listing) {s type : Statement} (known : s ∈ shop.schema.all)
    (isType : s.sub? "type" = some type) {t : Typing} (typing : n.typing = some t) {busy : List Nat}
    (typedAs : n.TypedAs shop busy s type t)
    (typedef : t.typedef = if isBuiltinType type.name then none else (shop.typedefIn m.ledger type).map (·.2)) :
    t.Coherent m type n := by
  have typeKnown := Resolved.Sound.subs_known known (sub?_spec isType).1
  obtain ⟨enumeration, union, leafref, typedefRef, unresolved⟩ := form_iff typedAs.builtin
  have facets := typedAs.facets
  refine ⟨?_, ?_, ?_, ?_, fun i isEnumeration => ?_, ?_, fun i isUnion => ?_, fun linked => ?_, fun i isTypedef => ?_⟩
  · rw [ne_eq, ne_eq, typedefRef, unresolved, facets.isBuiltin]
    cases isBuiltinType type.name <;> cases t.typedef <;> simp
  · rw [typedAs.builtin, typedef]
    cases isBuiltinType type.name <;> simp
  · rw [unresolved]
    cases isBuiltin : isBuiltinType type.name with
    | true => simp [typedAs.dataType isBuiltin]
    | false => simp [facets.derived isBuiltin]
  · rw [enumeration, facets.enumeration, beq_iff_eq]
  · obtain ⟨c, isOwned, atId, enumerates⟩ := facets.values i isEnumeration
    obtain ⟨inNodes, parent⟩ := followed.owned_mem member isOwned
    have inListing := Module.mem_nodes_iff.1 inNodes
    refine ⟨c, inNodes, atId, parent, c.owned, enumerates.kind, enumerates.values, fun v isValue => ?_⟩
    obtain ⟨valueInNodes, valueParent⟩ := followed.owned_mem inListing isValue
    exact ⟨valueInNodes, valueParent, followed.kind_of_value typeKnown inListing enumerates isValue⟩
  · rw [union, facets.union, beq_iff_eq]
  · obtain ⟨_, _, _, shows⟩ := (followed.kept.lawful n member).shows
    obtain ⟨c, isOwned, atId, members⟩ := shows.types.union t typing i isUnion
    obtain ⟨inNodes, parent⟩ := followed.owned_mem member isOwned
    exact ⟨c, inNodes, atId, parent, members⟩
  · rw [leafref]
    by_contra other
    obtain ⟨path, reference⟩ := facets.leafref other
    simp [path, reference] at linked
  · rw [isTypedef] at typedef
    split at typedef
    · cases typedef
    · exact followed.typedef_listed typedef.symm

end Module.Followed

/-- In the model of a module, made by a backend with the standard constructors, a leaf, leaf-list or typedef has a type
    exactly if its statement has one, and the parts of the type agree with each other and with the nodes of the model. -/
theorem build_typings_coherent (texts : List String) (sources : List Source) (files : FileTree) (schema : Resolved)
    (resolved : ((Library.ofTexts texts).resolve sources files).result = .ok schema) (backend : Backend)
    (standard : ∀ keyword, backend.lookup? keyword = Backend.standardConstructors.lookup keyword)
    (m : String × SchemaNode) (isModule : m ∈ schema.modules) :
    let model := (Module.build schema backend m.2).1
    ∀ n ∈ model.nodes, n.keyword ∈ ["leaf", "leaf-list", "typedef"] →
      ∃ s ∈ schema.all, n.statement = s.id ∧ n.keyword = s.keyword ∧
        (s.sub? "type" = none → n.typing = none) ∧
        ∀ type, s.sub? "type" = some type → ∃ t, n.typing = some t ∧ t.Coherent model type n := by
  intro model n inNodes isTyped
  have followed : model.Followed (shopOf schema backend m.2) m.2 := build_followed resolved isModule standard
  rw [Module.mem_nodes_iff] at inNodes
  obtain ⟨s, known, statement, keyword, -⟩ := (followed.kept.lawful n inNodes).records
  rw [keyword] at isTyped
  have part : partOf ((shopOf schema backend m.2).constructorFor s.keyword) = .typing := by
    rw [followed.standard.constructorFor_eq]
    simp only [List.mem_cons, List.not_mem_nil, or_false] at isTyped
    rcases isTyped with same | same | same <;> rw [same] <;> rfl
  have notType : s.keyword ≠ "type" := fun same => by simp [same] at isTyped
  refine ⟨s, known, statement, keyword, ?_⟩
  rcases followed.typing_of_statement inNodes known statement notType part with
    ⟨noType, untyped⟩ | ⟨type, t, busy, isType, typing, typedAs, typedef⟩
  · exact ⟨fun _ => untyped, fun type isType => by cases noType.symm.trans isType⟩
  · refine ⟨fun noType => (by cases noType.symm.trans isType), fun type' isType' => ?_⟩
    obtain rfl := Option.some.inj (isType.symm.trans isType')
    exact ⟨t, typing, followed.coherent inNodes known isType typing typedAs typedef⟩

/-- A module with two typedefs that refer to each other, an enumeration and a leaf of an unknown type. -/
def typedLeaves : String :=
  "<module name='m' xmlns='urn:ietf:params:xml:ns:yang:yin:1'><typedef name='a'><type name='b'/></typedef>" ++
  "<typedef name='b'><type name='a'/></typedef><leaf name='x'><type name='a'/></leaf><leaf name='y'>" ++
  "<type name='enumeration'><enum name='u'/><enum name='v'/></type></leaf><leaf name='z'><type name='c'/></leaf></module>"

theorem build_typings_coherent_typedLeaves :
    ∃ schema m, ((Library.ofTexts [typedLeaves]).resolve [] ⟨[]⟩).result = .ok schema ∧ m ∈ schema.modules ∧
      (let model := (Module.build schema (.root 0) m.2).1
       model.nodes.map (fun n => (n.keyword, n.typing.map (·.form))) =
         [("module", none), ("leaf", some .typedefRef), ("typedef", some .typedefRef), ("typedef", some .typedefRef),
           ("leaf", some .enumeration), ("type", none), ("enum", none), ("enum", none), ("leaf", some .unresolved)] ∧
       ∀ n ∈ model.nodes, n.keyword ∈ ["leaf", "leaf-list", "typedef"] → ∃ s ∈ schema.all, n.statement = s.id ∧
         ∀ type, s.sub? "type" = some type → ∃ t, n.typing = some t ∧ t.Coherent model type n) := by
  have evaluated : (((Library.ofTexts [typedLeaves]).resolve [] ⟨[]⟩).result.toOption.map
      fun schema => schema.modules.map fun m =>
        (Module.build schema (.root 0) m.2).1.nodes.map fun n => (n.keyword, n.typing.map (·.form))) =
      some [[("module", none), ("leaf", some .typedefRef), ("typedef", some .typedefRef),
        ("typedef", some .typedefRef), ("leaf", some .enumeration), ("type", none), ("enum", none), ("enum", none),
        ("leaf", some .unresolved)]] := by
    decide +kernel
  obtain ⟨schema, m, resolved, isModule, forms⟩ := exists_module evaluated
  refine ⟨schema, m, resolved, isModule, forms, fun n inNodes isTyped => ?_⟩
  obtain ⟨s, known, statement, -, -, coherent⟩ :=
    build_typings_coherent _ _ _ schema resolved (.root 0) (lookup?_root 0) m isModule n inNodes isTyped
  exact ⟨s, known, statement, coherent⟩

end YangStubs.Model
