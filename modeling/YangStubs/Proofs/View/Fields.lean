import YangStubs.Proofs.Model.Chains
import YangStubs.Proofs.Model.Paths
import YangStubs.View.Lens

/-! # Fields and data paths

A class has a field for each leaf, leaf-list, container and list below its node, and what is in choices and cases below
it counts as well.  Data paths see through choices and cases, too, but in the schema tree.  Main statement: as long as
no two nodes of one name stand side by side, both come to the same nodes in the same order.
-/

namespace YangStubs.View

open YangStubs.Model
open YangStubs.Schema

/-! ## What fields stand for -/

/-- The keywords of the data nodes that classes have fields for. -/
def fieldKeywords : List String :=
  ["leaf", "leaf-list", "container", "list"]

/-- The data nodes below a position, which are those that a data path can step down to. -/
def dataBelow (place : Position) : List Position :=
  dataPositionsOfAll (place.node :: place.above) place.node.children

/-- Those of them that classes have fields for. -/
def fieldsAt (positions : List Position) : List Position :=
  positions.filter fun p => fieldKeywords.contains p.node.keyword

/-- A leaf or a leaf-list has a value in all data.  What has no type is not held to it. -/
structure IsMandatory (s : Statement) : Prop where
  isLeaf : isLeafKeyword s.keyword
  isTyped : (s.sub? "type").isSome
  isStated : s.argOf? "mandatory" = some "true"

/-- A field of a class stands for a data node below the node of the class, which `site` leads to. -/
structure FieldItem.StandsFor (site : List SchemaNode) (f : FieldItem) (p : Position) : Prop where
  schemaName : f.schemaName = p.node.name
  isList : f.isList = true ↔ p.node.keyword ∈ ["leaf-list", "list"]
  isClass : f.isClass = true ↔ p.node.keyword ∈ ["container", "list"]
  /-- There is no choice or case in between. -/
  mandatory : f.mandatory = true ↔ IsMandatory p.node.statement ∧ p.above = site

/-- The fields of a node stand for the data nodes that a data path can step down to from its statement, in their order,
    as far as these are leafs, leaf-lists, containers and lists.  A step leads to the first of a name. -/
def Lens.FollowsData (lens : Lens) (schema : Resolved) (n : Node) : Prop :=
  ∃ s ∈ schema.all, n.statement = s.id ∧ ∀ above,
    let place : Position := ⟨schemaNode schema s, above⟩
    List.Forall₂ (FieldItem.StandsFor (place.node :: above)) (lens.fieldList n).value (fieldsAt (dataBelow place)) ∧
      ∀ name, place.down? name = (dataBelow place).find? (·.node.name == name)

/-! ## Fields of nodes that stand side by side -/

/-- The fields that a node is for the class around it, or brings with it. -/
def Lens.fieldsOf (lens : Lens) (optional : Bool) (node : Node) : List (Needing FieldItem) :=
  if node.kind == .choice || node.kind == .case then lens.fields true node else lens.field optional node

theorem Lens.fieldsAmong_eq (lens : Lens) (optional : Bool) {children : List (String × Nat)} {l : List Node}
    (listed : ∀ c ∈ l, children.any (·.2 == c.id) = true) :
    lens.fieldsAmong optional children l = l.flatMap (lens.fieldsOf optional) := by
  induction l with
  | nil => rfl
  | cons node rest ih =>
    obtain ⟨here, others⟩ := List.forall_mem_cons.1 listed
    rw [Lens.fieldsAmong, List.flatMap_cons, ih others, Lens.fieldsOf]
    simp only [here, if_true]

/-- If the nodes below a node have different names, none of them is left out. -/
theorem Lens.fields_eq (lens : Lens) (optional : Bool) {shop : Workshop} {x : SchemaNode} {n : Node} {members : Members}
    (isMembers : n.members = some members) (holds : n.Holds shop x members)
    (distinct : (x.children.map (·.name)).Nodup) :
    lens.fields optional n = n.owned.flatMap (lens.fieldsOf optional) := by
  have names : n.owned.map (·.name) = (shop.served x.children).map (·.name) := by
    have related := holds.areOf
    generalize shop.served x.children = served, n.owned = owned at related
    induction related with
    | nil => rfl
    | cons isOf _ ih => rw [List.map_cons, List.map_cons, isOf.name, ih]
  have nodup : ((n.owned.map fun c => (c.name, c.id)).map (·.1)).Nodup := by
    rw [List.map_map, show ((·.1) ∘ fun c : Node => (c.name, c.id)) = fun c => c.name from rfl, names]
    exact distinct.sublist (List.filter_sublist.map _)
  have children := holds.children
  rw [firstOfEach_of_nodup nodup] at children
  have unfolded : lens.fields optional n = lens.fieldsAmong optional ((n.members.map (·.children)).getD []) n.owned := by
    cases n
    rfl
  rw [unfolded, isMembers, Option.map_some, Option.getD_some, children]
  refine lens.fieldsAmong_eq optional fun c isOwned => ?_
  exact List.any_eq_true.2 ⟨(c.name, c.id), List.mem_map_of_mem isOwned, beq_self_eq_true _⟩

theorem standardConstructors_fields : ∀ entry ∈ Backend.standardConstructors, isSeenThrough entry.1 = false →
    entry.1 ∉ fieldKeywords → entry.2 ∉ [.choice, .case, .leaf, .leafList, .container, .list] := by
  decide

theorem Lens.fieldsOf_eq_nil (lens : Lens) (optional : Bool) {c : Node} {constructor : Backend.Constructor}
    {s : Statement} (kind : c.kind = kindOf constructor s)
    (other : constructor ∉ [.choice, .case, .leaf, .leafList, .container, .list]) : lens.fieldsOf optional c = [] := by
  rw [Lens.fieldsOf, Lens.field, kind]
  cases constructor <;> first | rfl | simp at other

/-! ## Nodes of data nodes -/

section Followed

variable {shop : Workshop} {tree : SchemaNode} {m : Module} (followed : m.Followed shop tree)
include followed

theorem mandatory_iff {c : Node} (member : c ∈ m.listing) {y : SchemaNode} (isOf : c.IsOf y)
    (proper : Proper shop.schema y) (isField : y.keyword ∈ fieldKeywords) :
    c.mandatory = true ↔ IsMandatory y.statement := by
  have notType : y.keyword ≠ "type" := fun isType => by simp [isType, fieldKeywords] at isField
  rw [Node.mandatory]
  by_cases isLeaf : isLeafKeyword y.keyword = true
  · rcases followed.typing_of_statement member proper.known isOf.statement notType
        (followed.standard.lookup?_leaf isLeaf).2 with ⟨noType, untyped⟩ | ⟨type, t, _, isType, typing, typedAs, -⟩
    · rw [untyped]
      exact ⟨nofun, fun mandatory => absurd mandatory.isTyped (by simp [noType])⟩
    · rw [typing, Option.any_some, typedAs.facets.mandatory, beq_iff_eq]
      exact ⟨fun stated => ⟨isLeaf, by rw [isType]; rfl, stated⟩, fun mandatory => mandatory.isStated⟩
  · -- Containers and lists have members and no type.
    have part : partOf (shop.constructorFor y.keyword) = .members := by
      rw [followed.standard.constructorFor_eq]
      simp only [fieldKeywords, List.mem_cons, List.not_mem_nil, or_false] at isField
      rcases isField with same | same | same | same <;> rw [same] at isLeaf ⊢ <;> first | rfl | exact absurd rfl isLeaf
    obtain ⟨members, isMembers⟩ := Option.isSome_iff_exists.1
      ((followed.shows member proper.known isOf.statement).opened notType part)
    obtain ⟨_, -, holds⟩ := (followed.arranged.seated c member).members members isMembers
    rw [holds.untyped]
    exact ⟨nofun, fun mandatory => absurd mandatory.isLeaf isLeaf⟩

section

variable (lens : Lens) {c : Node} (member : c ∈ m.listing) {y : SchemaNode} (isOf : c.IsOf y)
  (proper : Proper shop.schema y)
include lens member isOf proper

theorem fieldsOf_data (served : (shop.backend.lookup? y.keyword).isSome) (notType : y.keyword ≠ "type")
    (isData : isSeenThrough y.keyword = false) {optional : Bool} {site above : List SchemaNode}
    (isOptional : optional = false ↔ above = site) :
    List.Forall₂ (FieldItem.StandsFor site) ((lens.fieldsOf optional c).map (·.value)) (fieldsAt [⟨y, above⟩]) := by
  have kind : c.kind = kindOf (shop.constructorFor y.keyword) y.statement :=
    (followed.shows member proper.known isOf.statement).kind notType
  rw [followed.standard.constructorFor_eq] at kind
  by_cases isField : y.keyword ∈ fieldKeywords
  · have kept : fieldsAt [⟨y, above⟩] = [⟨y, above⟩] := List.filter_cons_of_pos (List.contains_iff_mem.2 isField)
    have mandatory : (c.mandatory && !optional) = true ↔ IsMandatory y.statement ∧ above = site := by
      rw [Bool.and_eq_true, Bool.not_eq_true', mandatory_iff followed member isOf proper isField, isOptional]
    have standsFor : ∀ {type isList isClass}, (isList = true ↔ y.keyword ∈ ["leaf-list", "list"]) →
        (isClass = true ↔ y.keyword ∈ ["container", "list"]) →
        (lens.fieldItem c type isList isClass optional).StandsFor site ⟨y, above⟩ :=
      fun isList isClass => ⟨isOf.name, isList, isClass, mandatory⟩
    rw [kept]
    simp only [fieldKeywords, List.mem_cons, List.not_mem_nil, or_false] at isField
    rcases isField with keyword | keyword | keyword | keyword <;> rw [keyword] at kind standsFor <;>
      simp only [Lens.fieldsOf, kind, Lens.field] <;> exact .cons (standsFor (by decide) (by decide)) .nil
  · have dropped : fieldsAt [⟨y, above⟩] = [] := by simp [fieldsAt, isField]
    rw [followed.standard] at served
    obtain ⟨constructor, found⟩ := Option.isSome_iff_exists.1 served
    rw [found] at kind
    rw [dropped, lens.fieldsOf_eq_nil optional kind
      (standardConstructors_fields _ (mem_of_lookup_eq_some found) isData isField)]
    exact .nil

/-- A choice or a case brings the fields with it that it has itself. -/
theorem fieldsOf_seen (seen : isSeenThrough y.keyword = true) (optional : Bool) :
    c.members.isSome ∧ lens.fieldsOf optional c = lens.fields true c := by
  simp only [isSeenThrough, Bool.or_eq_true, beq_iff_eq] at seen
  have notType : y.keyword ≠ "type" := fun isType => by simp [isType] at seen
  have shows := followed.shows member proper.known isOf.statement
  have isOpen : partOf (shop.constructorFor y.keyword) = .members → c.members.isSome := shows.opened notType
  have kind : c.kind = kindOf (shop.constructorFor y.keyword) y.statement := shows.kind notType
  rw [followed.standard.constructorFor_eq] at isOpen kind
  rcases seen with keyword | keyword <;> rw [keyword] at isOpen kind <;>
    exact ⟨isOpen rfl, by rw [Lens.fieldsOf, kind]; rfl⟩

end

omit followed

/-- Backends with the standard constructors make nodes of all fields, choices and cases. -/
theorem served_of_standard (standard : shop.Standard) {keyword : String}
    (unserved : ¬ (shop.backend.lookup? keyword).isSome = true) :
    isSeenThrough keyword = false ∧ keyword ∉ fieldKeywords := by
  rw [standard] at unserved
  constructor
  · refine Bool.eq_false_iff.2 fun seen => unserved ?_
    simp only [isSeenThrough, Bool.or_eq_true, beq_iff_eq] at seen
    rcases seen with rfl | rfl <;> decide
  · intro isField
    simp only [fieldKeywords, List.mem_cons, List.not_mem_nil, or_false] at isField
    refine unserved ?_
    rcases isField with rfl | rfl | rfl | rfl <;> decide

mutual
theorem fields_standFor (followed : m.Followed shop tree) (lens : Lens)
    (distinct : ∀ s ∈ shop.schema.all, ((schemaNode shop.schema s).children.map (·.name)).Nodup) :
    ∀ (x : SchemaNode) {n : Node} {optional : Bool} {site above : List SchemaNode}, n ∈ m.listing → n.IsOf x →
      Proper shop.schema x → n.members.isSome → site <:+ x :: above → (optional = false ↔ x :: above = site) →
      List.Forall₂ (FieldItem.StandsFor site) ((lens.fields optional n).map (·.value))
        (fieldsAt (dataPositionsOfAll (x :: above) x.children))
  | ⟨statement, children, augment⟩, n, optional, site, above, member, isOf, proper, isOpen, within, isOptional => by
    obtain ⟨members, isMembers⟩ := Option.isSome_iff_exists.1 isOpen
    obtain ⟨x, isOf', holds⟩ := (followed.arranged.seated n member).members members isMembers
    obtain rfl := isOf.eq followed.sound.schema isOf' proper holds.proper
    have names := distinct _ proper.known
    rw [proper.own] at names
    rw [lens.fields_eq optional isMembers holds names]
    refine fieldsAll_standFor followed lens distinct children (fun c isOwned => ?_) holds.areOf ?_ within isOptional
    · exact mem_listingOfAll_owned isOwned _ member
    · cases proper with
      | intro _ _ tree below => exact fun c isChild => ⟨below c isChild, tree c isChild⟩

theorem fieldsAll_standFor (followed : m.Followed shop tree) (lens : Lens)
    (distinct : ∀ s ∈ shop.schema.all, ((schemaNode shop.schema s).children.map (·.name)).Nodup) :
    ∀ (children : List SchemaNode) {owned : List Node} {optional : Bool} {site above : List SchemaNode},
      (∀ c ∈ owned, c ∈ m.listing) → List.Forall₂ Node.IsOf (shop.served children) owned →
      (∀ y ∈ children, Proper shop.schema y ∧ isTreeKeyword y.keyword) → site <:+ above →
      (optional = false ↔ above = site) →
      List.Forall₂ (FieldItem.StandsFor site) ((owned.flatMap (lens.fieldsOf optional)).map (·.value))
        (fieldsAt (dataPositionsOfAll above children))
  | [], owned, optional, site, above, inListing, areOf, spec, within, isOptional => by
    cases areOf
    exact .nil
  | y :: rest, owned, optional, site, above, inListing, areOf, spec, within, isOptional => by
    obtain ⟨⟨proper, isTree⟩, others⟩ := List.forall_mem_cons.1 spec
    have notType : y.keyword ≠ "type" := fun isType => absurd (isType ▸ isTree) (by decide)
    rw [dataPositionsOfAll, fieldsAt, List.filter_append]
    rw [Workshop.served, List.filter_cons] at areOf
    split at areOf
    · rename_i served
      cases areOf with
      | @cons _ c _ owned isOf areOf =>
        obtain ⟨member, inListing⟩ := List.forall_mem_cons.1 inListing
        rw [List.flatMap_cons, List.map_append]
        refine List.rel_append ?_ (fieldsAll_standFor followed lens distinct rest inListing areOf others within isOptional)
        by_cases seen : isSeenThrough y.keyword = true
        · -- What is in a choice or a case is optional, and has the choice or case above it.
          have between : (true = false ↔ y :: above = site) :=
            ⟨nofun, fun same => absurd (same ▸ within).length_le (by simp)⟩
          obtain ⟨isOpen, fields⟩ := fieldsOf_seen followed lens member isOf proper seen optional
          rw [SchemaNode.dataPositions_of_seen above seen, fields]
          exact fields_standFor followed lens distinct y member isOf proper isOpen
            (within.trans (List.suffix_cons _ _)) between
        · have isData := Bool.eq_false_iff.2 seen
          rw [SchemaNode.dataPositions_of_data above isData]
          exact fieldsOf_data followed lens member isOf proper served notType isData isOptional
    · rename_i unserved
      obtain ⟨isData, notField⟩ := served_of_standard followed.standard unserved
      rw [SchemaNode.dataPositions_of_data above isData, List.filter_cons_of_neg (by simpa using notField)]
      exact fieldsAll_standFor followed lens distinct rest inListing areOf others within isOptional
end

end Followed

/-- In the model of a module, made by a backend with the standard constructors, the fields of nodes with members follow
    data paths, if no statement of the schema has two children of one name. -/
theorem build_fields_followData (texts : List String) (sources : List Source) (files : FileTree)
    (schema : Resolved) (resolved : ((Library.ofTexts texts).resolve sources files).result = .ok schema)
    (distinct : ∀ s ∈ schema.all, ((schemaNode schema s).children.map (·.name)).Nodup) (backend : Backend)
    (standard : ∀ keyword, backend.lookup? keyword = Backend.standardConstructors.lookup keyword)
    (m : String × SchemaNode) (isModule : m ∈ schema.modules) :
    let model := (Module.build schema backend m.2).1
    ∀ n ∈ model.nodes, n.members.isSome → (Lens.ofModule model backend).FollowsData schema n := by
  intro model n inNodes isOpen
  have followed : model.Followed (shopOf schema backend m.2) m.2 := build_followed resolved isModule standard
  have member := Module.mem_nodes_iff.1 inNodes
  obtain ⟨members, isMembers⟩ := Option.isSome_iff_exists.1 isOpen
  obtain ⟨x, isOf, holds⟩ := (followed.arranged.seated n member).members members isMembers
  have own : schemaNode schema x.statement = x := holds.proper.own
  refine ⟨x.statement, holds.proper.known, isOf.statement, fun above => ?_⟩
  rw [own]
  exact ⟨fields_standFor followed _ distinct x member isOf holds.proper isOpen List.suffix_rfl (by simp),
    fun name => dataNodeIn?_eq_find? name _ _⟩

/-- A module with a mandatory leaf, another one in a choice, and a list in a choice in a case. -/
def nestedChoices : String :=
  "<module name='m' xmlns='urn:ietf:params:xml:ns:yang:yin:1'><leaf name='a'><type name='t'/><mandatory value='true'/>" ++
  "</leaf><choice name='k'><leaf name='b'><type name='t'/><mandatory value='true'/></leaf><case name='q'>" ++
  "<choice name='r'><list name='d'/></choice></case></choice></module>"

theorem build_fields_followData_nestedChoices :
    ∃ schema m, ((Library.ofTexts [nestedChoices]).resolve [] ⟨[]⟩).result = .ok schema ∧ m ∈ schema.modules ∧
      (∀ s ∈ schema.all, ((schemaNode schema s).children.map (·.name)).Nodup) ∧
      (let model := (Module.build schema (.root 0) m.2).1
       let lens := Lens.ofModule model (.root 0)
       ∃ n ∈ model.nodes, n.keyword = "module" ∧ lens.FollowsData schema n ∧
        (lens.fieldList n).value.map (fun f => (f.schemaName, f.isList, f.isClass, f.mandatory)) =
          [("a", false, false, true), ("b", false, false, false), ("d", true, true, false)]) := by
  have evaluated : (((Library.ofTexts [nestedChoices]).resolve [] ⟨[]⟩).result.toOption.map
      fun schema => schema.modules.map fun m =>
        (schema.all.all fun s => decide ((schemaNode schema s).children.map (·.name)).Nodup) &&
        (let model := (Module.build schema (.root 0) m.2).1
         model.nodes.any fun n => n.keyword == "module" && n.members.isSome &&
          ((Lens.ofModule model (.root 0)).fieldList n).value.map
            (fun f => (f.schemaName, f.isList, f.isClass, f.mandatory)) ==
          [("a", false, false, true), ("b", false, false, false), ("d", true, true, false)])) = some [true] := by
    decide +kernel
  obtain ⟨schema, m, resolved, isModule, value⟩ := exists_module evaluated
  simp only [Bool.and_eq_true, List.all_eq_true, List.any_eq_true, decide_eq_true_eq, beq_iff_eq] at value
  obtain ⟨distinct, n, inNodes, ⟨isRoot, isOpen⟩, fields⟩ := value
  exact ⟨schema, m, resolved, isModule, distinct, n, inNodes, isRoot, build_fields_followData _ _ _ schema resolved
    distinct (.root 0) (lookup?_root 0) m isModule n inNodes isOpen, fields⟩

/-- A module with a leaf that is mandatory and has no type. -/
def untypedLeaf : String :=
  "<module name='m' xmlns='urn:ietf:params:xml:ns:yang:yin:1'><container name='c'><leaf name='a'>" ++
  "<mandatory value='true'/></leaf></container></module>"

/-- The leaf stands just below the container, and its field is not mandatory. -/
theorem field_optional_of_untypedLeaf :
    ∃ schema m, ((Library.ofTexts [untypedLeaf]).resolve [] ⟨[]⟩).result = .ok schema ∧ m ∈ schema.modules ∧
      (∀ s ∈ schema.all, ((schemaNode schema s).children.map (·.name)).Nodup) ∧
      (let model := (Module.build schema (.root 0) m.2).1
       ∃ n ∈ model.nodes, n.members.isSome ∧ ∃ c ∈ m.2.children, n.statement = c.id ∧ ∃ leaf ∈ c.children,
        leaf.keyword = "leaf" ∧ leaf.statement.argOf? "mandatory" = some "true" ∧
        ((Lens.ofModule model (.root 0)).fieldList n).value.map (fun f => (f.schemaName, f.mandatory)) =
          [(leaf.name, false)]) := by
  have evaluated : (((Library.ofTexts [untypedLeaf]).resolve [] ⟨[]⟩).result.toOption.map
      fun schema => schema.modules.map fun m =>
        (schema.all.all fun s => decide ((schemaNode schema s).children.map (·.name)).Nodup) &&
        (let model := (Module.build schema (.root 0) m.2).1
         model.nodes.any fun n => n.members.isSome && m.2.children.any fun c => n.statement == c.id &&
          c.children.any fun leaf => leaf.keyword == "leaf" && leaf.statement.argOf? "mandatory" == some "true" &&
            ((Lens.ofModule model (.root 0)).fieldList n).value.map (fun f => (f.schemaName, f.mandatory)) ==
              [(leaf.name, false)])) = some [true] := by
    decide +kernel
  obtain ⟨schema, m, resolved, isModule, value⟩ := exists_module evaluated
  simp only [Bool.and_eq_true, List.all_eq_true, List.any_eq_true, decide_eq_true_eq, beq_iff_eq, and_assoc] at value
  exact ⟨schema, m, resolved, isModule, value⟩

end YangStubs.View
