import YangStubs.Proofs.View.References

/-! # Imports that lead somewhere

An import names a type of another module.  Whether there is such a type depends on the model of that module: on
the first node of it that wants the name.  There is one for everything that the other module covers, but not
for what it only puts into the trees of others.
-/

namespace YangStubs.View

open YangStubs.Model
open YangStubs.Schema (Library Resolved SchemaNode Source Statement)

/-! ## Types of a view -/

/-- The names of all types of a view, which are its items without the procedures. -/
def ModuleItems.typeNames (view : ModuleItems) : List String :=
  view.classes.map (·.name) ++ (view.enums.map (·.name) ++ (view.unions.map (·.name) ++ view.aliases.map (·.name)))

theorem ModuleItems.mem_typeNames {view : ModuleItems} {x : String} :
    x ∈ view.typeNames ↔ ∃ k, k ≠ .rpcs ∧ ∃ e ∈ view.entries k, e.name = x := by
  have ofKind : x ∈ view.typeNames ↔ (∃ e ∈ view.entries .classes, e.name = x) ∨
      (∃ e ∈ view.entries .enums, e.name = x) ∨ (∃ e ∈ view.entries .unions, e.name = x) ∨
      ∃ e ∈ view.entries .aliases, e.name = x := by
    simp [ModuleItems.typeNames, ModuleItems.entries, Entry.name]
  rw [ofKind]
  constructor
  · rintro (found | found | found | found)
    · exact ⟨.classes, by decide, found⟩
    · exact ⟨.enums, by decide, found⟩
    · exact ⟨.unions, by decide, found⟩
    · exact ⟨.aliases, by decide, found⟩
  · rintro ⟨k, notRpcs, found⟩
    cases k with
    | rpcs => exact absurd rfl notRpcs
    | _ => simp [found]

/-- A name is that of a type exactly if the first item to take it is one. -/
theorem Filled.mem_typeNames {items : List Entry} {d : Draft} (filled : Filled items d) {x : String} :
    x ∈ d.view.typeNames ↔ ∃ k, k ≠ .rpcs ∧ holder? items x = some k := by
  rw [ModuleItems.mem_typeNames]
  refine exists_congr fun k => and_congr_right fun notRpcs => ?_
  constructor
  · rintro ⟨e, isKept, rfl⟩
    obtain ⟨rfl, -, -, -, -, own⟩ := (filled.kept e k).1 isKept
    exact own _ (Entry.name_mem_names notRpcs)
  · intro holds
    obtain ⟨e, member, takes, rfl⟩ := exists_of_holder holds
    have isName := Entry.name_eq_of_mem_names notRpcs takes
    have own : ∀ y ∈ e.names, holder? items y = some e.kind := by
      intro y takes'
      rw [Entry.name_eq_of_mem_names notRpcs takes', ← isName, holds]
    obtain ⟨first, prevails, sameKind, sameName⟩ := exists_prevails member own
    exact ⟨first, (filled.kept first e.kind).2 ⟨sameKind, prevails⟩, sameName.trans isName.symm⟩

/-! ## Linking -/

/-- What a node defines is named after the node alone, wherever it stands. -/
def Lens.NamesAlone (lens : Lens) (x : Node) : Prop :=
  x.kind = .leaf ∨ x.kind = .leafList → ∀ owner, lens.naming.inlineName owner x.name = lens.naming.className x.name

theorem Lens.NamesAlone.itemName_eq {lens : Lens} {x : Node} (alone : lens.NamesAlone x) :
    lens.itemName x = lens.naming.className x.name := by
  unfold Lens.itemName
  split
  · exact alone (.inl ‹_›) _
  · exact alone (.inr ‹_›) _
  · rfl

theorem sub?_name_eq {s t : Statement} (same : s.face = t.face) (keyword : String) :
    (s.sub? keyword).map Statement.name = (t.sub? keyword).map Statement.name := by
  have byHeading : ∀ s : Statement, (s.sub? keyword).map Statement.name =
      ((s.subs.map Statement.heading).find? (·.1 == keyword)).map fun heading => heading.2.getD heading.1 := by
    intro s
    rw [List.find?_map, Option.map_map]
    rfl
  obtain ⟨-, -, -, subs⟩ := Statement.face_eq_iff.1 same
  rw [byHeading, byHeading, subs]

/-- The names that nodes of a statement want, as far as they are named after it alone. -/
def wantedFor (backend : Backend) (s : Statement) : List String :=
  let name := backend.naming.className s.name
  let type := (s.sub? "type").map Statement.name
  match (backend.lookup? s.keyword).getD .module with
  | .container | .list | .grouping | .case | .notification => [name]
  | .rpc => Entry.messages name
  | .typedef => if type.isSome then [name] else []
  | .leaf | .leafList =>
    if type.any fun type => type == "enumeration" || type == "union" then [name] else []
  | _ => []

theorem wantedFor_eq_of_face_eq {s t : Statement} (same : s.face = t.face) (backend : Backend) :
    wantedFor backend s = wantedFor backend t := by
  have type := sub?_name_eq same "type"
  obtain ⟨keyword, arg, -⟩ := Statement.face_eq_iff.1 same
  simp only [wantedFor, Statement.name, keyword, arg, type]

section Statement

variable {schema : Resolved} (sound : schema.Sound) (backend : Backend) {m : String × SchemaNode}
  (isModule : m ∈ schema.modules) {s : Statement} (known : s ∈ schema.all) (notType : s.keyword ≠ "type")
  {node : Node} (member : node ∈ (Module.build schema backend m.2).1.listing) (isOf : node.statement = s.id)
include sound isModule known notType member isOf

/-- The type of a node is that of its statement, and defines something if that does. -/
theorem typing_of_statement (typed : partOf ((backend.lookup? s.keyword).getD .module) = .typing) :
    (node.typing.map fun t => t.enumeration.isSome || t.union.isSome) =
      ((s.sub? "type").map Statement.name).map fun type => type == "enumeration" || type == "union" := by
  obtain ⟨records, shows, -⟩ := lawful_of_statement sound backend isModule member known isOf
  cases isType : s.sub? "type" with
  | some type =>
    obtain ⟨t, typing, inline⟩ := shows.typed notType typed type isType
    rw [typing, Option.map_some, Option.map_some, Option.map_some, Option.some.injEq, Bool.eq_iff_iff]
    simpa using inline
  | none =>
    cases typing : node.typing with
    | none => rfl
    | some t =>
      obtain ⟨type, found, -⟩ := records.typing t typing
      rw [isType] at found
      cases found

theorem wanted_of_statement :
    let lens := Lens.ofModule (Module.build schema backend m.2).1 backend
    lens.NamesAlone node → lens.wanted node = wantedFor backend s := by
  intro lens alone
  obtain ⟨-, shows, -⟩ := lawful_of_statement sound backend isModule member known isOf
  have typing := typing_of_statement sound backend isModule known notType member isOf
  have kind : node.kind = kindOf ((backend.lookup? s.keyword).getD .module) s := shows.kind notType
  have naming : lens.naming = backend.naming := rfl
  have named := alone.itemName_eq
  rw [shows.name, naming] at named
  unfold Lens.wanted wantedFor
  rw [kind]
  cases constructor : (backend.lookup? s.keyword).getD .module with
  | typedef =>
    have both := congrArg Option.isSome (typing (by rw [constructor]; rfl))
    simp only [Option.isSome_map] at both
    simp only [kindOf, both, named, Option.isSome_map]
  | leaf =>
    have both := congrArg (Option.any id) (typing (by rw [constructor]; rfl))
    simp only [Option.any_map, id] at both
    simp only [kindOf, both, named, Option.any_map]
  | leafList =>
    have both := congrArg (Option.any id) (typing (by rw [constructor]; rfl))
    simp only [Option.any_map, id] at both
    simp only [kindOf, both, named, Option.any_map]
  | _ => simp only [kindOf, shows.name, naming]

end Statement

theorem exists_shown_of_covered {schema : Resolved} (sound : schema.Sound) (backend : Backend)
    {n : String × SchemaNode} (isModule : n ∈ schema.modules) {z : SchemaNode}
    (covered : Covered (shopOf schema backend n.2) n.2 z) (notModule : z.keyword ≠ "module")
    (own : z.statement.home = (Module.build schema backend n.2).1.name) :
    ∃ w ∈ shownNodes (Module.build schema backend n.2).1, w.statement = z.id := by
  have known := (covered.proper sound backend isModule).1.known
  obtain ⟨w, inListing, atId⟩ := build_covers sound backend isModule covered
  obtain ⟨-, shows, -⟩ := lawful_of_statement sound backend isModule inListing known atId
  refine ⟨w, List.mem_filter.2 ⟨(nodes_perm _).mem_iff.2 inListing, ?_⟩, atId⟩
  -- The only node of the module that is not shown is its own, and that has the keyword `module`.
  have notRoot : w.id ≠ (Module.build schema backend n.2).1.root.id := by
    intro sameId
    have isRoot := List.inj_on_of_nodup_map (build_kept sound backend isModule).ids_nodup inListing
      (mem_listingOfAll_of_mem List.mem_cons_self) sameId
    rw [isRoot, (build_listed sound backend isModule).1] at atId
    have rootKnown := (Covered.root.proper sound backend isModule).1.known
    have same := sound.eq_of_id_eq rootKnown known atId
    apply notModule
    rw [SchemaNode.keyword, ← same]
    exact (sound.modules n isModule).2.1
  simp [shows.home, own, notRoot]

theorem kindOf_leaf_iff {constructor : Backend.Constructor} {s : Statement} :
    kindOf constructor s = .leaf ∨ kindOf constructor s = .leafList ↔
      constructor = .leaf ∨ constructor = .leafList := by
  cases constructor <;> simp [kindOf]

/-- What a node wants in one module is wanted in another as well, if that covers what the statement of the
    node goes back to. -/
theorem holder_of_covered {schema : Resolved} (sound : schema.Sound) (backend : Backend)
    {m n : String × SchemaNode} (isModule : m ∈ schema.modules) (isOther : n ∈ schema.modules) {x : Node}
    (member : x ∈ (Module.build schema backend m.2).1.listing)
    (isOf : x.home = (Module.build schema backend n.2).1.name) {s : Statement} {z : SchemaNode}
    (found : schema.statement? x.statement = some s)
    (covered : Covered (shopOf schema backend n.2) n.2 z) (notModule : z.keyword ≠ "module")
    (same : z.statement.source = s.source) :
    let lens := Lens.ofModule (Module.build schema backend m.2).1 backend
    let other := (Module.build schema backend n.2).1
    lens.NamesAlone x → ∀ name ∈ lens.wanted x,
      ∃ k, holder? ((Lens.ofModule other backend).entriesOf (shownNodes other)) name = some k := by
  intro lens other alone name wants
  obtain ⟨known, atId⟩ := Resolved.Sound.statement?_spec found
  obtain ⟨proper, notType⟩ := covered.proper sound backend isOther
  have face := sound.face_eq_of_source_eq proper.known known same
  obtain ⟨keyword, arg, home, -⟩ := Statement.face_eq_iff.1 face
  have notType' : s.keyword ≠ "type" := keyword ▸ notType
  obtain ⟨-, shows, -⟩ := lawful_of_statement sound backend isModule member known atId.symm
  obtain ⟨w, isShown, atId'⟩ := exists_shown_of_covered sound backend isOther covered notModule
    (home.trans (shows.home.symm.trans isOf))
  have member' := mem_listing_of_shown isShown
  obtain ⟨-, shows', -⟩ := lawful_of_statement sound backend isOther member' proper.known atId'
  -- Both nodes are made by one constructor and have one name.
  have alone' : (Lens.ofModule other backend).NamesAlone w := by
    intro isLeaf
    have sameName : w.name = x.name := by
      rw [shows'.name, shows.name, Statement.name, Statement.name, keyword, arg]
    rw [shows'.kind notType, kindOf_leaf_iff, keyword] at isLeaf
    rw [sameName]
    refine alone ?_
    rw [shows.kind notType', kindOf_leaf_iff]
    exact isLeaf
  rw [wanted_of_statement sound backend isModule known notType' member atId.symm alone,
    ← wantedFor_eq_of_face_eq face,
    ← wanted_of_statement sound backend isOther proper.known notType member' atId' alone',
    ← entry?_names (build_kept sound backend isOther) backend member'] at wants
  cases isEntry : Lens.entry? (Lens.ofModule other backend) w with
  | none =>
    rw [isEntry] at wants
    cases wants
  | some e =>
    rw [isEntry] at wants
    exact exists_holder (List.mem_filterMap.2 ⟨w, isShown, isEntry⟩) wants

/-- The items of a view import what they refer to of other modules.  Such an import leads to a type of the
    other module exactly if the first node of that module to want the name is not a procedure.  Some node
    wants it if the other module covers what is referred to. -/
theorem imports_link_iff (texts : List String) (sources : List Source) (files : FileTree)
    (schema : Resolved)
    (resolved : ((Library.ofTexts texts).resolve sources files).result = .ok schema)
    (backend : Backend) (m n : String × SchemaNode) (isModule : m ∈ schema.modules)
    (isOther : n ∈ schema.modules) :
    let model := (Module.build schema backend m.2).1
    let lens := Lens.ofModule model backend
    let other := (Module.build schema backend n.2).1
    let items := (Lens.ofModule other backend).entriesOf (shownNodes other)
    let types := (ModuleItems.ofModule other backend).1.typeNames
    ∀ k, ∀ e ∈ (ModuleItems.ofModule model backend).1.entries k, ∃ node ∈ shownNodes model,
      lens.entry? node = some e ∧
      (∀ path, path ∈ e.imports ↔ ∃ x ∈ lens.references node,
        x.home ≠ model.name ∧ path = lens.naming.importPath x.home (lens.itemName x)) ∧
      ∀ x ∈ lens.references node, x.home = other.name →
        (lens.itemName x ∈ types ↔ ∃ k, k ≠ .rpcs ∧ holder? items (lens.itemName x) = some k) ∧
        ∀ s z, schema.statement? x.statement = some s → Covered (shopOf schema backend n.2) n.2 z →
          z.keyword ≠ "module" → z.statement.source = s.source →
          lens.NamesAlone x → lens.itemName x ∈ lens.wanted x →
          (lens.itemName x ∈ types ↔ holder? items (lens.itemName x) ≠ some .rpcs) := by
  intro model lens other items types k e isKept
  have sound := (Library.sound_ofTexts texts).schema_sound resolved
  obtain ⟨-, prevails⟩ := ((draftOf_filled model backend (shownNodes model)).kept e k).1 isKept
  obtain ⟨before, node, after, shownSplit, isEntry, -⟩ := prevails_entriesOf.1 prevails
  have shown : node ∈ shownNodes model := by simp [shownSplit]
  have filled := draftOf_filled other backend (shownNodes other)
  refine ⟨node, shown, isEntry, fun path => mem_imports lens isEntry, fun x refers isOf => ?_⟩
  refine ⟨filled.mem_typeNames, fun s z found covered notModule same alone wants => ?_⟩
  obtain ⟨k', holds⟩ := holder_of_covered sound backend isModule isOther
    (references_mem backend (mem_listing_of_shown shown) x refers) isOf found covered notModule same alone
    _ wants
  refine filled.mem_typeNames.trans ?_
  rw [holds]
  simp

/-- Two modules of which each refers to the other: the first uses a grouping of the second, which puts a
    container into one of the first. -/
def entwinedModules : List String :=
  ["<module name='m' xmlns='urn:ietf:params:xml:ns:yang:yin:1'><import module='n'><prefix value='n'/>" ++
    "</import><container name='c'><uses name='n:g'/></container></module>",
   "<module name='n' xmlns='urn:ietf:params:xml:ns:yang:yin:1'><import module='m'><prefix value='m'/>" ++
    "</import><grouping name='g'><container name='e'/></grouping>" ++
    "<augment target-node='/m:c'><container name='d'/></augment></module>"]

/-- The container of the grouping can be imported.  That of the augment is in no view: the module that
    defines it has no node of it, and where it has been put it belongs to another module. -/
theorem imports_link_iff_entwinedModules :
    ∃ schema m n, ((Library.ofTexts entwinedModules).resolve [] ⟨[]⟩).result = .ok schema ∧
      m ∈ schema.modules ∧ n ∈ schema.modules ∧
      (let view := (ModuleItems.ofModule (Module.build schema (.root 0) m.2).1 (.root 0)).1
       let other := (Module.build schema (.root 0) n.2).1
       let items := (Lens.ofModule other (.root 0)).entriesOf (shownNodes other)
       let types := (ModuleItems.ofModule other (.root 0)).1.typeNames
       (∃ e ∈ view.entries .classes, e.imports = ["n.D", "n.E", "n.G"]) ∧
         (holder? items "D" = none ∧ "D" ∉ types) ∧ holder? items "E" = some .classes ∧ "E" ∈ types) := by
  have outcome : (((Library.ofTexts entwinedModules).resolve [] ⟨[]⟩).result.toOption.any fun schema =>
      schema.modules.head?.any fun m => schema.modules.getLast?.any fun n =>
        let model := (Module.build schema (.root 0) m.2).1
        let lens := Lens.ofModule model (.root 0)
        let other := (Module.build schema (.root 0) n.2).1
        let items := (Lens.ofModule other (.root 0)).entriesOf (shownNodes other)
        other.name == "n" && holder? items "D" == none && holder? items "E" == some .classes &&
          ((ModuleItems.ofModule model (.root 0)).1.entries .classes).map Entry.imports == [["n.D", "n.E", "n.G"]] &&
          ((shownNodes model).map fun node => (lens.references node).map fun x =>
            ((schema.statement? x.statement).map Statement.source, x.home, lens.itemName x :: lens.wanted x)) ==
            [[(some 10, "n", ["E", "E"]), (some 12, "n", ["D", "D"]), (some 9, "n", ["G", "G"])]] &&
          (n.2.statement.subsWith "grouping").map (·.id) == [9] &&
          ((definitionsOf schema).map fun d => (d.node.id, d.node.keyword)) == [(9, "grouping")] &&
          ((definitionsOf schema).flatMap fun d => d.node.children.map fun c =>
            (c.statement.source, c.keyword)) == [(10, "container")]) = true := by
    decide +kernel
  obtain ⟨schema, resolved, outcome⟩ := Schema.exists_ok outcome
  obtain ⟨m, first, outcome⟩ := (Option.any_eq_true _ _).1 outcome
  obtain ⟨n, last, outcome⟩ := (Option.any_eq_true _ _).1 outcome
  have isModule : m ∈ schema.modules := List.mem_of_head? first
  have isOther : n ∈ schema.modules := List.mem_of_getLast? last
  simp only [Bool.and_eq_true, beq_iff_eq] at outcome
  obtain ⟨⟨⟨⟨⟨⟨⟨otherName, noD⟩, classE⟩, imports⟩, references⟩, groupings⟩, definitions⟩, children⟩ := outcome
  -- The grouping is at the top of its module, and the container is below it.
  obtain ⟨s, isAlone, atS⟩ := List.map_eq_singleton_iff.1 groupings
  obtain ⟨sub, keyword⟩ := mem_subsWith (isAlone ▸ List.mem_singleton_self s)
  obtain ⟨d, isOnly, ofD⟩ := List.map_eq_singleton_iff.1 definitions
  obtain ⟨atD, keywordD⟩ := Prod.mk.inj ofD
  rw [isOnly, List.flatMap_singleton] at children
  obtain ⟨z, isOnlyChild, ofZ⟩ := List.map_eq_singleton_iff.1 children
  obtain ⟨sourceZ, keywordZ⟩ := Prod.mk.inj ofZ
  have coveredG : Covered (shopOf schema (.root 0) n.2) n.2 d.node := by
    refine .atTop sub (by rw [keyword]; rfl) (by rw [keyword]; rfl) ?_ fun d' isDefinition _ _ => ?_
    · show (definitionsOf schema).find? (fun d => d.node.id == s.id) = some d
      simp [isOnly, atD, atS]
    · have listed : d' ∈ definitionsOf schema := isDefinition
      rw [isOnly] at listed
      exact List.mem_singleton.1 listed
  have covered : Covered (shopOf schema (.root 0) n.2) n.2 z := by
    refine .under coveredG ?_ (by simp [isOnlyChild]) ?_
    · rw [keywordD]
      rfl
    · rw [keywordZ]
      rfl
  obtain ⟨e, entries, ofClass⟩ := List.map_eq_singleton_iff.1 imports
  have isKept : e ∈ (ModuleItems.ofModule (Module.build schema (.root 0) m.2).1 (.root 0)).1.entries
      .classes := by simp [entries]
  obtain ⟨node, shown, -, -, links⟩ :=
    imports_link_iff _ _ _ schema resolved (.root 0) m n isModule isOther .classes e isKept
  obtain ⟨c, isAll, refers⟩ := List.map_eq_singleton_iff.1 references
  rw [isAll, List.mem_singleton] at shown
  obtain ⟨x, others, isRefs, ofE, ofOthers⟩ := List.map_eq_cons_iff.1 refers
  obtain ⟨y, others, rfl, ofD, -⟩ := List.map_eq_cons_iff.1 ofOthers
  simp only [Prod.mk.injEq, List.cons.injEq] at ofE ofD
  obtain ⟨sourceE, homeE, nameE, wantsE⟩ := ofE
  obtain ⟨-, homeD, nameD, -⟩ := ofD
  obtain ⟨copy, isCopy, source⟩ := Option.map_eq_some_iff.1 sourceE
  have linksD := (links y (by simp [shown, isRefs]) (homeD.trans otherName.symm)).1
  have linksE := (links x (by simp [shown, isRefs]) (homeE.trans otherName.symm)).2 copy z isCopy covered
    (by rw [keywordZ]; decide) (sourceZ.trans source.symm) (fun _ _ => rfl)
    (by rw [nameE, wantsE]; exact List.mem_singleton_self _)
  simp only [nameD, nameE, noD, classE] at linksD linksE
  refine ⟨schema, m, n, resolved, isModule, isOther, ⟨e, isKept, ofClass⟩, ⟨noD, ?_⟩, classE, ?_⟩
  · intro isType
    obtain ⟨k, -, holds⟩ := linksD.1 isType
    cases holds
  · exact linksE.2 (by simp)

end YangStubs.View
