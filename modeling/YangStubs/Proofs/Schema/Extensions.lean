import YangStubs.Proofs.Schema.Conservation
import YangStubs.Proofs.Schema.Targets

/-! # Statements that are not standard

An element outside of the standard namespace is meant to be an extension: a statement whose keyword has a qualifier and
whose argument is its first attribute, and that resolving leaves alone.  Main statement: this holds of it unless no
qualifier is found for its namespace and it is called like a standard keyword.
-/

namespace YangStubs.Schema

open YangStubs.Markup
open Statement (withinAll)
open SchemaNode (nodesOfAll)

/-! ## Keywords of foreign elements -/

/-- A qualifier is found for the namespace of an element: the first declaration of it in scope has one. -/
def hasQualifier (tag : Tag) : Bool :=
  (tag.space.bind (qualifierOf? tag)).any (!·.isEmpty)

theorem colon_not_mem_of_standard {keyword : String} (standard : isStandardKeyword keyword = true) :
    ':' ∉ keyword.toList := by
  have plain : ∀ entry ∈ standardKeywords, ':' ∉ entry.1.toList := by decide +kernel
  obtain ⟨form, found⟩ := Option.isSome_iff_exists.1 standard
  exact plain _ (mem_of_lookup_eq_some found)

theorem foreignKeyword_cases (tag : Tag) :
    if hasQualifier tag then isStandardKeyword (foreignKeyword tag) = false else foreignKeyword tag = tag.name := by
  unfold hasQualifier foreignKeyword
  cases tag.space.bind (qualifierOf? tag) with
  | none => rfl
  | some qualifier =>
    cases empty : qualifier.isEmpty with
    | true => simp [empty]
    | false =>
      simp only [Option.any_some, empty, Bool.not_false, if_true, Bool.false_eq_true, if_false]
      refine Bool.eq_false_iff.2 fun standard => colon_not_mem_of_standard standard ?_
      simp [String.toList_append]

/-- What a record of an extension says: a keyword that is not standard, and the first attribute. -/
def Record.IsExtension (tag : Tag) (r : Record) : Prop :=
  isStandardKeyword r.keyword = false ∧ r.arg = tag.attributes.head?.map (·.value)

theorem isExtension_iff {e : Element} (foreign : e.tag.space ≠ some yinSpace) {r : Record}
    (keyword : r.keyword = keywordOf e) (arg : r.arg = argumentOf? e) :
    (r.IsExtension e.tag ↔ hasQualifier e.tag = true ∨ isStandardKeyword e.tag.name = false) ∧
      (¬ r.IsExtension e.tag → r.keyword = e.tag.name ∧ r.arg = none) := by
  have outside : (e.tag.space == some yinSpace) = false := by simpa using foreign
  have cases := foreignKeyword_cases e.tag
  simp only [keywordOf, argumentOf?, formOf?, outside, Bool.false_eq_true, if_false] at keyword arg
  rw [Record.IsExtension, keyword]
  cases standard : isStandardKeyword (foreignKeyword e.tag) with
  | false =>
    rw [standard] at arg
    have extension : hasQualifier e.tag = true ∨ isStandardKeyword e.tag.name = false := by
      cases qualified : hasQualifier e.tag with
      | true => exact .inl rfl
      | false =>
        rw [qualified] at cases
        exact .inr (cases ▸ standard)
    exact ⟨⟨fun _ => extension, fun _ => ⟨rfl, arg⟩⟩, fun not => absurd ⟨rfl, arg⟩ not⟩
  | true =>
    rw [standard] at arg cases
    cases qualified : hasQualifier e.tag with
    | true => simp [qualified] at cases
    | false =>
      rw [qualified] at cases
      have named : foreignKeyword e.tag = e.tag.name := cases
      refine ⟨⟨fun extension => absurd extension.1 (by decide), ?_⟩, fun _ => ⟨named, arg⟩⟩
      rintro (isTrue | isFalse)
      · cases isTrue
      · rw [← named, standard] at isFalse
        cases isFalse

/-- Of an accepted document, every element has its statement. -/
theorem Library.exists_record_of_accepted {library : Library} {text : String} {root : Element} {id : Nat}
    (parsed : Element.parse? text = some root) (accepted : (library.add text).result = .ok id) {e : NumberedElement}
    (inside : e ∈ elementsOf library.next root) :
    ∃ r ∈ (library.add text).library.records,
      r.id = e.number ∧ r.keyword = keywordOf e.element ∧ r.arg = argumentOf? e.element := by
  have added : library.add text = library.addElement root := by rw [Library.add, parsed]
  rw [added] at accepted ⊢
  unfold Library.addElement at accepted ⊢
  cases named : moduleName root.tag with
  | error fault =>
    rw [named] at accepted
    cases accepted
  | ok name =>
    have error := (readContent_follows name library.next none (.element root.tag root.content)).error
    change (readElement name library.next root).error = firstFault? name (elementsOf library.next root) at error
    simp only [named, error] at accepted ⊢
    cases fault : firstFault? name (elementsOf library.next root) with
    | some fault =>
      rw [fault] at accepted
      cases accepted
    | none =>
      have records := records_read library name root
      rw [recordsOf, faultless_of_none fault, withSubs, List.map_map] at records
      have known : ∃ r ∈ Library.records
          { library with forest := library.forest ++ (readElement name library.next root).statements },
          r.id = e.number ∧ r.keyword = keywordOf e.element ∧ r.arg = argumentOf? e.element := by
        rw [records]
        exact ⟨_, List.mem_append_right _ (List.mem_map_of_mem inside), rfl, rfl, rfl⟩
      obtain ⟨r, isRecord, facts⟩ := known
      refine ⟨r, ?_, facts⟩
      simp only
      split <;> exact isRecord

/-! ## Resolving leaves extensions alone -/

namespace Resolved

/-- A statement that takes no part in resolving: it has no links, nothing refers to it, and no tree starts at it. -/
structure Inert (schema : Resolved) (s : Statement) : Prop where
  links : s.grouping = none ∧ s.typedef = none
  referred : ∀ t ∈ schema.all, t.grouping ≠ some s.id ∧ t.typedef ≠ some s.id
  targets : ∀ t ∈ schema.targets, t.1 ≠ s.id ∧ t.2 ≠ s.id
  roots : ∀ tree ∈ schema.modules.map (·.2) ++ schema.groupings ++ schema.augments, tree.id ≠ s.id
  marks : ∀ node ∈ nodesOfAll schema.modules.below, node.augment ≠ some s.id

end Resolved

namespace Library.LinksTo

variable {library : Library} {schema : Resolved}

theorem targets_type (way : library.LinksTo schema) {t : Nat × Nat} (member : t ∈ schema.targets) :
    ∃ s ∈ schema.all, s.id = t.1 ∧ s.keyword = "type" := by
  rw [way.targets, linkLeafrefs_eq] at member
  obtain ⟨item, isItem, linked⟩ := List.mem_filterMap.1 member
  obtain ⟨target, -, rfl⟩ := Option.map_eq_some_iff.1 linked
  have leafref := Resolved.isLeafref_of_mem isItem
  exact ⟨item.1, Resolved.Sound.subs_known leafref.known leafref.inside, rfl, leafref.keyword⟩

theorem inert (way : library.LinksTo schema) (isSound : library.Sound) {s : Statement} (known : s ∈ schema.all)
    (extension : isStandardKeyword s.keyword = false) : schema.Inert s := by
  have sound := way.sound isSound
  -- Whatever takes part in resolving has a standard keyword, so it is another statement.
  have other : ∀ {d : Statement} {keyword : String}, d ∈ schema.all → d.keyword = keyword →
      isStandardKeyword keyword = true → d.id ≠ s.id := by
    rintro d _ inAll rfl standard same
    rw [sound.eq_of_id_eq inAll known same, extension] at standard
    cases standard
  have read : ∀ d ∈ withinAll schema.forest, d ∈ schema.all := fun d => List.mem_append_left _
  have refers := sound.refers s known
  have augments : ∀ a ∈ schema.augments, a.id ≠ s.id := by
    intro a isAugment
    have inForest : a.statement ∈ augmentsOfForest schema.forest :=
      sound.augments ▸ List.mem_map_of_mem isAugment
    exact other (read _ ((augmentsOfForest_sublist _).subset inForest)) (augmentsOfForest_keyword inForest) (by decide)
  refine ⟨⟨?_, ?_⟩, fun t inAll => ⟨fun link => ?_, fun link => ?_⟩, fun t member => ⟨?_, ?_⟩, fun tree member => ?_,
    fun node below marked => ?_⟩
  · refine Option.eq_none_iff_forall_ne_some.2 fun id link => ?_
    rw [refers.grouping id link] at extension
    exact absurd extension (by decide)
  · refine Option.eq_none_iff_forall_ne_some.2 fun id link => ?_
    rw [(refers.typedef id link).1] at extension
    exact absurd extension (by decide)
  · obtain ⟨d, inForest, keyword, same⟩ := (sound.refers t inAll).uses ((sound.refers t inAll).grouping _ link)
    exact other (read d inForest) keyword (by decide) (Option.some.inj (same.symm.trans link))
  · obtain ⟨-, d, inForest, keyword, same⟩ := (sound.refers t inAll).typedef _ link
    exact other (read d inForest) keyword (by decide) same
  · obtain ⟨d, inAll, same, keyword⟩ := way.targets_type member
    exact same ▸ other inAll keyword (by decide)
  · obtain ⟨d, inAll, same, isLeaf⟩ := sound.targets t member
    simp only [isLeafKeyword, Bool.or_eq_true, beq_iff_eq] at isLeaf
    exact same ▸ isLeaf.elim (other inAll · (by decide)) (other inAll · (by decide))
  · rcases List.mem_append.1 member with isTree | isAugment
    · rcases List.mem_append.1 isTree with isModule | isGrouping
      · obtain ⟨m, inModules, rfl⟩ := List.mem_map.1 isModule
        obtain ⟨inForest, keyword, -⟩ := sound.modules m inModules
        exact other (read _ (Statement.mem_withinAll_of_mem inForest)) keyword (by decide)
      · have inForest : tree.statement ∈ groupingsOfForest schema.forest :=
          sound.groupings ▸ List.mem_map_of_mem isGrouping
        obtain ⟨inForest, keyword⟩ := mem_groupingsOfForest.1 inForest
        exact other (read _ inForest) keyword (by decide)
    · exact augments tree isAugment
  · obtain ⟨a, isAugment, same⟩ := (way.ready isSound).marks way.augmented node below s.id marked
    exact augments a (way.augments ▸ isAugment) same

/-- A statement and its copies say what was read. -/
theorem repeats_read (way : library.LinksTo schema) (isSound : library.Sound) {r : Record} (isRead : r ∈ library.records) :
    (∃ s ∈ schema.all, s.id = r.id) ∧ ∀ s ∈ schema.all, s.source = r.id → s.keyword = r.keyword ∧ s.arg = r.arg := by
  have sound := way.sound isSound
  have inRecords := (way.kept isSound).subset isRead
  rw [Resolved.records_written] at inRecords
  obtain ⟨p, listed, rfl⟩ := List.mem_map.1 inRecords
  have known : p.statement ∈ schema.all := Resolved.statements_eq_all schema ▸ List.mem_map_of_mem listed
  refine ⟨⟨_, known, rfl⟩, fun s inAll fromIt => ?_⟩
  cases sound.copies s inAll with
  | inl original =>
    have same : s.id = p.statement.id := by rwa [Statement.source, original] at fromIt
    rw [sound.eq_of_id_eq inAll known same]
    exact ⟨rfl, rfl⟩
  | inr copied =>
    obtain ⟨t, inForest, copy⟩ := copied
    have same : t.id = p.statement.id := by
      rwa [Statement.source, copy.origin, sound.read t inForest] at fromIt
    rw [copy.keyword, copy.arg, sound.eq_of_id_eq (List.mem_append_left _ inForest) known same]
    exact ⟨rfl, rfl⟩

end Library.LinksTo

/-- An element outside of the standard namespace, in a document that is accepted, becomes an extension unless no
    qualifier is found for its namespace and it is called like a standard keyword; then it becomes a statement of that
    keyword without an argument.  Whatever is resolved later, extensions and their copies take no part in it. -/
theorem foreign_extension_iff (texts : List String) (text : String) (root : Element) (id : Nat)
    (parsed : Element.parse? text = some root) (accepted : ((Library.ofTexts texts).add text).result = .ok id)
    (e : NumberedElement) (inside : e ∈ elementsOf (Library.ofTexts texts).next root)
    (foreign : e.element.tag.space ≠ some yinSpace) :
    ∃ r ∈ ((Library.ofTexts texts).add text).library.records, r.id = e.number ∧
      (r.IsExtension e.element.tag ↔
        hasQualifier e.element.tag = true ∨ isStandardKeyword e.element.tag.name = false) ∧
      (¬ r.IsExtension e.element.tag → r.keyword = e.element.tag.name ∧ r.arg = none) ∧
      ∀ (later : List String) (sources : List Source) (files : FileTree) (schema : Resolved),
        ((Library.ofTexts (texts ++ text :: later)).resolve sources files).result = .ok schema →
        (∃ s ∈ schema.all, s.id = e.number) ∧ ∀ s ∈ schema.all, s.source = e.number →
          s.keyword = r.keyword ∧ s.arg = r.arg ∧ (r.IsExtension e.element.tag → schema.Inert s) := by
  obtain ⟨r, isRead, number, keyword, arg⟩ := Library.exists_record_of_accepted parsed accepted inside
  obtain ⟨iff, otherwise⟩ := isExtension_iff foreign keyword arg
  refine ⟨r, isRead, number, iff, otherwise, fun later sources files schema resolved => ?_⟩
  have sound := (Library.sound_ofTexts (texts ++ text :: later)).loadAll sources files
  obtain ⟨way⟩ := Library.link_ok (Library.link_loadAll resolved)
  have extended : (Library.ofTexts (texts ++ text :: later)).Extends ((Library.ofTexts texts).add text).library := by
    rw [Library.ofTexts, List.foldl_append, List.foldl_cons]
    exact .addTexts later ⟨List.prefix_rfl, ((Library.ofTexts_extends texts).add text).modules⟩
  have stillRead := (extended.loadAll sources files).records.subset (extended.records.subset isRead)
  obtain ⟨present, repeats⟩ := way.repeats_read sound stillRead
  rw [number] at present repeats
  refine ⟨present, fun s known fromIt => ⟨(repeats s known fromIt).1, (repeats s known fromIt).2, fun extension => ?_⟩⟩
  exact way.inert sound known ((repeats s known fromIt).1 ▸ extension.1)

/-- A module with an element called `leaf` whose namespace is first declared without a qualifier. -/
def defaultDeclared : String :=
  "<module name='m' xmlns='urn:ietf:params:xml:ns:yang:yin:1'><container name='c'>" ++
  "<v:leaf xmlns='urn:v' xmlns:v='urn:v' name='x'/></container></module>"

/-- The element is read as a leaf without a name. -/
theorem foreign_extension_iff_defaultDeclared : ∃ root id e, Element.parse? defaultDeclared = some root ∧
    ((Library.ofTexts []).add defaultDeclared).result = .ok id ∧ e ∈ elementsOf (Library.ofTexts []).next root ∧
    e.element.tag.space = some "urn:v" ∧ e.element.tag.attributes.map (·.value) = ["x"] ∧
    ∃ r ∈ ((Library.ofTexts []).add defaultDeclared).library.records,
      r.id = e.number ∧ r.keyword = "leaf" ∧ r.arg = none := by
  have evaluated : (Element.parse? defaultDeclared).any (fun root =>
      (Library.empty.addElement root).result.toOption.any (fun _ => true) && (elementsOf 1 root)[2]?.any (fun e =>
        e.element.tag.space == some "urn:v" && e.element.tag.name == "leaf" && !hasQualifier e.element.tag &&
        e.element.tag.attributes.map (·.value) == ["x"])) = true := by decide +kernel
  simp only [Option.any_eq_true, Bool.and_eq_true, beq_iff_eq, Bool.not_eq_true'] at evaluated
  obtain ⟨root, parsed, ⟨_, succeeds, -⟩, e, isThird, ⟨⟨space, name⟩, unqualified⟩, attributes⟩ := evaluated
  obtain ⟨id, accepted, -⟩ := exists_ok (f := fun _ => true) (by rw [succeeds]; rfl)
  have accepted : ((Library.ofTexts []).add defaultDeclared).result = .ok id := by
    rw [Library.add, parsed]
    exact accepted
  have inside : e ∈ elementsOf (Library.ofTexts []).next root := List.mem_of_getElem? isThird
  obtain ⟨r, isRead, number, iff, otherwise, -⟩ := foreign_extension_iff [] defaultDeclared root id parsed accepted e
    inside (by rw [space]; decide)
  have standard : isStandardKeyword "leaf" = true := by decide
  rw [unqualified, name, standard] at iff
  obtain ⟨keyword, arg⟩ := otherwise fun extension => by simpa using iff.1 extension
  exact ⟨root, id, e, parsed, accepted, inside, space, attributes, r, isRead, number, keyword.trans name, arg⟩

end YangStubs.Schema
