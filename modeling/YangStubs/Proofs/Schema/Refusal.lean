import YangStubs.Proofs.Schema.Inclusion

/-! # Refused modules

A text that is refused leaves behind what was read of it, and resolving goes through that too.  So a refused module
matters if a reference in it does not resolve, or if it augments a module: then resolving fails or the schema has
nodes that it would not have otherwise.  In all other cases the outcome is that of the accepted texts alone.
-/

namespace YangStubs.Schema

open Statement (within withinAll Numbered)

/-! ## Outcomes -/

/-- The second result is the same error as the first, or a schema that includes the first one. -/
inductive SameOutcome : Except SchemaError Resolved → Except SchemaError Resolved → Prop
  | error (e : SchemaError) : SameOutcome (.error e) (.error e)
  | ok {schema schema' : Resolved} {ρ : Nat → Nat} (includes : schema.Includes ρ schema') :
      SameOutcome (.ok schema) (.ok schema')

/-- Every tree links, and the augments of leftovers have no nodes, though a target in the trees. -/
def Library.HarmlessFor (library : Library) (modules : SchemaTrees) : Prop :=
  ∃ forest, library.forest.mapM (linkTree library.directory) = .ok forest ∧
    ∀ a ∈ augmentsOfForest (library.leftoversIn forest),
      (meaning isSchemaNode (groupingsOfForest forest) [] a).children = [] ∧
        ∃ path, augmentPath? library.directory a = some path ∧ modules.at? path ≠ none

theorem Library.ExpandsTo.children_eq_nil_iff {library : Library} {forest : List Statement}
    (way : library.ExpandsTo forest) (sound : library.Sound) {a : SchemaNode}
    (member : a ∈ way.expansion.augments) :
    a.children = [] ↔ (meaning isSchemaNode (groupingsOfForest forest) [] a.statement).children = [] := by
  have known := sound.read_forest way.same
  have means := expandForest_means (library.modules.map (·.2)) (fun t inside => (known t inside).2.2)
    (fun t inside => (known t inside).1) (Nat.le_refl (⟨library.next, [], way.log⟩ : Growth).next)
  rw [way.expanded] at means
  have forgotten := List.mem_map_of_mem (f := fun node => node.forget library.next) member
  rw [means.augments] at forgotten
  obtain ⟨s, inForest, isMeaning⟩ := List.mem_map.1 forgotten
  have below : ∀ t ∈ a.statement.within, t.id < library.next := by
    intro t inside
    have isAugment : a.statement ∈ augmentsOfForest forest := way.roots.augments ▸ List.mem_map_of_mem member
    exact (known t (Statement.withinAll_trans forest ((augmentsOfForest_sublist forest).subset isAugment) inside)).2.2
  have sameStatement : s = a.statement := by
    have statements := congrArg SchemaNode.statement isMeaning
    rw [SchemaNode.forget_statement, Statement.forget_of_lt _ below, meaning_eq] at statements
    exact statements
  rw [← List.length_eq_zero_iff, ← List.length_eq_zero_iff, ← sameStatement, isMeaning,
    SchemaNode.forget_children_length]

theorem Padded.eq_of_never {l l' : List SchemaNode} (padded : Padded (fun _ => False) l l') : l' = l := by
  induction padded with
  | nil => rfl
  | keep a _ ih => rw [ih]
  | idle never => exact never.elim

namespace Library.Clears

variable {library library' : Library} (clears : library.Clears library') {forest forest' : List Statement}
  (way : library.ExpandsTo forest) (way' : library'.ExpandsTo forest')
include clears way way'

theorem exists_mirrored : ∃ ρ fresh h', way.Matches way' library'.loadedTrees ρ ∧
    way.augmented.2.made = way.grown.made ++ fresh ∧
    (augmentAll library'.directory way'.trees (way.expansion.augments.map (SchemaNode.renumber ρ))).run way'.grown =
      (way.augmented.1.map (SchemaTrees.renumber ρ), h') ∧
    h'.made = way'.grown.made ++ fresh.map (Made.renumber ρ) := by
  obtain ⟨ρ, matched, atEnd⟩ := clears.embeds.exists_matches way way' (way.augmented.2.next - way.grown.next)
  obtain ⟨n, fresh, next, made, mirror⟩ :=
    augmentAll_mirrors (ρ := ρ) matched.renumbers.moduleFor? way.trees way.expansion.augments way.grown
  have count : way.augmented.2.next - way.grown.next = n := by
    rw [ExpandsTo.augmented, next, Nat.add_sub_cancel_left]
  rw [count] at atEnd
  obtain ⟨result, -, made'⟩ := mirror way'.grown atEnd
  rw [← clears.trees_eq matched] at result made'
  exact ⟨ρ, fresh, _, matched, made, Prod.ext result rfl, made'⟩

theorem exists_includes {modules : SchemaTrees} {final : Growth} (done : way.augmented = (.ok modules, final))
    (idle : ∀ a ∈ augmentsOfForest (library'.leftoversIn forest'),
      (meaning isSchemaNode (groupingsOfForest forest') [] a).children = [] ∧
        ∃ path, augmentPath? library'.directory a = some path ∧ modules.at? path ≠ none) :
    SameOutcome library.link.result library'.link.result := by
  obtain ⟨ρ, fresh, h', matched, made, result, made'⟩ := clears.exists_mirrored way way'
  rw [done] at result made
  have padded := clears.augments_padded matched (P := fun a => a.children = [] ∧
      augmentTarget? library'.directory (modules.renumber ρ) a ≠ none) (by
    intro a member refused
    obtain ⟨nothing, path, isPath, leads⟩ := idle a.statement refused
    refine ⟨(way'.children_eq_nil_iff clears.sound' member).2 nothing, ?_⟩
    rw [augmentTarget?, isPath, Option.bind_some, SchemaTrees.at?_renumber]
    simpa using leads)
  obtain ⟨final', done', like⟩ := augmentAll_padded (fun a idle => idle.1) (fun a idle => idle.2) padded result
  rw [way.link_ok_iff.2 ⟨_, _, done, rfl⟩, way'.link_ok_iff.2 ⟨_, _, done', rfl⟩]
  exact .ok (clears.includes matched made (like.made.trans made') done')

theorem link_of_no_augments (none : augmentsOfForest (library'.leftoversIn forest') = []) :
    SameOutcome library.link.result library'.link.result := by
  cases augmented : way.augmented with
  | mk result final =>
    cases result with
    | ok modules =>
      refine clears.exists_includes way way' augmented fun a member => ?_
      rw [none] at member
      cases member
    | error e =>
      obtain ⟨ρ, fresh, h', matched, made, result, made'⟩ := clears.exists_mirrored way way'
      have same := (clears.augments_padded matched (P := fun _ => False) (by
        intro a _ refused
        rw [none] at refused
        cases refused)).eq_of_never
      rw [augmented, ← same] at result
      have augmented' : way'.augmented = (.error e, h') := result
      rw [way.link_eq, way'.link_eq, augmented, augmented']
      exact .error e

end Library.Clears

theorem Statement.Numbered.eq_of_mem_within {l : List Statement} (numbered : Numbered 1 l) {s t u : Statement}
    (inS : s ∈ l) (inT : t ∈ l) (here : u ∈ s.within) (there : u ∈ t.within) : s = t := by
  by_contra different
  have nodup := List.Nodup.of_map _ numbered.nodup
  rw [withinAll_eq_flatMap, List.nodup_flatMap] at nodup
  have symmetric : Std.Symm (Function.onFun List.Disjoint within) := ⟨fun _ _ apart u inT inS => apart inS inT⟩
  exact nodup.2.forall inS inT different here there

theorem SchemaTrees.below_renumber (ρ : Nat → Nat) (trees : SchemaTrees) :
    (trees.renumber ρ).below = trees.below.map (SchemaNode.renumber ρ) := by
  rw [SchemaTrees.below, SchemaTrees.below, SchemaTrees.renumber, List.flatMap_map, List.map_flatMap]
  simp only [SchemaNode.renumber_children]

section

variable {library library' : Library} (clears : library.Clears library') {forest : List Statement}
  (way : library.ExpandsTo forest) {modules : SchemaTrees} {final : Growth}
  (done : way.augmented = (.ok modules, final)) {schema' : Resolved}
include clears way done

theorem Library.Clears.isLoaded_image (links' : library'.LinksTo schema') {ρ : Nat → Nat}
    (same : schema'.modules = modules.renumber ρ) {t : Statement} (isTree : t ∈ forest) :
    library'.isLoaded (t.renumber ρ) = true := by
  obtain ⟨links⟩ := Library.link_ok (way.link_ok_iff.2 ⟨_, _, done, rfl⟩)
  have isRoot : t ∈ modules.roots.map (·.2) := by
    have roots := links.modules_roots clears.sound
    rw [ExpandsTo.schemaOf] at roots
    rw [roots, way.tops_eq clears.sound clears.modules, List.map_map]
    exact List.mem_map.2 ⟨t, isTree, rfl⟩
  have isRoot' : t.renumber ρ ∈ schema'.modules.roots.map (·.2) := by
    have images := List.mem_map_of_mem (f := Statement.renumber ρ) isRoot
    rw [same]
    simpa [SchemaTrees.roots, SchemaTrees.renumber, Function.comp_def] using images
  rw [links'.modules_roots clears.sound', List.map_map] at isRoot'
  obtain ⟨s, isTop, isImage⟩ := List.mem_map.1 isRoot'
  have isImage : s = t.renumber ρ := isImage
  obtain ⟨id, isId, found⟩ := List.mem_filterMap.1 isTop
  have number : s.id = id := by simpa using List.find?_some found
  rw [isImage] at number
  exact isLoaded_iff.2 (number ▸ isId)

theorem Library.Clears.harmless {ρ : Nat → Nat} (resolved : library'.link.result = .ok schema')
    (includes : (way.schemaOf modules final).Includes ρ schema') : library'.HarmlessFor modules := by
  obtain ⟨links⟩ := Library.link_ok resolved
  have sound' := links.sound clears.sound'
  have sameModules : schema'.modules = modules.renumber ρ := includes.modules
  refine ⟨schema'.forest, Library.linked_iff.1 ⟨_, links.linked⟩, fun a leftover => ?_⟩
  have isAugment : a ∈ augmentsOfForest schema'.forest := augmentsOfForest_subset (List.filter_subset_self _) leftover
  obtain ⟨node, isNode, rfl⟩ := List.mem_map.1 (sound'.augments ▸ isAugment)
  rw [links.augments] at isNode
  obtain ⟨target, mine, inPlace⟩ := (links.ready clears.sound').inPlace links.augmented node isNode
  obtain ⟨path, found⟩ := inPlace.leads
  obtain ⟨isPath, leads⟩ := augmentTarget?_eq_some.1 found
  constructor
  · rw [← links.children_eq_nil_iff clears.sound' isNode]
    refine List.eq_nil_iff_forall_not_mem.2 fun child isChild => ?_
    -- A child of the augment would stand in a tree of the first schema, marked as that of an augment there.
    obtain ⟨placed, inMine⟩ : ∃ placed, placed ∈ mine := by
      refine List.exists_mem_of_length_pos ?_
      rw [← inPlace.stands.length_eq]
      exact List.length_pos_of_mem isChild
    have marked := (StandsAs.exists_marked inPlace.stands).2 placed inMine
    obtain ⟨before, after, together⟩ := inPlace.together
    have isChild' : placed ∈ target.children := by simp [together, inMine]
    have inTrees := SchemaTrees.children_mem_below leads isChild'
    rw [sameModules, SchemaTrees.below_renumber, nodesOfAll_renumber] at inTrees
    obtain ⟨original, stands, rfl⟩ := List.mem_map.1 inTrees
    rw [SchemaNode.renumber_augment, Option.map_eq_some_iff] at marked
    obtain ⟨i, marked, number⟩ := marked
    obtain ⟨b, isAugment', rfl⟩ := (way.ready clears.sound).marks done original stands i marked
    have inForest : b.statement ∈ withinAll forest :=
      (augmentsOfForest_sublist forest).subset (way.roots.augments ▸ List.mem_map_of_mem isAugment')
    obtain ⟨t, isTree, inside⟩ := Statement.mem_withinAll.1 inForest
    have image : b.statement.renumber ρ ∈ (t.renumber ρ).within := by
      rw [Statement.renumber_within]
      exact List.mem_map_of_mem inside
    have isTree' : t.renumber ρ ∈ schema'.forest := includes.forest.subset (List.mem_map_of_mem isTree)
    obtain ⟨u, isLeftover, inside'⟩ := Statement.mem_withinAll.1 ((augmentsOfForest_sublist _).subset leftover)
    obtain ⟨isTree'', refused⟩ := List.mem_filter.1 isLeftover
    have sameStatement : node.statement = b.statement.renumber ρ := by
      refine sound'.forest.eq_of_id_eq (Statement.mem_withinAll.2 ⟨u, isTree'', inside'⟩)
        (Statement.mem_withinAll.2 ⟨t.renumber ρ, isTree', image⟩) ?_
      rw [Statement.renumber_id]
      exact number.symm
    have sameTree := sound'.forest.eq_of_mem_within isTree' isTree'' (sameStatement ▸ image) inside'
    rw [← sameTree, clears.isLoaded_image way done links sameModules isTree] at refused
    cases refused
  · refine ⟨path, isPath, fun missing => ?_⟩
    rw [sameModules, SchemaTrees.at?_renumber, missing] at leads
    cases leads

end

/-! ## Resolving -/

theorem exists_mem_augmentsOfForest {l : List Statement} {a : Statement} (member : a ∈ augmentsOfForest l) :
    ∃ s ∈ l, a ∈ augmentsOfForest [s] := by
  obtain ⟨p, listed, rfl⟩ := List.mem_map.1 member
  obtain ⟨inListing, isTop⟩ := List.mem_filter.1 listed
  rw [listingOfAll_eq_flatMap] at inListing
  obtain ⟨s, inList, ofTree⟩ := List.mem_flatMap.1 inListing
  refine ⟨s, inList, ?_⟩
  rw [augmentsOfForest_singleton]
  exact List.mem_map_of_mem (List.mem_filter.2 ⟨ofTree, isTop⟩)

namespace Library.Clears

variable {library library' : Library} (clears : library.Clears library')
include clears

/-- Leftovers that link and have no augments at the top do not matter. -/
theorem link_of_plain (plain : ∀ s ∈ library'.leftoversIn library'.forest,
      ∃ s', linkTree library'.directory s = .ok s' ∧ augmentsOfForest [s'] = []) :
    SameOutcome library.link.result library'.link.result := by
  obtain ⟨ρ, -, -, trees⟩ := clears.embeds.exists_places
  have kept := clears.embeds.mapM_kept (trees ρ fun _ _ => rfl)
  have others : ∀ s ∈ library'.forest, library'.isLoaded s = false → ∃ s', linkTree library'.directory s = .ok s' := by
    intro s member refused
    obtain ⟨s', linked, -⟩ := plain s (List.mem_filter.2 ⟨member, by simp [refused]⟩)
    exact ⟨s', linked⟩
  cases linked : library.forest.mapM (linkTree library.directory) with
  | error e =>
    rw [linked] at kept
    rw [Library.link_error linked, Library.link_error (mapM_eq_error_of_filter others kept)]
    exact .error e
  | ok forest =>
    rw [linked] at kept
    obtain ⟨forest', linked'⟩ := exists_mapM_eq_ok.2 fun s (member : s ∈ library'.forest) => by
      cases loaded : library'.isLoaded s with
      | true => exact exists_mapM_eq_ok.1 ⟨_, kept⟩ s (List.mem_filter.2 ⟨member, loaded⟩)
      | false => exact others s member loaded
    obtain ⟨way⟩ := Library.exists_expandsTo linked
    obtain ⟨way'⟩ := Library.exists_expandsTo linked'
    refine clears.link_of_no_augments way way' (List.eq_nil_iff_forall_not_mem.2 fun a member => ?_)
    obtain ⟨s', leftover, isAugment⟩ := exists_mem_augmentsOfForest member
    obtain ⟨inForest, refused⟩ := List.mem_filter.1 leftover
    obtain ⟨s, inLibrary, isLinked⟩ := (mem_of_mapM_eq_ok linked' s').1 inForest
    rw [isLoaded, linkTree_id isLinked] at refused
    obtain ⟨s'', isLinked', none⟩ := plain s (List.mem_filter.2 ⟨inLibrary, refused⟩)
    cases isLinked.symm.trans isLinked'
    rw [none] at isAugment
    cases isAugment

theorem sameOutcome_iff {schema : Resolved} (resolved : library.link.result = .ok schema) :
    SameOutcome library.link.result library'.link.result ↔ library'.HarmlessFor schema.modules := by
  obtain ⟨links⟩ := Library.link_ok resolved
  have linked := Library.linked_iff.1 ⟨_, links.linked⟩
  clear links
  generalize schema.forest = forest at linked
  obtain ⟨way⟩ := Library.exists_expandsTo linked
  obtain ⟨modules, final, done, rfl⟩ := way.link_ok_iff.1 resolved
  constructor
  · intro same
    rw [resolved] at same
    generalize result : library'.link.result = outcome at same
    cases same with
    | ok includes => exact clears.harmless way done result includes
  · intro ⟨forest', linked', idle⟩
    obtain ⟨way'⟩ := Library.exists_expandsTo linked'
    exact clears.exists_includes way way' done idle

end Library.Clears

/-- Refused texts do not matter if what they leave behind links and has no augments at the top.  Where the
    accepted texts resolve, refused texts do not matter exactly if all that they leave behind links and their
    augments have no nodes, though a target. -/
theorem resolve_sameOutcome_iff_harmless (texts : List String) (sources : List Source) (files : FileTree) :
    let loading := (Library.ofTexts texts).loadAll sources files
    let clean := ((Library.ofTexts (Library.empty.accepted texts)).resolve sources files).result
    let result := ((Library.ofTexts texts).resolve sources files).result
    ((loading.error = none → ∀ s ∈ loading.library.leftoversIn loading.library.forest,
        ∃ s', linkTree loading.library.directory s = .ok s' ∧ augmentsOfForest [s'] = []) →
      SameOutcome clean result) ∧
    ∀ schema, clean = .ok schema → (SameOutcome clean result ↔ loading.library.HarmlessFor schema.modules) := by
  intro loading clean result
  obtain ⟨sameError, clears⟩ := (Library.clears_ofTexts texts).loadAll sources files
  have isClean : clean = _ := Library.resolve_result _ sources files
  have isResult : result = _ := Library.resolve_result _ sources files
  rw [sameError] at isResult
  cases failed : ((Library.ofTexts (Library.empty.accepted texts)).loadAll sources files).error with
  | some e =>
    rw [failed] at isClean isResult
    rw [isClean, isResult]
    exact ⟨fun _ => .error e, fun schema never => by cases never⟩
  | none =>
    rw [failed] at isClean isResult
    rw [isClean, isResult]
    exact ⟨fun plain => (clears failed).link_of_plain (plain (sameError.trans failed)),
      fun schema resolved => (clears failed).sameOutcome_iff resolved⟩

def brokenUses : String :=
  "<module name='n' xmlns='urn:ietf:params:xml:ns:yang:yin:1'><uses name='nope'/><leaf/></module>"

def plainContainer : String :=
  "<module name='m' xmlns='urn:ietf:params:xml:ns:yang:yin:1'><container name='c'/></module>"

/-- A refused module with a reference that does not resolve makes resolving fail; the same module twice does not. -/
theorem resolve_sameOutcome_iff_harmless_brokenUses :
    (let clean := ((Library.ofTexts (Library.empty.accepted [plainContainer, brokenUses])).resolve [] ⟨[]⟩).result
     let result := ((Library.ofTexts [plainContainer, brokenUses]).resolve [] ⟨[]⟩).result
     (∃ schema, clean = .ok schema) ∧ ¬ SameOutcome clean result) ∧
    SameOutcome
      ((Library.ofTexts (Library.empty.accepted [plainContainer, plainContainer])).resolve [] ⟨[]⟩).result
      ((Library.ofTexts [plainContainer, plainContainer]).resolve [] ⟨[]⟩).result := by
  refine ⟨?_, (resolve_sameOutcome_iff_harmless [plainContainer, plainContainer] [] ⟨[]⟩).1 fun _ s leftover => ?_⟩
  · intro clean result
    obtain ⟨schema, resolved, -⟩ := exists_ok (show clean.toOption.any (fun _ => true) = true by decide +kernel)
    refine ⟨⟨schema, resolved⟩, fun same => ?_⟩
    obtain ⟨forest, linked, -⟩ :=
      ((resolve_sameOutcome_iff_harmless [plainContainer, brokenUses] [] ⟨[]⟩).2 schema resolved).1 same
    have failed : (((Library.ofTexts [plainContainer, brokenUses]).loadAll [] ⟨[]⟩).library.forest.mapM
        (linkTree ((Library.ofTexts [plainContainer, brokenUses]).loadAll [] ⟨[]⟩).library.directory)).toOption.isSome =
          false := by
      decide +kernel
    rw [linked] at failed
    cases failed
  · have each : (let library := ((Library.ofTexts [plainContainer, plainContainer]).loadAll [] ⟨[]⟩).library
        (library.leftoversIn library.forest).all fun s =>
          (linkTree library.directory s).toOption.any fun s' => (augmentsOfForest [s']).isEmpty) = true := by
      decide +kernel
    obtain ⟨s', linked, none⟩ := exists_ok (List.all_eq_true.1 each s leftover)
    exact ⟨s', linked, List.isEmpty_iff.1 none⟩

end YangStubs.Schema
