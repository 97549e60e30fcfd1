import YangStubs.Proofs.Schema.Resolved

/-! # References mean what they mean where they are written

A reference is looked up among the statements around it, as it was read, or at the top of the module that its
qualifier stands for.  Copies keep what the statement they were made from refers to, so that the place where
a grouping is used neither captures nor hides a name.
-/

namespace YangStubs.Schema

open Statement (within withinAll bare)

variable {s : Statement}

/-! ## Where a statement is written -/

/-- The statements around a statement of a forest, innermost first. -/
inductive Around (forest : List Statement) : Statement → List Statement → Prop
  | top {s : Statement} (member : s ∈ forest) : Around forest s []
  | inside {s outer : Statement} {chain : List Statement} (around : Around forest outer chain)
      (member : s ∈ outer.subs) : Around forest s (outer :: chain)

section

variable {forest : List Statement} {s : Statement} {chain : List Statement} (around : Around forest s chain)
include around

theorem Around.mem_withinAll : s ∈ withinAll forest := by
  induction around with
  | top member => exact Statement.mem_withinAll_of_mem member
  | inside _ member known => exact Statement.withinAll_of_mem_subs known member

theorem Around.chain_known : ∀ outer ∈ chain, outer ∈ withinAll forest := by
  induction around with
  | top _ => simp
  | inside around _ ih =>
    intro outer member
    cases List.mem_cons.1 member with
    | inl here => exact here ▸ around.mem_withinAll
    | inr above => exact ih outer above

end

mutual
theorem exists_around_of_within {forest : List Statement} {s : Statement} :
    ∀ (t : Statement) {chain : List Statement}, Around forest t chain → s ∈ t.within → ∃ chain', Around forest s chain'
  | ⟨_, _, _, _, _, _, _, subs⟩, chain, around, member => by
    simp only [within, List.mem_cons] at member
    cases member with
    | inl here => exact ⟨chain, here ▸ around⟩
    | inr below => exact exists_around_of_withinAll subs (fun _ sub => around.inside sub) below

theorem exists_around_of_withinAll {forest : List Statement} {s : Statement} {chain : List Statement} :
    ∀ l : List Statement, (∀ t ∈ l, Around forest t chain) → s ∈ withinAll l → ∃ chain', Around forest s chain'
  | [], _, member => by simp at member
  | t :: rest, around, member => by
    simp only [Statement.withinAll_cons, List.mem_append] at member
    cases member with
    | inl here => exact exists_around_of_within t (around t List.mem_cons_self) here
    | inr others =>
      exact exists_around_of_withinAll rest (fun u inRest => around u (List.mem_cons_of_mem _ inRest)) others
end

theorem exists_around {forest : List Statement} (known : s ∈ withinAll forest) : ∃ chain, Around forest s chain :=
  exists_around_of_withinAll forest (fun _ member => .top member) known

/-! ## What a name refers to -/

/-- The definition of that keyword and name in the innermost of some statements that has one.  Of two in the
    same statement it is the first. -/
def DefinedInnermost (chain : List Statement) (keyword name : String) (d : Statement) : Prop :=
  ∃ before scope after, chain = before ++ scope :: after ∧
    scope.subs.find? (fun s => s.keyword == keyword && s.name == name) = some d ∧
    ∀ inner ∈ before, ∀ s ∈ inner.subs, s.keyword = keyword → s.name ≠ name

namespace Resolved

/-- In the module `home` the qualifier stands for the module `target`.  Of two equal qualifiers among those
    of the module and of its imports the later counts. -/
def Denotes (schema : Resolved) (home qualifier target : String) : Prop :=
  ∃ tree, schema.modules.lookup home = some tree ∧
    (declaredQualifiers home tree.statement).reverse.lookup qualifier = some target

/-- What the name of a statement refers to, given the statements around it. -/
inductive Means (schema : Resolved) (s : Statement) (chain : List Statement) (keyword : String)
    (d : Statement) : Prop
  /-- Without a qualifier, or with one for the module in which the statement is written. -/
  | nearby (own : ∀ qualifier, (splitQualifier s.name).1 = some qualifier →
        schema.Denotes s.home qualifier s.home)
      (innermost : DefinedInnermost chain keyword s.localName d)
  /-- With a qualifier for another module: at the top of that module. -/
  | elsewhere {qualifier target : String} {tree : SchemaNode}
      (qualified : (splitQualifier s.name).1 = some qualifier)
      (denotes : schema.Denotes s.home qualifier target) (other : target ≠ s.home)
      (loaded : schema.modules.lookup target = some tree)
      (atTop : tree.statement.subs.find? (fun t => t.keyword == keyword && t.name == s.localName) = some d)

/-- What the name of a statement refers to where it was read: for a copy, at the statement it goes back to. -/
structure RefersTo (schema : Resolved) (s : Statement) (keyword : String) (d : Statement) : Prop where
  read : ∃ r ∈ withinAll schema.forest, r.id = s.source ∧ r.name = s.name ∧ r.home = s.home ∧
    (∃ chain, Around schema.forest r chain) ∧
    ∀ chain, Around schema.forest r chain → schema.Means r chain keyword d
  known : d ∈ withinAll schema.forest
  keyword : d.keyword = keyword

end Resolved

/-! ## Links do not matter for looking up -/

namespace Statement

@[simp] theorem bare_arg (s : Statement) : s.bare.arg = s.arg := by cases s; rfl

@[simp] theorem bare_home (s : Statement) : s.bare.home = s.home := by cases s; rfl

theorem bare_subs (s : Statement) : s.bare.subs = s.subs.map bare := by
  cases s
  exact bareAll_eq_map _

theorem subs_bare_eq {t : Statement} (same : s.bare = t.bare) : s.subs.map bare = t.subs.map bare := by
  rw [← bare_subs, ← bare_subs, same]

theorem id_eq_of_bare_eq {t : Statement} (same : s.bare = t.bare) : s.id = t.id := by
  rw [← bare_id, same, bare_id]

theorem find?_bare_eq {l k : List Statement} (same : l.map bare = k.map bare) {p : Statement → Bool}
    (blind : ∀ s, p s.bare = p s) : (l.find? p).map bare = (k.find? p).map bare := by
  have search : ∀ l : List Statement, (l.map bare).find? p = (l.find? p).map bare := by
    intro l
    rw [List.find?_map, show p ∘ bare = p from funext blind]
  rw [← search, ← search, same]

theorem argOf?_bare (s : Statement) (keyword : String) : s.bare.argOf? keyword = s.argOf? keyword := by
  unfold argOf? sub?
  rw [bare_subs, List.find?_map, show ((fun t => t.keyword == keyword) ∘ bare) =
    fun t => t.keyword == keyword by simp [Function.comp_def]]
  cases s.subs.find? fun t => t.keyword == keyword with
  | none => rfl
  | some t => exact bare_arg t

theorem imports_bare (s : Statement) : s.bare.imports = s.imports := by
  unfold imports subsWith
  rw [bare_subs, List.filter_map, List.map_map, show ((fun t => t.keyword == "import") ∘ bare) =
    fun t => t.keyword == "import" by simp [Function.comp_def]]
  refine List.map_congr_left fun i _ => ?_
  simp [argOf?_bare]

theorem declaredQualifiers_bare (home : String) (s : Statement) :
    declaredQualifiers home s.bare = declaredQualifiers home s := by
  unfold declaredQualifiers
  rw [argOf?_bare, imports_bare]

end Statement

/-! ## What is linked to what -/

section

variable {directory : Directory} {scopes : List (List Statement)}

theorem linkAll_mem (l : List Statement) :
    ∀ {l' : List Statement} {log log' : Log}, (linkAll directory scopes l).run.run log = (.ok l', log') →
      ∀ s' ∈ l', ∃ s ∈ l, ∃ log log', (link directory scopes s).run.run log = (.ok s', log') := by
  induction l with
  | nil =>
    intro l' log log' linked s' member
    simp only [linkAll] at linked
    cases Logged.pure_ok linked
    simp at member
  | cons s rest ih =>
    intro l' log log' linked s' member
    simp only [linkAll] at linked
    obtain ⟨first, mid, firstLinked, linked⟩ := Logged.bind_ok linked
    obtain ⟨others, mid', othersLinked, linked⟩ := Logged.bind_ok linked
    cases Logged.pure_ok linked
    cases List.mem_cons.1 member with
    | inl here => exact ⟨s, List.mem_cons_self, log, mid, here ▸ firstLinked⟩
    | inr later =>
      obtain ⟨t, inRest, spec⟩ := ih othersLinked s' later
      exact ⟨t, List.mem_cons_of_mem _ inRest, spec⟩

/-- A statement that is linked: its links are those of its name in the scopes around it, and what is written
    inside it is linked with one scope more. -/
theorem link_ok {s' : Statement} {log log' : Log} (linked : (link directory scopes s).run.run log = (.ok s', log')) :
    (∃ log log', (linksOf directory scopes s'.keyword s'.name s'.home).run.run log =
        (.ok (s'.grouping, s'.typedef), log')) ∧
      ∃ log log', (linkAll directory (s.subs :: scopes) s.subs).run.run log = (.ok s'.subs, log') := by
  cases s
  simp only [link] at linked
  obtain ⟨⟨grouping, typedef⟩, mid, links, linked⟩ := Logged.bind_ok linked
  obtain ⟨subs, mid', inner, linked⟩ := Logged.bind_ok linked
  cases Logged.pure_ok linked
  exact ⟨⟨log, mid, links⟩, mid, mid', inner⟩

theorem linkAll_bare {l l' : List Statement} {log log' : Log}
    (linked : (linkAll directory scopes l).run.run log = (.ok l', log')) : l'.map bare = l.map bare := by
  let known := withinAll l ++ (scopes.flatten ++ directory.modules.flatMap (·.2.subs))
  have bounded : directory.Within known := by
    refine ⟨fun m isModule t inside => ?_⟩
    exact List.mem_append_right _ (List.mem_append_right _ (List.mem_flatMap.2 ⟨m, isModule, inside⟩))
  have inScope : ∀ scope ∈ scopes, ∀ s ∈ scope, s ∈ known := fun scope isScope t inside =>
    List.mem_append_right _ (List.mem_append_left _ (List.mem_flatten.2 ⟨scope, isScope, inside⟩))
  exact (linkAll_spec bounded inScope l (fun t inside => List.mem_append_left _ inside) linked).1

end

/-- A statement of a linked forest was linked with the scopes of the statements around it. -/
theorem Around.linked {directory : Directory} {l forest : List Statement} {log log' : Log}
    (linked : (linkAll directory [] l).run.run log = (.ok forest, log')) {s : Statement}
    {chain : List Statement} (around : Around forest s chain) :
    ∃ (original : Statement) (scopes : List (List Statement)) (mid mid' : Log),
      (link directory scopes original).run.run mid = (.ok s, mid') ∧
      List.Forall₂ (fun scope outer => scope.map bare = outer.subs.map bare) scopes chain := by
  induction around with
  | top member =>
    obtain ⟨original, -, mid, mid', spec⟩ := linkAll_mem l linked _ member
    exact ⟨original, [], mid, mid', spec, .nil⟩
  | @inside s outer chain _ member ih =>
    obtain ⟨original, scopes, mid, mid', spec, same⟩ := ih
    obtain ⟨-, log, log', inner⟩ := link_ok spec
    obtain ⟨sub, -, mid, mid', subSpec⟩ := linkAll_mem original.subs inner _ member
    exact ⟨sub, original.subs :: scopes, mid, mid', subSpec, .cons (linkAll_bare inner).symm same⟩

/-- The innermost scope with a definition, among the statements that have these scopes. -/
theorem definedInnermost_of_findSome? {keyword name : String} {d : Statement}
    {scopes : List (List Statement)} {chain : List Statement}
    (same : List.Forall₂ (fun scope outer => scope.map bare = outer.subs.map bare) scopes chain)
    (found : (scopes.findSome? fun scope => Directory.definedIn? scope keyword name) = some d) :
    ∃ d', d'.bare = d.bare ∧ DefinedInnermost chain keyword name d' := by
  induction same with
  | nil => simp at found
  | @cons scope outer scopes chain here _ ih =>
    have sameFound := Statement.find?_bare_eq here (p := fun s => s.keyword == keyword && s.name == name) (by simp)
    rw [List.findSome?_cons] at found
    cases defined : Directory.definedIn? scope keyword name with
    | some first =>
      rw [defined] at found
      cases found
      rw [Directory.definedIn?] at defined
      rw [defined] at sameFound
      obtain ⟨d', found', sameD⟩ := Option.map_eq_some_iff.1 sameFound.symm
      exact ⟨d', sameD, [], outer, chain, rfl, found', by simp⟩
    | none =>
      rw [defined] at found
      obtain ⟨d', sameD, before, inner, after, split, first, hidden⟩ := ih found
      refine ⟨d', sameD, outer :: before, inner, after, by rw [split, List.cons_append], first, ?_⟩
      rw [Directory.definedIn?] at defined
      rw [defined, Option.map_none, eq_comm, Option.map_eq_none_iff, List.find?_eq_none] at sameFound
      intro closer isCloser s inside isKeyword isName
      cases List.mem_cons.1 isCloser with
      | inl isOuter => exact sameFound s (isOuter ▸ inside) (by simp [isKeyword, isName])
      | inr later => exact hidden closer later s inside isKeyword isName

theorem lookup_map_snd {α β γ : Type} [BEq α] {f : β → γ} (l : List (α × β)) (key : α) :
    (l.map fun entry => (entry.1, f entry.2)).lookup key = (l.lookup key).map f := by
  induction l with
  | nil => rfl
  | cons entry rest ih =>
    rw [List.map_cons, List.lookup_cons, List.lookup_cons, ih]
    cases key == entry.1 <;> rfl

theorem Library.qualifiers_lookup (library : Library) (home : String) :
    library.directory.qualifiers.lookup home =
      (library.directory.modules.lookup home).map (declaredQualifiers home) := by
  simp only [Library.directory]
  generalize library.modules.filterMap _ = modules
  induction modules with
  | nil => rfl
  | cons m rest ih =>
    rw [List.map_cons, List.lookup_cons, List.lookup_cons, ih]
    cases isHome : home == m.1 with
    | true => rw [beq_iff_eq.1 isHome]; rfl
    | false => rfl

namespace Library.LinksTo

variable {library : Library} {schema : Resolved}

section

variable (way : library.LinksTo schema) (sound : library.Sound)
include way sound

/-- The modules in which names are looked up are those of the schema, up to links. -/
theorem directory_modules :
    schema.modules.map (fun m => (m.1, m.2.statement.bare)) =
      library.directory.modules.map fun m => (m.1, m.2.bare) := by
  have tops : schema.modules.map (fun m => (m.1, m.2.statement.bare)) =
      (topsOf schema.forest (library.modules.map (·.2))).map fun s => (s.name, s.bare) := by
    have roots := congrArg (List.map fun r : String × Statement => (r.1, r.2.bare)) (way.modules_roots sound)
    simpa [SchemaTrees.roots, Function.comp_def] using roots
  rw [tops]
  simp only [Library.directory]
  have each : ∀ modules : List (String × Nat), modules ⊆ library.modules →
      (topsOf schema.forest (modules.map (·.2))).map (fun s => (s.name, s.bare)) =
        (modules.filterMap fun m => (library.moduleStatement? m.2).map fun top => (m.1, top)).map
          fun m => (m.1, m.2.bare) := by
    intro modules loaded
    induction modules with
    | nil => rfl
    | cons m rest ih =>
      obtain ⟨s, inForest, atId, -, named⟩ := way.module sound (loaded List.mem_cons_self)
      have found := (way.numbered sound).find?_eq inForest
      have sameFound := Statement.find?_bare_eq (p := fun t => t.id == s.id) way.same (by simp)
      rw [found] at sameFound
      obtain ⟨t, isTop, sameBare⟩ := Option.map_eq_some_iff.1 sameFound.symm
      have others := ih fun x member => loaded (List.mem_cons_of_mem _ member)
      rw [atId] at found isTop
      simp only [topsOf, List.map_cons, List.filterMap_cons, found, Library.moduleStatement?, isTop,
        Option.map_some, named, sameBare]
      exact congrArg _ others
  exact each library.modules (List.Subset.refl _)

theorem directory_lookup (name : String) :
    (schema.modules.lookup name).map (·.statement.bare) = (library.directory.modules.lookup name).map bare := by
  rw [← lookup_map_snd, ← lookup_map_snd, way.directory_modules sound]

theorem denotes_iff {home qualifier target : String} :
    library.directory.moduleFor? home (some qualifier) = some target ↔ schema.Denotes home qualifier target := by
  have declared : library.directory.qualifiers.lookup home =
      (schema.modules.lookup home).map fun tree => declaredQualifiers home tree.statement := by
    have sameTop := way.directory_lookup sound home
    rw [library.qualifiers_lookup]
    have bared := congrArg (Option.map (declaredQualifiers home)) sameTop
    simpa [Function.comp_def, Statement.declaredQualifiers_bare] using bared.symm
  simp only [Directory.moduleFor?, declared, Option.bind_eq_bind, Option.bind_eq_some_iff,
    Option.map_eq_some_iff, Resolved.Denotes]
  constructor
  · rintro ⟨_, ⟨tree, found, rfl⟩, last⟩
    exact ⟨tree, found, last⟩
  · rintro ⟨tree, found, last⟩
    exact ⟨_, ⟨tree, found, rfl⟩, last⟩

/-- What looking up finds is what the name means. -/
theorem means_of_find? {d : Statement} {chain : List Statement} {scopes : List (List Statement)} {keyword : String}
    (same : List.Forall₂ (fun scope outer => scope.map bare = outer.subs.map bare) scopes chain)
    (found : library.directory.find? s.home scopes keyword s.name = .ok (some d)) :
    ∃ d', d'.bare = d.bare ∧ schema.Means s chain keyword d' := by
  unfold Directory.find? at found
  simp only at found
  split at found
  · simp at found
  · rename_i target isTarget
    by_cases isHome : target = s.home
    · subst isHome
      simp only [beq_self_eq_true, if_true, Except.ok.injEq] at found
      obtain ⟨d', sameD, innermost⟩ := definedInnermost_of_findSome? same found
      refine ⟨d', sameD, .nearby (fun qualifier qualified => ?_) innermost⟩
      rw [qualified] at isTarget
      exact (way.denotes_iff sound).1 isTarget
    · simp only [beq_iff_eq, isHome, if_false, Except.ok.injEq, Option.bind_eq_some_iff] at found
      obtain ⟨top, isTop, defined⟩ := found
      have sameTop := way.directory_lookup sound target
      rw [isTop] at sameTop
      obtain ⟨tree, loaded, sameBare⟩ := Option.map_eq_some_iff.1 sameTop
      have sameFound := Statement.find?_bare_eq (Statement.subs_bare_eq sameBare)
        (p := fun t => t.keyword == keyword && t.name == s.localName) (by simp)
      rw [Directory.definedIn?] at defined
      rw [Statement.localName, defined] at sameFound
      obtain ⟨d', atTop, sameD⟩ := Option.map_eq_some_iff.1 sameFound
      cases qualified : (splitQualifier s.name).1 with
      | none =>
        -- Without a qualifier the module is the one in which the statement is written.
        rw [qualified] at isTarget
        exact absurd (Option.some.inj isTarget).symm isHome
      | some qualifier =>
        rw [qualified] at isTarget
        exact ⟨d', sameD, .elsewhere qualified ((way.denotes_iff sound).1 isTarget) isHome loaded atTop⟩

/-- The links of a statement that was read lead to what its name means there. -/
theorem links_of_around {chain : List Statement} (around : Around schema.forest s chain) :
    (s.keyword = "uses" → ∃ d, s.grouping = some d.id ∧ schema.Means s chain "grouping" d) ∧
    ∀ id, s.typedef = some id → s.keyword = "type" ∧ ∃ d, d.id = id ∧ schema.Means s chain "typedef" d := by
  obtain ⟨original, scopes, mid, mid', spec, same⟩ := around.linked way.linked
  obtain ⟨⟨log, log', links⟩, -⟩ := YangStubs.Schema.link_ok spec
  obtain ⟨uses, -, types⟩ := linksOf_ok links
  constructor
  · intro isUses
    obtain ⟨d, found, isLinked⟩ := uses isUses
    obtain ⟨d', sameD, means⟩ := way.means_of_find? sound same found
    exact ⟨d', by rw [isLinked, Statement.id_eq_of_bare_eq sameD], means⟩
  · intro id isLinked
    obtain ⟨isType, d, found, atId⟩ := types id isLinked
    obtain ⟨d', sameD, means⟩ := way.means_of_find? sound same found
    exact ⟨isType, d', by rw [Statement.id_eq_of_bare_eq sameD, atId], means⟩

end

end Library.LinksTo

/-! ## Whatever has been resolved -/

theorem DefinedInnermost.spec {chain : List Statement} {keyword name : String} {d : Statement}
    (innermost : DefinedInnermost chain keyword name d) :
    d.keyword = keyword ∧ ∃ outer ∈ chain, d ∈ outer.subs := by
  obtain ⟨before, scope, after, split, found, -⟩ := innermost
  have sat := List.find?_some found
  simp only [Bool.and_eq_true, beq_iff_eq] at sat
  exact ⟨sat.1, scope, by simp [split], List.mem_of_find?_eq_some found⟩

namespace Resolved

variable {schema : Resolved}

theorem Means.known (sound : schema.Sound) {s d : Statement} {chain : List Statement} {keyword : String}
    (around : Around schema.forest s chain) (means : schema.Means s chain keyword d) :
    d ∈ withinAll schema.forest ∧ d.keyword = keyword := by
  cases means with
  | nearby _ innermost =>
    obtain ⟨isKeyword, outer, isOuter, inside⟩ := innermost.spec
    exact ⟨Statement.withinAll_of_mem_subs (around.chain_known outer isOuter) inside, isKeyword⟩
  | elsewhere _ _ _ loaded atTop =>
    have sat := List.find?_some atTop
    simp only [Bool.and_eq_true, beq_iff_eq] at sat
    have inForest := (sound.modules _ (mem_of_lookup_eq_some loaded)).1
    exact ⟨Statement.withinAll_of_mem_subs (Statement.mem_withinAll_of_mem inForest)
      (List.mem_of_find?_eq_some atTop), sat.1⟩

/-- What holds at all places of the statement that was read holds of its link: there is one definition with the
    number. -/
theorem RefersTo.of_read (sound : schema.Sound) {r : Statement} (inForest : r ∈ withinAll schema.forest)
    (atId : r.id = s.source) (sameName : r.name = s.name) (sameHome : r.home = s.home) {keyword : String}
    (link : Option Nat)
    (means : ∀ chain, Around schema.forest r chain → ∃ d, link = some d.id ∧ schema.Means r chain keyword d) :
    ∃ d, link = some d.id ∧ schema.RefersTo s keyword d := by
  obtain ⟨chain, around⟩ := exists_around inForest
  obtain ⟨d, isLinked, meansD⟩ := means chain around
  obtain ⟨known, isKeyword⟩ := meansD.known sound around
  refine ⟨d, isLinked, ⟨r, inForest, atId, sameName, sameHome, ⟨chain, around⟩, fun chain' around' => ?_⟩,
    known, isKeyword⟩
  obtain ⟨d', isLinked', meansD'⟩ := means chain' around'
  have sameId : d'.id = d.id := Option.some.inj (isLinked'.symm.trans isLinked)
  exact sound.forest.eq_of_id_eq (meansD'.known sound around').1 known sameId ▸ meansD'

/-- Every reference is linked to what it refers to where it was read, and no `uses` is left without a
    grouping. -/
structure LinkedWhereWritten (schema : Resolved) : Prop where
  uses : ∀ s ∈ schema.all, s.keyword = "uses" → ∃ d, s.grouping = some d.id ∧ schema.RefersTo s "grouping" d
  types : ∀ s ∈ schema.all, ∀ id, s.typedef = some id →
    s.keyword = "type" ∧ ∃ d, d.id = id ∧ schema.RefersTo s "typedef" d
  /-- Copies have the links of the statement that was read, wherever they stand. -/
  copies : ∀ s ∈ schema.all, ∀ r ∈ withinAll schema.forest, r.id = s.source →
    s.grouping = r.grouping ∧ s.typedef = r.typedef
  /-- The qualifier of a module stands for the module, unless one of its imports has the same. -/
  ownQualifier : ∀ m ∈ schema.modules, ∀ qualifier, m.2.statement.argOf? "prefix" = some qualifier →
    (∀ i ∈ m.2.statement.imports, i.qualifier ≠ some qualifier) → schema.Denotes m.1 qualifier m.1

end Resolved

theorem Resolved.Sound.ownQualifier {schema : Resolved} (sound : schema.Sound) {m : String × SchemaNode}
    (isModule : m ∈ schema.modules) {qualifier : String}
    (own : m.2.statement.argOf? "prefix" = some qualifier)
    (noImport : ∀ i ∈ m.2.statement.imports, i.qualifier ≠ some qualifier) :
    schema.Denotes m.1 qualifier m.1 := by
  refine ⟨m.2, lookup_eq_some_of_mem sound.names isModule, ?_⟩
  have absent : ((m.2.statement.imports.filterMap fun i =>
      i.qualifier.map fun q => (q, i.name)).reverse).lookup qualifier = none := by
    rw [List.lookup_eq_none_iff]
    intro entry member
    obtain ⟨i, isImport, isEntry⟩ := List.mem_filterMap.1 (List.mem_reverse.1 member)
    obtain ⟨q, hasQualifier, rfl⟩ := Option.map_eq_some_iff.1 isEntry
    have different : q ≠ qualifier := fun same => noImport i isImport (same ▸ hasQualifier)
    simpa using Ne.symm different
  simp [declaredQualifiers, own, List.lookup_append, absent]

namespace Library.LinksTo

variable {library : Library} {schema : Resolved}

section

variable (way : library.LinksTo schema) (sound : library.Sound)
include way sound

/-- A statement that is no case was read, or is a copy of one that was read. -/
theorem read_or_copy (known : s ∈ schema.all) (notCase : s.keyword ≠ "case") :
    s ∈ withinAll schema.forest ∨ ∃ r ∈ withinAll schema.forest, Statement.CopyOf r s := by
  cases List.mem_append.1 known with
  | inl inForest => exact .inl inForest
  | inr isMade =>
    have derived := ((way.grows_standing sound).lawful s isMade).copied
    exact .inr (derived.resolve_left fun isCase => notCase isCase.1)

/-- What the links of a statement are, they are because of the statement that was read. -/
theorem exists_read (known : s ∈ schema.all) (notCase : s.keyword ≠ "case") :
    ∃ r ∈ withinAll schema.forest, r.id = s.source ∧ r.name = s.name ∧ r.home = s.home ∧
      r.keyword = s.keyword ∧ r.grouping = s.grouping ∧ r.typedef = s.typedef := by
  have read := (way.sound sound).read
  cases way.read_or_copy sound known notCase with
  | inl inForest =>
    refine ⟨s, inForest, ?_, rfl, rfl, rfl, rfl, rfl⟩
    rw [Statement.source, read s inForest, Option.getD_none]
  | inr isCopy =>
    obtain ⟨r, inForest, copy⟩ := isCopy
    refine ⟨r, inForest, ?_, ?_, copy.home.symm, copy.keyword.symm, copy.grouping.symm, copy.typedef.symm⟩
    · rw [Statement.source, copy.origin, read r inForest]
      rfl
    · rw [Statement.name, Statement.name, copy.arg, copy.keyword]

theorem linkedWhereWritten : schema.LinkedWhereWritten := by
  have schemaSound := way.sound sound
  refine ⟨?_, ?_, ?_, fun m isModule qualifier own noImport => schemaSound.ownQualifier isModule own noImport⟩
  · intro s known isUses
    obtain ⟨r, inForest, atId, sameName, sameHome, sameKeyword, sameGrouping, -⟩ :=
      way.exists_read sound known (by rw [isUses]; decide)
    refine Resolved.RefersTo.of_read schemaSound inForest atId sameName sameHome _ fun chain around => ?_
    rw [← sameGrouping]
    exact (way.links_of_around sound around).1 (sameKeyword.trans isUses)
  · intro s known id isLinked
    have isType := ((schemaSound.refers s known).typedef id isLinked).1
    obtain ⟨r, inForest, atId, sameName, sameHome, -, -, sameTypedef⟩ :=
      way.exists_read sound known (by rw [isType]; decide)
    obtain ⟨d, same, refers⟩ :=
      Resolved.RefersTo.of_read schemaSound inForest atId sameName sameHome (some id) fun chain around => by
        obtain ⟨-, d, rfl, means⟩ := (way.links_of_around sound around).2 id (sameTypedef.trans isLinked)
        exact ⟨d, rfl, means⟩
    exact ⟨isType, d, (Option.some.inj same).symm, refers⟩
  · intro s known r inForest atSource
    cases schemaSound.copies s known with
    | inl isOriginal =>
      rw [Statement.source, isOriginal, Option.getD_none] at atSource
      have same : r = s := schemaSound.eq_of_id_eq (List.mem_append_left _ inForest) known atSource
      exact same ▸ ⟨rfl, rfl⟩
    | inr isCopy =>
      obtain ⟨t, inForest', copy⟩ := isCopy
      rw [Statement.source, copy.origin, schemaSound.read t inForest'] at atSource
      have same : r = t := schemaSound.forest.eq_of_id_eq inForest inForest' atSource
      exact same ▸ ⟨copy.grouping, copy.typedef⟩

end

end Library.LinksTo

/-- Whatever texts are added and whichever modules the sources give, references mean what they mean where
    they are written. -/
theorem resolve_linkedWhereWritten (texts : List String) (sources : List Source) (files : FileTree)
    (schema : Resolved)
    (resolved : ((Library.ofTexts texts).resolve sources files).result = .ok schema) :
    schema.LinkedWhereWritten := by
  obtain ⟨loaded, sound, linked⟩ := Library.resolve_eq_link (Library.sound_ofTexts texts) resolved
  obtain ⟨way⟩ := Library.link_ok linked
  exact way.linkedWhereWritten sound

/-- A module in which a grouping is used next to another one, of the name of one that it uses itself. -/
def shadowedGrouping : String :=
  "<module name='m' xmlns='urn:ietf:params:xml:ns:yang:yin:1'><grouping name='g'><leaf name='a'/></grouping>" ++
  "<grouping name='h'><container name='x'><uses name='g'/></container></grouping>" ++
  "<container name='c'><grouping name='g'><leaf name='b'/></grouping><uses name='h'/><uses name='g'/>" ++
  "</container></module>"

theorem resolve_linkedWhereWritten_shadowedGrouping :
    ∃ schema, ((Library.ofTexts [shadowedGrouping]).resolve [] ⟨[]⟩).result = .ok schema ∧
      schema.LinkedWhereWritten ∧
      (schema.all.filter (·.keyword == "uses")).map (fun s => (s.name, s.source, s.grouping)) =
        [("g", 6, some 2), ("h", 10, some 4), ("g", 11, some 8), ("g", 6, some 2)] := by
  have outcome : ((Library.ofTexts [shadowedGrouping]).resolve [] ⟨[]⟩).result.toOption.any (fun schema =>
      (schema.all.filter (·.keyword == "uses")).map (fun s => (s.name, s.source, s.grouping)) ==
        [("g", 6, some 2), ("h", 10, some 4), ("g", 11, some 8), ("g", 6, some 2)]) = true := by
    decide +kernel
  obtain ⟨schema, resolved, links⟩ := exists_ok outcome
  exact ⟨schema, resolved, resolve_linkedWhereWritten _ _ _ schema resolved, by simpa using links⟩

/-- A module that imports another one with its own qualifier, and itself with a second one. -/
def borrowedQualifiers : List String :=
  ["<module name='n' xmlns='urn:ietf:params:xml:ns:yang:yin:1'><grouping name='g'/></module>",
   "<module name='m' xmlns='urn:ietf:params:xml:ns:yang:yin:1'><prefix value='p'/><import module='n'>" ++
   "<prefix value='p'/></import><import module='m'><prefix value='q'/></import><grouping name='g'/><uses name='p:g'/>" ++
   "<container name='c'><grouping name='g'/><uses name='q:g'/></container></module>"]

/-- The name with the module's own qualifier does not mean the grouping of the innermost scope, and the name with the
    other qualifier, which stands for the module too, does not mean the grouping at its top. -/
theorem linked_elsewhere_of_borrowedQualifiers :
    ∃ schema tree d, ((Library.ofTexts borrowedQualifiers).resolve [] ⟨[]⟩).result = .ok schema ∧
      schema.modules.lookup "m" = some tree ∧ tree.statement.argOf? "prefix" = some "p" ∧
      schema.Denotes "m" "q" "m" ∧ DefinedInnermost [tree.statement] "grouping" "g" d ∧
      (∃ u ∈ tree.statement.subs, u.keyword = "uses" ∧ u.name = "p:g" ∧ u.grouping ≠ some d.id) ∧
      ∃ c ∈ tree.statement.subs, ∃ u ∈ c.subs, u.keyword = "uses" ∧ u.name = "q:g" ∧ u.grouping ≠ some d.id := by
  have evaluated : ((Library.ofTexts borrowedQualifiers).resolve [] ⟨[]⟩).result.toOption.any (fun schema =>
      (schema.modules.lookup "m").any fun tree =>
        let subs := tree.statement.subs
        tree.statement.argOf? "prefix" == some "p" &&
        (declaredQualifiers "m" tree.statement).reverse.lookup "q" == some "m" &&
        (subs.find? fun s => s.keyword == "grouping" && s.name == "g").any fun d =>
          (subs.any fun u => u.keyword == "uses" && u.name == "p:g" && u.grouping != some d.id) &&
          subs.any fun c => c.subs.any fun u =>
            u.keyword == "uses" && u.name == "q:g" && u.grouping != some d.id) = true := by
    decide +kernel
  obtain ⟨schema, resolved, found⟩ := exists_ok evaluated
  simp only [Option.any_eq_true, Bool.and_eq_true, beq_iff_eq, List.any_eq_true, bne_iff_ne, and_assoc] at found
  obtain ⟨tree, isModule, own, denotes, d, isTop, first, second⟩ := found
  exact ⟨schema, tree, d, resolved, isModule, own, ⟨tree, isModule, denotes⟩, ⟨[], _, [], rfl, isTop, by simp⟩,
    first, second⟩

end YangStubs.Schema
