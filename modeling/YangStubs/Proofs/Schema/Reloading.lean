import YangStubs.Proofs.Schema.Embedding

/-! # Adding modules in another order

Texts that can be added in one order can be added in every order, and the libraries then hold the same modules.  A
library that holds every module that is imported has nothing to load, in whatever order its modules were added.
-/

namespace YangStubs.Schema

/-! ## Adding -/

theorem ReadFrom.name_eq {text : String} {s t : Statement} (read : ReadFrom text s) (read' : ReadFrom text t) :
    t.name = s.name :=
  (read.sameText read').name

theorem Library.exists_add_ok {library : Library} {text : String} {s : Statement} (read : ReadFrom text s)
    (absent : library.contains s.name = false) : ∃ id, (library.add text).result = .ok id := by
  obtain ⟨root, name, parsed, named, statements, going⟩ := read
  obtain ⟨s', statements', -, -, sName⟩ := readElement_module s.id named
  cases statements.symm.trans statements'
  subst sName
  refine ⟨library.next, ?_⟩
  have still : Library.contains { library with
      forest := library.forest ++ (readElement s.name library.next root).statements } s.name = false := absent
  rw [Library.add, parsed]
  simp only [Library.addElement, named, readElement_error s.name root s.id library.next, going, still,
    Bool.false_eq_true, if_false]

theorem Library.addAll_cons {library : Library} {text : String} {id : Nat}
    (added : (library.add text).result = .ok id) (rest : List String) :
    (library.addAll (text :: rest)).result = ((library.add text).library.addAll rest).result ∧
      (library.addAll (text :: rest)).library = ((library.add text).library.addAll rest).library := by
  simp only [Library.addAll, added, and_self]

theorem Library.addAll_ok (texts : List String) : ∀ {library : Library} {id : Nat},
    (library.addAll texts).result = .ok id → ∃ trees, List.Forall₂ ReadFrom texts trees ∧
      (library.addAll texts).library = ⟨library.forest ++ trees,
        library.modules ++ trees.map (fun s => (s.name, s.id)), library.attempted⟩ := by
  induction texts with
  | nil => exact fun _ => ⟨[], .nil, by simp [Library.addAll]⟩
  | cons text rest ih =>
    intro library id done
    cases added : (library.add text).result with
    | error e => simp [Library.addAll, added] at done
    | ok i =>
      obtain ⟨sameResult, sameLibrary⟩ := Library.addAll_cons added rest
      rw [sameResult] at done
      obtain ⟨s, read, -, -, first⟩ := Library.add_ok added
      obtain ⟨trees, others, after⟩ := ih done
      refine ⟨s :: trees, .cons read others, ?_⟩
      rw [sameLibrary, after, first]
      simp

theorem Library.Sound.addAll (texts : List String) : ∀ {library : Library}, library.Sound →
    (library.addAll texts).library.Sound := by
  induction texts with
  | nil => exact fun sound => sound
  | cons text rest ih =>
    intro library sound
    cases added : (library.add text).result with
    | error e =>
      simp only [Library.addAll, added]
      exact sound.add text
    | ok i =>
      rw [(Library.addAll_cons added rest).2]
      exact ih (sound.add text)

/-- Texts of modules with different names can be added. -/
theorem Library.exists_addAll_ok {texts : List String} {trees : List Statement}
    (read : List.Forall₂ ReadFrom texts trees) : ∀ {library : Library},
    (library.modules.map (·.1) ++ trees.map (·.name)).Nodup → ∃ id, (library.addAll texts).result = .ok id := by
  induction read with
  | nil => exact fun _ => ⟨0, rfl⟩
  | @cons text s rest trees here others ih =>
    intro library different
    have absent : library.contains s.name = false := by
      rw [Bool.eq_false_iff, Ne, Library.contains_iff]
      exact fun present => (List.nodup_append.1 different).2.2 _ present _ List.mem_cons_self rfl
    obtain ⟨id, added⟩ := Library.exists_add_ok here absent
    obtain ⟨s', read', -, -, first⟩ := Library.add_ok added
    rw [(Library.addAll_cons added rest).1]
    refine ih ?_
    rw [first]
    simpa [here.name_eq read'] using different

/-! ## Loading -/

section Loading

variable {sources : List Source} {files : FileTree}

theorem Loading.loadImports_loaded {loading : Loading} {imports : List Import}
    (loaded : ∀ i ∈ imports, loading.library.contains i.name = true) :
    Loading.loadImports sources files loading imports = loading := by
  induction imports with
  | nil => rfl
  | cons i rest ih =>
    rw [Loading.loadImports, loaded i List.mem_cons_self]
    cases loading.error with
    | some e => rfl
    | none => exact ih fun j member => loaded j (List.mem_cons_of_mem i member)

theorem Loading.loadFrom_loaded (bound : Nat) : ∀ {position : Nat} {loading : Loading},
    (∀ m ∈ loading.library.modules, ∀ i ∈ loading.library.importsOf m, loading.library.contains i.name = true) →
      Loading.loadFrom sources files bound position loading = loading := by
  induction bound with
  | zero => exact fun _ => rfl
  | succ bound ih =>
    intro position loading loaded
    rw [Loading.loadFrom]
    cases loading.error with
    | some e => rfl
    | none =>
      cases module : loading.library.modules[position]? with
      | none => rfl
      | some m =>
        simp only [← Library.importsOf.eq_1]
        rw [Loading.loadImports_loaded (loaded m (List.mem_of_getElem? module))]
        exact ih loaded

theorem Loading.loadImports_failed {loading : Loading} {e : SchemaError} (failed : loading.error = some e)
    (imports : List Import) : Loading.loadImports sources files loading imports = loading := by
  cases imports with
  | nil => rfl
  | cons i rest => rw [Loading.loadImports, failed]

theorem Loading.loadFrom_failed {loading : Loading} {e : SchemaError} (failed : loading.error = some e)
    {bound position : Nat} : Loading.loadFrom sources files bound position loading = loading := by
  cases bound with
  | zero => rfl
  | succ bound => rw [Loading.loadFrom, failed]

/-- Without sources, loading fails at the first import that is not there. -/
theorem Loading.loaded_of_loadImports (files : FileTree) {loading : Loading} (asked : loading.library.attempted = [])
    {imports : List Import} (done : (Loading.loadImports [] files loading imports).error = none) :
    ∀ i ∈ imports, loading.library.contains i.name = true := by
  induction imports with
  | nil => exact fun i member => absurd member List.not_mem_nil
  | cons i rest ih =>
    cases going : loading.error with
    | some e =>
      rw [Loading.loadImports_failed going, going] at done
      cases done
    | none =>
      cases present : loading.library.contains i.name with
      | false =>
        simp only [Loading.loadImports, going, present, asked, List.contains_nil, Bool.or_self, Bool.false_eq_true,
          if_false, Loading.askFrom] at done
        rw [Loading.loadImports_failed rfl] at done
        cases done
      | true =>
        simp only [Loading.loadImports, going, present, Bool.true_or, if_true] at done
        exact List.forall_mem_cons.2 ⟨present, ih done⟩

theorem Loading.loaded_of_loadFrom (files : FileTree) (bound : Nat) : ∀ (position : Nat) {loading : Loading},
    loading.library.attempted = [] → loading.library.modules.length ≤ position + bound →
      (Loading.loadFrom [] files bound position loading).error = none →
      ∀ m ∈ loading.library.modules.drop position, ∀ i ∈ loading.library.importsOf m,
        loading.library.contains i.name = true := by
  induction bound with
  | zero =>
    intro position loading _ enough _ m member
    rw [List.drop_eq_nil_of_le (by omega)] at member
    cases member
  | succ bound ih =>
    intro position loading asked enough done
    cases going : loading.error with
    | some e =>
      rw [Loading.loadFrom_failed going, going] at done
      cases done
    | none =>
      rw [Loading.loadFrom, going] at done
      cases module : loading.library.modules[position]? with
      | none =>
        intro m member
        rw [List.drop_eq_nil_of_le (List.getElem?_eq_none_iff.1 module)] at member
        cases member
      | some first =>
        simp only [module, ← Library.importsOf.eq_1] at done
        have atFirst : ∀ i ∈ loading.library.importsOf first, loading.library.contains i.name = true := by
          refine Loading.loaded_of_loadImports files asked ?_
          cases later : (Loading.loadImports [] files loading (loading.library.importsOf first)).error with
          | none => rfl
          | some e =>
            rw [Loading.loadFrom_failed later, later] at done
            cases done
        rw [Loading.loadImports_loaded atFirst] at done
        obtain ⟨bounded, isFirst⟩ := List.getElem?_eq_some_iff.1 module
        rw [List.drop_eq_getElem_cons bounded, isFirst]
        exact List.forall_mem_cons.2 ⟨atFirst, ih (position + 1) asked (by omega) done⟩

end Loading

/-- The module of every import is there. -/
def Library.Closed (library : Library) : Prop :=
  ∀ m ∈ library.modules, ∀ i ∈ library.importsOf m, library.contains i.name = true

theorem Library.Closed.loadAll {library : Library} (closed : library.Closed) (sources : List Source)
    (files : FileTree) : library.loadAll sources files = ⟨library, [], [], none⟩ := by
  have loaded : ∀ m ∈ (⟨library, [], [], none⟩ : Loading).library.modules, ∀ i ∈ library.importsOf m,
      library.contains i.name = true := closed
  exact Loading.loadFrom_loaded _ loaded

theorem Library.closed_of_loadAll {library : Library} (asked : library.attempted = []) {files : FileTree}
    (done : (library.loadAll [] files).error = none) : library.Closed := by
  have enough : library.modules.length ≤ 0 + (library.modules.length + 0 + 1) := by omega
  exact Loading.loaded_of_loadFrom files _ 0 asked enough done

/-! ## The other order -/

/-- Both libraries hold the same modules and nothing else. -/
structure Library.Permutes (library library' : Library) (kept : List Statement) : Prop extends
    library.Embeds library' kept where
  order : kept.Perm library'.forest
  loaded : library'.modules = library'.forest.map fun s => (s.name, s.id)

theorem sameText_of_readFrom {texts : List String} {trees trees' : List Statement}
    (read : List.Forall₂ ReadFrom texts trees) (read' : List.Forall₂ ReadFrom texts trees') :
    List.Forall₂ SameText trees trees' := by
  induction read generalizing trees' with
  | nil =>
    cases read'
    exact .nil
  | cons here _ ih =>
    cases read' with
    | cons here' others' => exact .cons (here.sameText here') (ih others')

theorem exists_permutes {texts texts' : List String} (order : texts.Perm texts') {id : Nat}
    (added : (Library.empty.addAll texts).result = .ok id) :
    (∃ id', (Library.empty.addAll texts').result = .ok id') ∧
      ∃ kept, (Library.empty.addAll texts).library.Permutes (Library.empty.addAll texts').library kept := by
  obtain ⟨trees, read, after⟩ := Library.addAll_ok texts added
  obtain ⟨trees₀, read₀, order₀⟩ := List.perm_comp_forall₂ order.symm read
  have sound := Library.sound_empty.addAll texts
  have different : (trees₀.map (·.name)).Nodup := by
    have names := sound.names
    rw [after] at names
    rw [(order₀.map _).nodup_iff]
    simpa [Library.empty, Function.comp_def] using names
  obtain ⟨id', added'⟩ : ∃ id', (Library.empty.addAll texts').result = .ok id' :=
    Library.exists_addAll_ok read₀ (by simpa [Library.empty] using different)
  obtain ⟨trees', read', after'⟩ := Library.addAll_ok texts' added'
  obtain ⟨kept, readKept, order'⟩ := List.perm_comp_forall₂ order read'
  have sameTexts := sameText_of_readFrom read readKept
  refine ⟨⟨id', added'⟩, kept, ⟨sound, Library.sound_empty.addAll texts', ?_, ?_, ?_, ?_⟩, ?_, ?_⟩
  · rw [after]
    exact sameTexts
  · rw [after]
    rfl
  · rw [after']
    exact order'.symm.map _
  · rw [after']
    exact order'.subset
  · rw [after']
    exact order'
  · rw [after']
    rfl

theorem Library.Permutes.closed {library library' : Library} {kept : List Statement}
    (permutes : library.Permutes library' kept) (closed : library.Closed) : library'.Closed := by
  have sameNames : (library'.modules.map (·.1)).Perm (library.modules.map (·.1)) := by
    have names := permutes.modules'.map (·.1)
    rw [List.map_map] at names
    rw [permutes.modules, List.map_map]
    exact names.trans (.of_eq (map_eq_of_forall₂ SameText.name permutes.texts))
  have contained : ∀ imports ∈ library.forest.map (·.imports), ∀ i ∈ imports, library.contains i.name = true := by
    rw [← permutes.sound.importsOf_eq (List.Subset.refl _) permutes.modules]
    intro imports member
    obtain ⟨m, isModule, rfl⟩ := List.mem_map.1 member
    exact closed m isModule
  intro m isModule i member
  have listed : library'.importsOf m ∈ library'.forest.map (·.imports) := by
    rw [← permutes.sound'.importsOf_eq (List.Subset.refl _) permutes.loaded]
    exact List.mem_map_of_mem isModule
  have listed' := ((permutes.order.map (·.imports)).mem_iff).2 listed
  have sameImports : kept.map (·.imports) = library.forest.map (·.imports) :=
    map_eq_of_forall₂ SameText.imports permutes.texts
  rw [sameImports] at listed'
  have present := contained _ listed' i member
  rw [Library.contains_iff] at present ⊢
  exact sameNames.mem_iff.2 present

theorem resolveTexts_ok_iff {texts : List String} {files : FileTree} {schema : Resolved} :
    (resolveTexts texts [] files).result = .ok schema ↔ (∃ id, (Library.empty.addAll texts).result = .ok id) ∧
      (Library.empty.addAll texts).library.Closed ∧ (Library.empty.addAll texts).library.link.result = .ok schema := by
  cases added : (Library.empty.addAll texts).result with
  | error e => simp [resolveTexts, added]
  | ok id =>
    have asked : (Library.empty.addAll texts).library.attempted = [] := by
      obtain ⟨trees, -, after⟩ := Library.addAll_ok texts added
      rw [after]
      rfl
    have result : (resolveTexts texts [] files).result =
        ((Library.empty.addAll texts).library.resolve [] files).result := by simp only [resolveTexts, added]
    rw [result, Library.resolve_result]
    constructor
    · intro resolved
      cases failed : ((Library.empty.addAll texts).library.loadAll [] files).error with
      | some e =>
        rw [failed] at resolved
        cases resolved
      | none =>
        have closed := Library.closed_of_loadAll asked failed
        rw [failed, closed.loadAll] at resolved
        exact ⟨⟨id, rfl⟩, closed, resolved⟩
    · intro ⟨_, closed, resolved⟩
      rw [closed.loadAll]
      exact resolved

end YangStubs.Schema
