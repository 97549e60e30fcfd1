import YangStubs.Proofs.Schema.Embedding

/-! # Libraries without what was refused

A text that is refused may leave a tree in the library.  Beside a library stands the one to which only the
accepted texts were added: both have the same modules, both accept and refuse the same texts, and so both load
the same imports.
-/

namespace YangStubs.Schema

namespace Library

/-- Whether the tree is a module of the library. -/
def isLoaded (library : Library) (s : Statement) : Bool :=
  (library.modules.map (·.2)).contains s.id

/-- The trees of the modules, in load order. -/
def loadedTrees (library : Library) : List Statement :=
  library.forest.filter library.isLoaded

/-- The trees of the forest that refused texts have left. -/
def leftoversIn (library : Library) (forest : List Statement) : List Statement :=
  forest.filter fun s => !library.isLoaded s

/-- The texts that are accepted when they are added in turn. -/
def accepted (library : Library) : List String → List String
  | [] => []
  | text :: rest =>
    match (library.add text).result with
    | .error _ => (library.add text).library.accepted rest
    | .ok _ => text :: (library.add text).library.accepted rest

/-- The first library is the second one without its leftovers. -/
structure Clears (library library' : Library) : Prop where
  sound : library.Sound
  sound' : library'.Sound
  texts : List.Forall₂ SameText library.forest library'.loadedTrees
  modules : library.modules = library.forest.map fun s => (s.name, s.id)
  modules' : library'.modules = library'.loadedTrees.map fun s => (s.name, s.id)
  attempted : library'.attempted = library.attempted

theorem clears_empty : Clears empty empty :=
  ⟨sound_empty, sound_empty, .nil, rfl, rfl, rfl⟩

theorem isLoaded_iff {library : Library} {s : Statement} :
    library.isLoaded s = true ↔ s.id ∈ library.modules.map (·.2) := by
  rw [isLoaded, List.contains_iff_mem]

section Add

variable {library : Library} (sound : library.Sound)
include sound

theorem Sound.loadedTrees_append {s : Statement} (number : s.id = library.next) (attempted : List String) :
    loadedTrees ⟨library.forest ++ [s], library.modules ++ [(s.name, s.id)], attempted⟩ =
      library.loadedTrees ++ [s] := by
  have old : ∀ t ∈ library.forest,
      isLoaded ⟨library.forest ++ [s], library.modules ++ [(s.name, s.id)], attempted⟩ t = library.isLoaded t := by
    intro t member
    have := sound.numbered.bounds member
    have := Statement.size_eq t
    have different : t.id ≠ s.id := by
      rw [number, next]
      omega
    rw [Bool.eq_iff_iff, isLoaded_iff, isLoaded_iff]
    simp [different]
  have new : isLoaded ⟨library.forest ++ [s], library.modules ++ [(s.name, s.id)], attempted⟩ s = true := by
    simp [isLoaded_iff]
  rw [loadedTrees, List.filter_append, List.filter_congr old, List.filter_singleton, new]
  rfl

theorem Sound.loadedTrees_leftover {more : List Statement}
    (sound' : Sound { library with forest := library.forest ++ more }) :
    loadedTrees { library with forest := library.forest ++ more } = library.loadedTrees := by
  have new : ∀ t ∈ more, isLoaded { library with forest := library.forest ++ more } t = false := by
    intro t member
    rw [Bool.eq_false_iff, ne_eq, isLoaded_iff]
    intro loaded
    obtain ⟨m, inModules, same⟩ := List.mem_map.1 loaded
    obtain ⟨s, inForest, number, -⟩ := sound.modules m inModules
    have := (List.pairwise_append.1 sound'.numbered.pairwise).2.2 s inForest t member
    have := Statement.size_eq s
    omega
  have none : more.filter (isLoaded { library with forest := library.forest ++ more }) = [] :=
    List.filter_eq_nil_iff.2 fun t member => by simp [new t member]
  rw [loadedTrees, List.filter_append, none, List.append_nil]
  rfl

end Add

namespace Clears

variable {library library' : Library} (clears : library.Clears library')
include clears

theorem names_eq : library'.modules.map (·.1) = library.modules.map (·.1) := by
  rw [clears.modules, clears.modules', List.map_map, List.map_map]
  exact map_eq_of_forall₂ SameText.name clears.texts

theorem contains_eq (name : String) : library'.contains name = library.contains name := by
  rw [Bool.eq_iff_iff, contains_iff, contains_iff, clears.names_eq]

theorem importsOf_eq : library'.modules.map library'.importsOf = library.modules.map library.importsOf := by
  rw [clears.sound.importsOf_eq (List.Subset.refl _) clears.modules,
    clears.sound'.importsOf_eq (List.filter_subset_self _) clears.modules']
  exact map_eq_of_forall₂ SameText.imports clears.texts

theorem add_error {text : String} {e : SchemaError} (refused : (library'.add text).result = .error e) :
    (library.add text).result = .error e ∧ library.Clears (library'.add text).library := by
  refine ⟨(add_error_iff clears.contains_eq text e).1 refused, ?_⟩
  have sound' := clears.sound'.add text
  obtain ⟨more, added⟩ := Library.add_error refused
  rw [added] at sound' ⊢
  have same := clears.sound'.loadedTrees_leftover sound'
  exact ⟨clears.sound, sound', same ▸ clears.texts, clears.modules, by rw [same]; exact clears.modules',
    clears.attempted⟩

theorem add_ok {text : String} {id' : Nat} (added : (library'.add text).result = .ok id') :
    ∃ id, (library.add text).result = .ok id ∧ (library.add text).library.Clears (library'.add text).library := by
  cases result : (library.add text).result with
  | error e => cases added.symm.trans ((add_error_iff clears.contains_eq text e).2 result)
  | ok id =>
    obtain ⟨s, read, number, -, isLibrary⟩ := Library.add_ok result
    obtain ⟨s', read', number', -, isLibrary'⟩ := Library.add_ok added
    have trees := clears.sound'.loadedTrees_append number' library'.attempted
    refine ⟨id, rfl, clears.sound.add text, clears.sound'.add text, ?_, ?_, ?_, ?_⟩
    · rw [isLibrary, isLibrary', trees]
      exact List.rel_append clears.texts (.cons (read.sameText read') .nil)
    · rw [isLibrary, List.map_append, clears.modules]
      rfl
    · rw [isLibrary', trees, List.map_append, ← clears.modules']
      rfl
    · rw [isLibrary, isLibrary']
      exact clears.attempted

theorem ask (names : List String) : Clears { library with attempted := names } { library' with attempted := names } :=
  ⟨⟨clears.sound.numbered, clears.sound.plain, clears.sound.modules, clears.sound.names⟩,
    ⟨clears.sound'.numbered, clears.sound'.plain, clears.sound'.modules, clears.sound'.names⟩,
    clears.texts, clears.modules, clears.modules', rfl⟩

omit clears in
theorem addTexts (texts : List String) {library library' : Library} (clears : library.Clears library') :
    Clears ((library'.accepted texts).foldl (fun library text => (library.add text).library) library)
      (texts.foldl (fun library text => (library.add text).library) library') := by
  induction texts generalizing library library' with
  | nil => exact clears
  | cons text rest ih =>
    cases result : (library'.add text).result with
    | error e =>
      simp only [accepted, result, List.foldl_cons]
      exact ih (clears.add_error result).2
    | ok id =>
      obtain ⟨_, _, still⟩ := clears.add_ok result
      simp only [accepted, result, List.foldl_cons]
      exact ih still

end Clears

theorem clears_ofTexts (texts : List String) : Clears (ofTexts (empty.accepted texts)) (ofTexts texts) :=
  clears_empty.addTexts texts

end Library

/-! ## Loading imports -/

/-- Two libraries whose imports are being loaded, one of which is the other without its leftovers. -/
structure Loading.InStep (loading loading' : Loading) : Prop where
  error : loading'.error = loading.error
  library : loading.error = none → loading.library.Clears loading'.library

namespace Loading.InStep

variable {loading loading' : Loading} (files : FileTree) (inStep : loading.InStep loading')
include inStep

theorem accept (going : loading.error = none) (i : Import) (text : String) :
    (loading.accept i text).InStep (loading'.accept i text) := by
  have clears := inStep.library going
  cases result : (loading'.library.add text).result with
  | error e =>
    have result' := (clears.add_error result).1
    simp only [Loading.accept, result, result']
    exact ⟨rfl, fun never => absurd never (Option.some_ne_none _)⟩
  | ok id =>
    obtain ⟨id', result', still⟩ := clears.add_ok result
    simp only [Loading.accept, result, result']
    refine ⟨?_, fun _ => ?_⟩
    · split <;> split <;> exact inStep.error
    · split <;> split <;> exact still

theorem askFrom (going : loading.error = none) (i : Import) (sources : List Source) :
    ∀ (failure : SourceError) (position : Nat),
      (Loading.askFrom files i failure position loading sources).InStep
        (Loading.askFrom files i failure position loading' sources) := by
  induction sources generalizing loading loading' with
  | nil => exact fun _ _ => ⟨rfl, fun never => absurd never (Option.some_ne_none _)⟩
  | cons source rest ih =>
    intro failure position
    have asked : Loading.InStep
        { loading with
          log := loading.log ++ (source.ask files i).2, questions := loading.questions ++ [⟨position, i⟩] }
        { loading' with
          log := loading'.log ++ (source.ask files i).2, questions := loading'.questions ++ [⟨position, i⟩] } :=
      ⟨inStep.error, inStep.library⟩
    simp only [Loading.askFrom]
    split
    · exact asked.accept going i _
    · exact ih asked going _ _
    · exact ih asked going _ _

theorem loadImports (sources : List Source) (imports : List Import) :
    (Loading.loadImports sources files loading imports).InStep
      (Loading.loadImports sources files loading' imports) := by
  induction imports generalizing loading loading' with
  | nil => exact inStep
  | cons i rest ih =>
    have error := inStep.error
    cases going : loading.error with
    | some e =>
      rw [going] at error
      simp only [Loading.loadImports, going, error]
      exact inStep
    | none =>
      have clears := inStep.library going
      rw [going] at error
      simp only [Loading.loadImports, going, error, clears.contains_eq, clears.attempted]
      split
      · exact ih inStep
      · have asked : Loading.InStep
            ⟨{ loading.library with attempted := loading.library.attempted ++ [i.name] }, loading.log,
              loading.questions, none⟩
            ⟨{ loading'.library with attempted := loading.library.attempted ++ [i.name] }, loading'.log,
              loading'.questions, none⟩ :=
          ⟨rfl, fun _ => clears.ask (loading.library.attempted ++ [i.name])⟩
        exact ih (asked.askFrom files rfl i sources .unsupported 0)

theorem loadFrom (sources : List Source) (bound : Nat) : ∀ position : Nat,
    (Loading.loadFrom sources files bound position loading).InStep
      (Loading.loadFrom sources files bound position loading') := by
  induction bound generalizing loading loading' with
  | zero => exact fun _ => inStep
  | succ bound ih =>
    intro position
    have error := inStep.error
    cases going : loading.error with
    | some e =>
      rw [going] at error
      simp only [Loading.loadFrom, going, error]
      exact inStep
    | none =>
      rw [going] at error
      have imports := congrArg (·[position]?) (inStep.library going).importsOf_eq
      simp only [List.getElem?_map] at imports
      cases module : loading.library.modules[position]? with
      | none =>
        rw [module, Option.map_none, Option.map_eq_none_iff] at imports
        simp only [Loading.loadFrom, going, error, module, imports]
        exact inStep
      | some m =>
        rw [module, Option.map_some, Option.map_eq_some_iff] at imports
        obtain ⟨m', module', sameImports⟩ := imports
        simp only [Loading.loadFrom, going, error, module, module', ← Library.importsOf.eq_1, sameImports]
        exact ih (inStep.loadImports files sources _) _

end Loading.InStep

theorem Library.Clears.loadAll {library library' : Library} (clears : library.Clears library')
    (sources : List Source) (files : FileTree) :
    (library.loadAll sources files).InStep (library'.loadAll sources files) := by
  have sameLength : library'.modules.length = library.modules.length := by
    simpa using congrArg List.length clears.importsOf_eq
  have start : Loading.InStep ⟨library, [], [], none⟩ ⟨library', [], [], none⟩ := ⟨rfl, fun _ => clears⟩
  rw [Library.loadAll, Library.loadAll, sameLength]
  exact start.loadFrom files sources _ 0

end YangStubs.Schema
