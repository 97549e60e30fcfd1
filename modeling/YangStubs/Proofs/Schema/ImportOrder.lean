import Mathlib.Algebra.Order.BigOperators.Group.List
import Mathlib.Algebra.Order.Group.Nat
import YangStubs.Proofs.Schema.Reloading

/-! # In which order imports are loaded

Loading goes through the modules in order and appends to the very list it goes through, so the import statements come
up breadth first.  An import is passed over if a module of its name is loaded or its name has been asked for; otherwise
the sources are asked in turn, and the first text is read.

Loading ends because a source runs out of what it can give: each name is asked for once, and no text is read twice,
since its module would be loaded already.
-/

namespace YangStubs.Schema

/-! ## What a source can give -/

namespace Source

/-- What tells one text of the source from another. -/
def key (source : Source) (i : Import) (text : String) : String :=
  match source with
  | .search _ => text
  | .catalogue _ | .rule _ _ _ => i.name

/-- The keys of all texts that the source has. -/
def keys (source : Source) (files : FileTree) : List String :=
  match source with
  | .catalogue answers => answers.map (·.1)
  | .search _ => files.entries.filterMap fun entry =>
      match entry.2 with
      | .text content => some content
      | .binary | .directory => none
  | .rule names _ _ => names

theorem length_keys_le (source : Source) (files : FileTree) : (source.keys files).length ≤ source.capacity files := by
  cases source with
  | catalogue answers => exact Nat.le_of_eq (List.length_map _)
  | search directories => exact List.length_filterMap_le _ _
  | rule names answer listed => exact Nat.le_refl _

theorem mem_of_read {files : FileTree} {path text : String} (read : files.read path = .ok text) :
    ∃ place, (place, Entry.text text) ∈ files.entries := by
  unfold FileTree.read at read
  cases isPlace : files.place path with
  | error e => simp [isPlace, bind, Except.bind] at read
  | ok place =>
    simp only [isPlace, bind, Except.bind] at read
    cases isEntry : files.entry? place with
    | none => simp [isEntry] at read
    | some entry =>
      cases entry with
      | directory => simp [isEntry] at read
      | binary => simp [isEntry] at read
      | text content =>
        simp only [isEntry, Except.ok.injEq] at read
        rw [FileTree.entry?] at isEntry
        split at isEntry
        · cases isEntry
        · exact ⟨place, read ▸ mem_of_lookup_eq_some isEntry⟩

theorem key_mem {source : Source} {files : FileTree} {i : Import} {text : String}
    (answered : (source.ask files i).1 = .ok text) : source.key i text ∈ source.keys files := by
  cases source with
  | catalogue answers =>
    simp only [ask] at answered
    cases found : answers.lookup i.name with
    | none => simp [found] at answered
    | some answer =>
      exact List.mem_map_of_mem (mem_of_lookup_eq_some found)
  | search directories =>
    simp only [ask] at answered
    cases found : (i.possiblePaths directories).find? files.isFile with
    | none => simp [found] at answered
    | some path =>
      simp only [found] at answered
      cases read : files.read path with
      | error e => simp [read, Except.mapError] at answered
      | ok content =>
        simp only [read, Except.mapError, Except.ok.injEq] at answered
        obtain ⟨place, listed⟩ := mem_of_read read
        exact List.mem_filterMap.2 ⟨_, listed, congrArg some answered⟩
  | rule names answer listed => exact listed i text answered

end Source

/-- The keys of all texts that some sources have, each with the position of the source. -/
def suppliesOf (sources : List Source) (files : FileTree) : List (Nat × String) :=
  sources.zipIdx.flatMap fun p => (p.1.keys files).map fun key => (p.2, key)

theorem length_suppliesOf_le (sources : List Source) (files : FileTree) :
    (suppliesOf sources files).length ≤ (sources.map (·.capacity files)).foldl (· + ·) 0 := by
  have lengths : (suppliesOf sources files).length = (sources.map fun source => (source.keys files).length).sum := by
    nth_rewrite 2 [← List.zipIdx_map_fst 0 sources]
    rw [suppliesOf, List.length_flatMap, List.map_map]
    simp [Function.comp_def]
  rw [lengths, ← List.sum_eq_foldl]
  exact List.sum_le_sum fun source _ => source.length_keys_le files

/-! ## Asking the sources -/

/-- The answer of the source at a position. -/
def answerAt (sources : List Source) (files : FileTree) (i : Import) (position : Nat) :
    Option (Except SourceError String) :=
  sources[position]?.map fun source => (source.ask files i).1

/-- The source at the position has a text for the import, and is the first that has one. -/
structure FirstAnswer (sources : List Source) (files : FileTree) (i : Import) (position : Nat) (text : String) :
    Prop where
  here : answerAt sources files i position = some (.ok text)
  before : ∀ k < position, ∃ e, answerAt sources files i k = some (.error e)

/-- What a failing source can be blamed for: any failure but that it does not deal with the module. -/
def failure? : Except SourceError String → Option SourceError
  | .ok _ | .error .unsupported => none
  | .error e => some e

/-- What a failing import is blamed on: the last failure of a source. -/
def blame (sources : List Source) (files : FileTree) (i : Import) (otherwise : SourceError) : SourceError :=
  (sources.filterMap fun source => failure? (source.ask files i).1).getLastD otherwise

/-- The questions about an import to the first sources, in order. -/
def questionsTo (count : Nat) (i : Import) : List Question :=
  (List.range count).map fun position => ⟨position, i⟩

theorem FirstAnswer.later {source : Source} {sources : List Source} {files : FileTree} {i : Import} {position : Nat}
    {text : String} {e : SourceError} (refused : (source.ask files i).1 = .error e)
    (answer : FirstAnswer sources files i position text) :
    FirstAnswer (source :: sources) files i (position + 1) text := by
  refine ⟨answer.here, fun k before => ?_⟩
  cases k with
  | zero => exact ⟨e, congrArg some refused⟩
  | succ k => exact answer.before k (by omega)

theorem blame_cons {source : Source} {files : FileTree} {i : Import} {answer : Except SourceError String}
    (isAnswer : (source.ask files i).1 = answer) (sources : List Source) (otherwise : SourceError) :
    blame (source :: sources) files i otherwise = blame sources files i ((failure? answer).getD otherwise) := by
  rw [blame, blame, List.filterMap_cons, isAnswer]
  cases failure? answer with
  | none => rfl
  | some e => rw [Option.getD_some, List.getLastD_cons]

namespace Loading

/-- Where asking about an import leads: to the first text there is, or to an error if there is none. -/
theorem askFrom_spec (files : FileTree) (i : Import) (sources : List Source) :
    ∀ (otherwise : SourceError) (position : Nat) (loading : Loading),
    (∃ k text log, FirstAnswer sources files i k text ∧
      askFrom files i otherwise position loading sources = accept
        { loading with log, questions := loading.questions ++ (List.range (k + 1)).map fun j => ⟨position + j, i⟩ }
        i text) ∨
    (∃ log, (∀ k < sources.length, ∃ e, answerAt sources files i k = some (.error e)) ∧
      askFrom files i otherwise position loading sources =
        { loading with
          log, error := some (.importFailed i.name (blame sources files i otherwise)),
          questions := loading.questions ++ (List.range sources.length).map fun j => ⟨position + j, i⟩ }) := by
  induction sources with
  | nil =>
    intro otherwise position loading
    exact .inr ⟨loading.log, by simp, by simp [askFrom, blame]⟩
  | cons source rest ih =>
    intro otherwise position loading
    cases answer : (source.ask files i).1 with
    | ok text =>
      refine .inl ⟨0, text, loading.log ++ (source.ask files i).2, ⟨congrArg some answer, by simp⟩, ?_⟩
      simp [askFrom, answer]
    | error e =>
      -- The rest is asked with one more question on record, and with another failure to blame unless it is the idle one.
      have step : askFrom files i otherwise position loading (source :: rest) =
          askFrom files i ((failure? (.error e)).getD otherwise) (position + 1)
            { loading with
              log := loading.log ++ (source.ask files i).2, questions := loading.questions ++ [⟨position, i⟩] } rest := by
        cases e <;> simp [askFrom, answer, failure?]
      have range : ∀ n, (List.range (n + 1)).map (fun j => (⟨position + j, i⟩ : Question)) =
          ⟨position, i⟩ :: (List.range n).map fun j => ⟨position + 1 + j, i⟩ := by
        intro n
        rw [List.range_succ_eq_map, List.map_cons, List.map_map]
        simp [Function.comp_def, Nat.add_assoc, Nat.add_comm 1]
      rw [step]
      cases ih ((failure? (.error e)).getD otherwise) (position + 1) _ with
      | inl found =>
        obtain ⟨k, text, log, first, result⟩ := found
        refine .inl ⟨k + 1, text, log, first.later answer, ?_⟩
        rw [result, range (k + 1)]
        simp
      | inr failed =>
        obtain ⟨log, none, result⟩ := failed
        refine .inr ⟨log, fun k before => ?_, ?_⟩
        · cases k with
          | zero => exact ⟨e, congrArg some answer⟩
          | succ k => exact none k (by simpa using before)
        · rw [result, List.length_cons, range rest.length, blame_cons answer]
          simp

end Loading

/-! ## Going through imports -/

/-- A module that was loaded: for which import, from which source, and from which text. -/
structure Attempt where
  topic : Import
  source : Nat
  text : String
  module : Statement

/-- What comes of going through imports in order when modules of some names are loaded, and some names have been asked
    for: an import is passed over, or its name is new in both respects and a module is loaded for it. -/
inductive Loads : List String → List String → List Import → List Attempt → Prop
  | nil (loaded asked : List String) : Loads loaded asked [] []
  | pass {loaded asked : List String} {i : Import} {imports : List Import} {attempts : List Attempt}
      (known : i.name ∈ loaded ∨ i.name ∈ asked) (others : Loads loaded asked imports attempts) :
      Loads loaded asked (i :: imports) attempts
  | load {loaded asked : List String} {a : Attempt} {imports : List Import} {attempts : List Attempt}
      (new : a.topic.name ∉ loaded) (unasked : a.topic.name ∉ asked)
      (others : Loads (loaded ++ [a.module.name]) (asked ++ [a.topic.name]) imports attempts) :
      Loads loaded asked (a.topic :: imports) (a :: attempts)

namespace Loads

variable {loaded asked : List String} {imports imports' : List Import} {attempts attempts' : List Attempt}

theorem append (first : Loads loaded asked imports attempts)
    (second : Loads (loaded ++ attempts.map (·.module.name)) (asked ++ attempts.map (·.topic.name)) imports' attempts') :
    Loads loaded asked (imports ++ imports') (attempts ++ attempts') := by
  induction first with
  | nil loaded asked => simpa using second
  | pass known _ ih => exact .pass known (ih second)
  | load new unasked _ ih =>
    apply Loads.load new unasked
    apply ih
    simpa using second

section

variable (loads : Loads loaded asked imports attempts)
include loads

/-- When a source is asked, no module of that name is loaded. -/
theorem new_of_split {before after : List Attempt} {a : Attempt} (split : attempts = before ++ a :: after) :
    a.topic.name ∉ loaded ++ before.map (·.module.name) := by
  induction loads generalizing before with
  | nil => simp at split
  | pass _ _ ih => exact ih split
  | load new _ _ ih =>
    cases before with
    | nil =>
      cases split
      simpa using new
    | cons first before =>
      cases split
      simpa using ih rfl

theorem asked_nodup (nodup : asked.Nodup) : (asked ++ attempts.map (·.topic.name)).Nodup := by
  induction loads with
  | nil => simpa using nodup
  | pass _ _ ih => exact ih nodup
  | load _ unasked _ ih =>
    have extended := ih (by simpa using nodup.concat unasked)
    simpa using extended

/-- In the end every import that was gone through is loaded or has been asked for. -/
theorem settled {i : Import} (member : i ∈ imports) :
    i.name ∈ loaded ++ attempts.map (·.module.name) ∨ i.name ∈ asked ++ attempts.map (·.topic.name) := by
  induction loads with
  | nil => cases member
  | pass known _ ih =>
    cases List.mem_cons.1 member with
    | inl isFirst =>
      subst isFirst
      exact known.imp (List.mem_append_left _) (List.mem_append_left _)
    | inr isLater => exact ih isLater
  | load _ _ _ ih =>
    cases List.mem_cons.1 member with
    | inl isFirst =>
      subst isFirst
      simp
    | inr isLater => simpa using ih isLater

end

end Loads

namespace Loading

variable (start : Library) (sources : List Source) (files : FileTree)

/-- A library while its imports are being loaded without an error so far: which imports have been gone through, and
    what was loaded for them. -/
structure Came (seen : List Import) (attempts : List Attempt) (loading : Loading) : Prop where
  sound : loading.library.Sound
  going : loading.error = none
  library : loading.library = ⟨start.forest ++ attempts.map (·.module),
    start.modules ++ attempts.map (fun a => (a.module.name, a.module.id)),
    start.attempted ++ attempts.map (·.topic.name)⟩
  questions : loading.questions = attempts.flatMap fun a => questionsTo (a.source + 1) a.topic
  answered : ∀ a ∈ attempts, FirstAnswer sources files a.topic a.source a.text
  read : ∀ a ∈ attempts, ReadFrom a.text a.module
  loads : Loads (start.modules.map (·.1)) start.attempted seen attempts

/-- How loading fails at an import: no source has a text for it, or the text that the first of them has is refused. -/
inductive Fails (i : Import) (before after : Loading) : Prop
  | unanswered (none : ∀ k < sources.length, ∃ e, answerAt sources files i k = some (.error e))
      (error : after.error = some (.importFailed i.name (blame sources files i .unsupported)))
      (questions : after.questions = before.questions ++ questionsTo sources.length i)
  | refused (k : Nat) (text : String) (answer : FirstAnswer sources files i k text) (e : SchemaError)
      (reason : (before.library.add text).result = .error e) (error : after.error = some e)
      (questions : after.questions = before.questions ++ questionsTo (k + 1) i)

/-- Loading has failed at an import, after others have been gone through. -/
structure Failed (seen : List Import) (attempts : List Attempt) (i : Import) (loading : Loading) : Prop where
  before : ∃ earlier, Came start sources files seen attempts earlier ∧ Fails sources files i earlier loading
  new : i.name ∉ start.modules.map (·.1) ++ attempts.map (·.module.name)
  unasked : i.name ∉ start.attempted ++ attempts.map (·.topic.name)
  modules : loading.library.modules = start.modules ++ attempts.map fun a => (a.module.name, a.module.id)
  forest : ∃ more, loading.library.forest = start.forest ++ attempts.map (·.module) ++ more

variable {start sources files} {seen : List Import} {attempts : List Attempt} {loading : Loading}

theorem accept_ok {i : Import} {text : String} {id : Nat} (added : (loading.library.add text).result = .ok id) :
    (loading.accept i text).library = (loading.library.add text).library ∧
      (loading.accept i text).questions = loading.questions ∧ (loading.accept i text).error = loading.error := by
  simp only [accept, added]
  split <;> exact ⟨rfl, rfl, rfl⟩

theorem accept_error {i : Import} {text : String} {e : SchemaError}
    (refused : (loading.library.add text).result = .error e) :
    (loading.accept i text).library = (loading.library.add text).library ∧
      (loading.accept i text).questions = loading.questions ∧ (loading.accept i text).error = some e := by
  simp only [accept, refused, and_self]

/-- The state after asking some sources about an import. -/
def asking (loading : Loading) (i : Import) (count : Nat) (log : Log) : Loading :=
  ⟨{ loading.library with attempted := loading.library.attempted ++ [i.name] }, log,
    loading.questions ++ questionsTo count i, loading.error⟩

namespace Came

section

variable (came : Came start sources files seen attempts loading)
include came

theorem pass {i : Import}
    (known : i.name ∈ start.modules.map (·.1) ++ attempts.map (·.module.name) ∨
      i.name ∈ start.attempted ++ attempts.map (·.topic.name)) :
    Came start sources files (seen ++ [i]) attempts loading := by
  refine ⟨came.sound, came.going, came.library, came.questions, came.answered, came.read, ?_⟩
  have passed := came.loads.append (.pass known (.nil _ _))
  simpa using passed

theorem load {i : Import} {k id : Nat} {text : String} {log : Log}
    (new : i.name ∉ start.modules.map (·.1) ++ attempts.map (·.module.name))
    (unasked : i.name ∉ start.attempted ++ attempts.map (·.topic.name))
    (answer : FirstAnswer sources files i k text)
    (added : ((loading.asking i (k + 1) log).library.add text).result = .ok id) :
    ∃ s, Came start sources files (seen ++ [i]) (attempts ++ [⟨i, k, text, s⟩])
      ((loading.asking i (k + 1) log).accept i text) := by
  obtain ⟨s, read, -, -, after⟩ := Library.add_ok added
  obtain ⟨library, questions, error⟩ := accept_ok (i := i) added
  have sound : (loading.asking i (k + 1) log).library.Sound :=
    ⟨came.sound.numbered, came.sound.plain, came.sound.modules, came.sound.names⟩
  refine ⟨s, library ▸ sound.add text, error.trans came.going, ?_, ?_, ?_, ?_, ?_⟩
  · rw [library, after]
    simp [asking, came.library]
  · rw [questions]
    simp [asking, came.questions]
  · intro a member
    cases List.mem_append.1 member with
    | inl earlier => exact came.answered a earlier
    | inr isNew =>
      cases List.mem_singleton.1 isNew
      exact answer
  · intro a member
    cases List.mem_append.1 member with
    | inl earlier => exact came.read a earlier
    | inr isNew =>
      cases List.mem_singleton.1 isNew
      exact read
  · apply came.loads.append
    exact .load (a := ⟨i, k, text, s⟩) new unasked (.nil _ _)

/-- An import is passed over, or a module is loaded for it, or loading fails at it. -/
theorem step (i : Import) (rest : List Import) :
    (∃ more next, Came start sources files (seen ++ [i]) (attempts ++ more) next ∧
      loadImports sources files loading (i :: rest) = loadImports sources files next rest) ∨
    Failed start sources files seen attempts i (loadImports sources files loading (i :: rest)) := by
  have isKnown : (loading.library.contains i.name || loading.library.attempted.contains i.name) = true ↔
      i.name ∈ start.modules.map (·.1) ++ attempts.map (·.module.name) ∨
        i.name ∈ start.attempted ++ attempts.map (·.topic.name) := by
    rw [Bool.or_eq_true, Library.contains_iff, List.contains_iff_mem, came.library]
    simp
  by_cases known : i.name ∈ start.modules.map (·.1) ++ attempts.map (·.module.name) ∨
      i.name ∈ start.attempted ++ attempts.map (·.topic.name)
  · refine .inl ⟨[], loading, ?_, ?_⟩
    · simpa using came.pass known
    · simp only [loadImports, came.going, isKnown.2 known, if_true]
  · obtain ⟨new, unasked⟩ := not_or.1 known
    have asks : loadImports sources files loading (i :: rest) = loadImports sources files
        (askFrom files i .unsupported 0 (loading.asking i 0 loading.log) sources) rest := by
      rw [loadImports, came.going]
      simp only [if_neg (mt isKnown.1 known), asking, came.going, questionsTo, List.range_zero, List.map_nil,
        List.append_nil]
    cases askFrom_spec files i sources .unsupported 0 (loading.asking i 0 loading.log) with
    | inl found =>
      obtain ⟨k, text, log, answer, result⟩ := found
      have result : askFrom files i .unsupported 0 (loading.asking i 0 loading.log) sources =
          (loading.asking i (k + 1) log).accept i text := by
        simpa [asking, questionsTo] using result
      rw [asks, result]
      cases added : ((loading.asking i (k + 1) log).library.add text).result with
      | ok id =>
        obtain ⟨s, came'⟩ := came.load new unasked answer added
        exact .inl ⟨_, _, came', rfl⟩
      | error e =>
        have sameNames : ∀ name, (loading.asking i (k + 1) log).library.contains name = loading.library.contains name :=
          fun _ => rfl
        obtain ⟨more, after⟩ := Library.add_error added
        obtain ⟨library, questions, error⟩ := accept_error (i := i) added
        refine .inr ?_
        rw [loadImports_failed error]
        refine ⟨⟨loading, came, .refused k text answer e ?_ error questions⟩, new, unasked, ?_, more, ?_⟩
        · exact (Library.add_error_iff sameNames text e).1 added
        · rw [library, after]
          simp [asking, came.library]
        · rw [library, after]
          simp [asking, came.library]
    | inr failed =>
      obtain ⟨log, none, result⟩ := failed
      have result : askFrom files i .unsupported 0 (loading.asking i 0 loading.log) sources =
          { loading.asking i sources.length log with
            error := some (.importFailed i.name (blame sources files i .unsupported)) } := by
        simpa [asking, questionsTo] using result
      rw [asks, result]
      refine .inr ?_
      rw [loadImports_failed rfl]
      refine ⟨⟨loading, came, .unanswered none rfl rfl⟩, new, unasked, ?_, [], ?_⟩
      · simp [asking, came.library]
      · simp [asking, came.library]

end

theorem loadImports (imports : List Import) : ∀ {seen : List Import} {attempts : List Attempt} {loading : Loading},
    Came start sources files seen attempts loading →
    (∃ more, Came start sources files (seen ++ imports) (attempts ++ more)
      (Loading.loadImports sources files loading imports)) ∨
    ∃ done i rest more, imports = done ++ i :: rest ∧ Failed start sources files (seen ++ done) (attempts ++ more) i
      (Loading.loadImports sources files loading imports) := by
  induction imports with
  | nil => exact fun came => .inl ⟨[], by simpa [Loading.loadImports] using came⟩
  | cons i rest ih =>
    intro seen attempts loading came
    cases came.step i rest with
    | inl going =>
      obtain ⟨more, next, came', continues⟩ := going
      rw [continues]
      cases ih came' with
      | inl finished =>
        obtain ⟨others, finished⟩ := finished
        exact .inl ⟨more ++ others, by simpa using finished⟩
      | inr failed =>
        obtain ⟨done, j, later, others, split, failed⟩ := failed
        exact .inr ⟨i :: done, j, later, more ++ others, by rw [split, List.cons_append], by simpa using failed⟩
    | inr failed => exact .inr ⟨[], i, rest, [], rfl, by simpa using failed⟩

/-! ## Loading ends -/

theorem text_ne (came : Came start sources files seen attempts loading) :
    attempts.Pairwise fun a b => a.text ≠ b.text := by
  have names : (attempts.map (·.module.name)).Nodup := by
    have all := came.sound.names
    rw [came.library] at all
    have own : ((start.modules ++ attempts.map fun a => (a.module.name, a.module.id)).map (·.1)).Nodup := all
    rw [List.map_append, List.map_map] at own
    exact own.of_append_right
  rw [List.Nodup, List.pairwise_map] at names
  refine names.imp_of_mem fun {a b} isA isB different same => different ?_
  -- A text that is read twice gives modules of one name.
  have read := came.read a isA
  rw [same] at read
  exact (came.read b isB).name_eq read

theorem length_le (came : Came start sources files seen attempts loading) (nodup : start.attempted.Nodup) :
    attempts.length ≤ (sources.map (·.capacity files)).foldl (· + ·) 0 := by
  let supply : Attempt → Nat × String := fun a =>
    (a.source, (sources[a.source]?.map (·.key a.topic a.text)).getD "")
  have topics : attempts.Pairwise fun a b => a.topic.name ≠ b.topic.name := by
    have distinct := (came.loads.asked_nodup nodup).of_append_right
    rwa [List.Nodup, List.pairwise_map] at distinct
  have distinct : (attempts.map supply).Nodup := by
    rw [List.Nodup, List.pairwise_map]
    refine (topics.and came.text_ne).imp_of_mem fun {a b} isA _ different same => ?_
    obtain ⟨source, isSource, -⟩ := Option.map_eq_some_iff.1 (came.answered a isA).here
    have sameSource : b.source = a.source := (congrArg Prod.fst same).symm
    have sameKey := congrArg Prod.snd same
    simp only [supply, sameSource, isSource, Option.map_some, Option.getD_some] at sameKey
    cases source with
    | search directories => exact different.2 sameKey
    | catalogue answers => exact different.1 sameKey
    | rule names answer listed => exact different.1 sameKey
  have listed : attempts.map supply ⊆ suppliesOf sources files := by
    intro pair member
    obtain ⟨a, isAttempt, rfl⟩ := List.mem_map.1 member
    obtain ⟨source, isSource, answered⟩ := Option.map_eq_some_iff.1 (came.answered a isAttempt).here
    refine List.mem_flatMap.2 ⟨(source, a.source), List.mk_mem_zipIdx_iff_getElem?.2 isSource, ?_⟩
    simp only [supply, isSource, Option.map_some, Option.getD_some]
    exact List.mem_map_of_mem (Source.key_mem answered)
  calc attempts.length
    _ = (attempts.map supply).length := (List.length_map supply).symm
    _ ≤ (suppliesOf sources files).length := distinct.length_le_of_subset listed
    _ ≤ _ := length_suppliesOf_le sources files

end Came

/-- The loop over the modules, from a position on, ends in some state. -/
inductive Ends (sources : List Source) (files : FileTree) : Nat → Loading → Loading → Prop
  | failed {position : Nat} {loading : Loading} {e : SchemaError} (failed : loading.error = some e) :
      Ends sources files position loading loading
  | finished {position : Nat} {loading : Loading} (going : loading.error = none)
      (finished : loading.library.modules.length ≤ position) : Ends sources files position loading loading
  | visit {position : Nat} {loading final : Loading} {m : String × Nat} (going : loading.error = none)
      (next : loading.library.modules[position]? = some m)
      (others : Ends sources files (position + 1)
        (loadImports sources files loading (loading.library.importsOf m)) final) :
      Ends sources files position loading final

/-- Loading has gone through all imports of all modules, module by module, or has failed at one of them. -/
inductive BreadthFirst (start : Library) (sources : List Source) (files : FileTree) (attempts : List Attempt)
    (final : Loading) : Prop
  | done (came : Came start sources files (final.library.modules.flatMap final.library.importsOf) attempts final)
  | failed (seen : List Import) (i : Import) (rest : List Import)
      (order : final.library.modules.flatMap final.library.importsOf = seen ++ i :: rest)
      (failed : Failed start sources files seen attempts i final)

end Loading

theorem Library.importsOf_append {library library' : Library} (sound : library.Sound) {more : List Statement}
    (grown : library'.forest = library.forest ++ more) {m : String × Nat} (known : m ∈ library.modules) :
    library'.importsOf m = library.importsOf m := by
  obtain ⟨s, inForest, number, -⟩ := sound.modules m known
  have found : library.forest.find? (·.id == m.2) = some s := number ▸ sound.numbered.find?_eq inForest
  simp only [Library.importsOf, Library.moduleStatement?, grown, List.find?_append, found, Option.some_or]

namespace Loading

variable {start : Library} {sources : List Source} {files : FileTree} {seen : List Import} {attempts : List Attempt}
  {loading : Loading}

/-- The imports of the first modules are the same after more has been loaded. -/
theorem Came.flatMap_take (came : Came start sources files seen attempts loading) {library : Library}
    {more : List Statement} {others : List (String × Nat)} (forest : library.forest = loading.library.forest ++ more)
    (modules : library.modules = loading.library.modules ++ others) {count : Nat}
    (inside : count ≤ loading.library.modules.length) :
    (library.modules.take count).flatMap library.importsOf =
      (loading.library.modules.take count).flatMap loading.library.importsOf := by
  rw [modules, List.take_append_of_le_length inside]
  exact List.flatMap_congr fun m member =>
    Library.importsOf_append came.sound forest (List.mem_of_mem_take member)

theorem Fails.error {i : Import} {before after : Loading} (fails : Fails sources files i before after) :
    ∃ e, after.error = some e := by
  cases fails with
  | unanswered _ error _ => exact ⟨_, error⟩
  | refused _ _ _ e _ error _ => exact ⟨e, error⟩

/-- A visit to a module goes through all its imports, or ends at one of them. -/
theorem Came.visit {position : Nat} {m : String × Nat} (next : loading.library.modules[position]? = some m)
    (came : Came start sources files ((loading.library.modules.take position).flatMap loading.library.importsOf)
      attempts loading) :
    let after := Loading.loadImports sources files loading (loading.library.importsOf m)
    (∃ more, Came start sources files ((after.library.modules.take (position + 1)).flatMap after.library.importsOf)
        (attempts ++ more) after ∧ position + 1 ≤ after.library.modules.length) ∨
      ∃ more e, BreadthFirst start sources files (attempts ++ more) after ∧ after.error = some e := by
  obtain ⟨inBounds, -⟩ := List.getElem?_eq_some_iff.1 next
  have seenNext : (loading.library.modules.take (position + 1)).flatMap loading.library.importsOf =
      (loading.library.modules.take position).flatMap loading.library.importsOf ++ loading.library.importsOf m := by
    rw [List.take_add_one, next, List.flatMap_append]
    simp
  intro after
  cases came.loadImports (loading.library.importsOf m) with
  | inl going =>
    obtain ⟨more, going⟩ := going
    have modules : after.library.modules = loading.library.modules ++ more.map fun a => (a.module.name, a.module.id) := by
      rw [going.library, came.library]
      simp
    have forest : after.library.forest = loading.library.forest ++ more.map (·.module) := by
      rw [going.library, came.library]
      simp
    refine .inl ⟨more, ?_, ?_⟩
    · rwa [came.flatMap_take forest modules inBounds, seenNext]
    · rw [modules, List.length_append]
      omega
  | inr failed =>
    obtain ⟨done, i, rest, more, split, failed⟩ := failed
    obtain ⟨earlier, -, fails⟩ := failed.before
    obtain ⟨e, error⟩ := fails.error
    have modules : after.library.modules = loading.library.modules ++ more.map fun a => (a.module.name, a.module.id) := by
      rw [failed.modules, came.library]
      simp
    obtain ⟨leftover, forest⟩ := failed.forest
    have forest : after.library.forest = loading.library.forest ++ (more.map (·.module) ++ leftover) := by
      rw [forest, came.library]
      simp
    -- What has not come up yet: the rest of this module, and the modules after it.
    let unseen := rest ++ (after.library.modules.drop (position + 1)).flatMap after.library.importsOf
    refine .inr ⟨more, e, .failed _ i unseen ?_ failed, error⟩
    calc after.library.modules.flatMap after.library.importsOf
      _ = (after.library.modules.take (position + 1)).flatMap after.library.importsOf ++
          (after.library.modules.drop (position + 1)).flatMap after.library.importsOf := by
        rw [← List.flatMap_append, List.take_append_drop]
      _ = _ := by
        rw [came.flatMap_take forest modules inBounds, seenNext, split]
        simp [unseen]

theorem Came.loadFrom (nodup : start.attempted.Nodup) (bound : Nat) :
    ∀ {position : Nat} {attempts : List Attempt} {loading : Loading},
    Came start sources files ((loading.library.modules.take position).flatMap loading.library.importsOf)
      attempts loading →
    position ≤ loading.library.modules.length →
    start.modules.length + (sources.map (·.capacity files)).foldl (· + ·) 0 + 1 ≤ position + bound →
    Ends sources files position loading (Loading.loadFrom sources files bound position loading) ∧
      ∃ attempts', BreadthFirst start sources files attempts'
        (Loading.loadFrom sources files bound position loading) := by
  induction bound with
  | zero =>
    intro position attempts loading came inside enough
    have few := came.length_le nodup
    rw [came.library, List.length_append, List.length_map] at inside
    omega
  | succ bound ih =>
    intro position attempts loading came inside enough
    cases next : loading.library.modules[position]? with
    | none =>
      have finished := List.getElem?_eq_none_iff.1 next
      rw [Loading.loadFrom, came.going]
      simp only [next]
      refine ⟨.finished came.going finished, attempts, .done ?_⟩
      rwa [List.take_of_length_le finished] at came
    | some m =>
      have visits : Loading.loadFrom sources files (bound + 1) position loading = Loading.loadFrom sources files bound
          (position + 1) (Loading.loadImports sources files loading (loading.library.importsOf m)) := by
        rw [Loading.loadFrom, came.going]
        simp only [next]
        rfl
      rw [visits]
      cases came.visit next with
      | inl going =>
        obtain ⟨more, came', later⟩ := going
        obtain ⟨ends, outcome⟩ := ih came' later (by omega)
        exact ⟨.visit came.going next ends, outcome⟩
      | inr failed =>
        obtain ⟨more, e, outcome, error⟩ := failed
        rw [loadFrom_failed error]
        exact ⟨.visit came.going next (.failed error), _, outcome⟩

/-! ## The outcome -/

theorem questions_nodup {topics : List (Import × Nat)} (names : (topics.map (·.1.name)).Nodup) :
    ((topics.flatMap fun t => questionsTo t.2 t.1).map fun q => (q.source, q.topic.name)).Nodup := by
  rw [List.map_flatMap, List.nodup_flatMap]
  constructor
  · intro t _
    rw [questionsTo, List.map_map]
    exact List.nodup_range.map fun k k' same => congrArg Prod.fst same
  · rw [List.Nodup, List.pairwise_map] at names
    refine names.imp fun {t t'} different pair inT inT' => different ?_
    simp only [questionsTo, List.map_map, List.mem_map, List.mem_range, Function.comp_apply] at inT inT'
    obtain ⟨k, -, rfl⟩ := inT
    obtain ⟨k', -, same⟩ := inT'
    exact (congrArg Prod.snd same).symm

theorem Came.questions_eq (came : Came start sources files seen attempts loading) :
    loading.questions = (attempts.map fun a => (a.topic, a.source + 1)).flatMap fun t => questionsTo t.2 t.1 := by
  rw [came.questions, List.flatMap_map]

theorem BreadthFirst.questions_nodup (outcome : BreadthFirst start sources files attempts loading)
    (nodup : start.attempted.Nodup) : (loading.questions.map fun q => (q.source, q.topic.name)).Nodup := by
  cases outcome with
  | done came =>
    rw [came.questions_eq]
    apply Loading.questions_nodup
    rw [List.map_map]
    exact (came.loads.asked_nodup nodup).of_append_right
  | failed seen i rest order failed =>
    obtain ⟨earlier, came, fails⟩ := failed.before
    have names : (((attempts.map fun a => (a.topic, a.source + 1)).map (·.1.name)) ++ [i.name]).Nodup := by
      have asked := (came.loads.asked_nodup nodup).concat failed.unasked
      rw [List.concat_eq_append, List.append_assoc] at asked
      rw [List.map_map]
      exact asked.of_append_right
    -- One more topic, however many sources were asked about it.
    have oneMore : ∀ count, loading.questions = earlier.questions ++ questionsTo count i →
        (loading.questions.map fun q => (q.source, q.topic.name)).Nodup := by
      intro count questions
      have names : (((attempts.map fun a : Attempt => (a.topic, a.source + 1)) ++ [(i, count)]).map (·.1.name)).Nodup := by
        simpa using names
      rw [questions, came.questions_eq]
      simpa using Loading.questions_nodup names
    cases fails with
    | unanswered _ _ questions => exact oneMore _ questions
    | refused k _ _ _ _ _ questions => exact oneMore _ questions

/-- An import of a loaded module is loaded, or a source has answered it with a module of another name. -/
theorem Came.closed (came : Came start sources files (loading.library.modules.flatMap loading.library.importsOf)
      attempts loading) (asked : start.attempted = []) :
    ∀ m ∈ loading.library.modules, ∀ i ∈ loading.library.importsOf m, loading.library.contains i.name = true ∨
      ∃ a ∈ attempts, a.topic.name = i.name ∧ a.module.name ≠ i.name := by
  have names : loading.library.modules.map (·.1) = start.modules.map (·.1) ++ attempts.map (·.module.name) := by
    rw [came.library]
    simp
  intro m isModule i isImport
  rw [Library.contains_iff, names]
  cases came.loads.settled (List.mem_flatMap.2 ⟨m, isModule, isImport⟩) with
  | inl loaded => exact .inl loaded
  | inr isAsked =>
    rw [asked, List.nil_append] at isAsked
    obtain ⟨a, isAttempt, sameName⟩ := List.mem_map.1 isAsked
    by_cases answered : a.module.name = i.name
    · exact .inl (List.mem_append_right _ (answered ▸ List.mem_map_of_mem isAttempt))
    · exact .inr ⟨a, isAttempt, sameName, answered⟩

theorem BreadthFirst.new_of_split (outcome : BreadthFirst start sources files attempts loading)
    {before after : List Attempt} {a : Attempt} (split : attempts = before ++ a :: after) :
    a.topic.name ∉ start.modules.map (·.1) ++ before.map (·.module.name) := by
  cases outcome with
  | done came => exact came.loads.new_of_split split
  | failed seen i rest order failed =>
    obtain ⟨earlier, came, -⟩ := failed.before
    exact came.loads.new_of_split split

end Loading

theorem Library.add_attempted (library : Library) (text : String) :
    (library.add text).library.attempted = library.attempted := by
  cases added : (library.add text).result with
  | ok id =>
    obtain ⟨s, -, -, -, after⟩ := Library.add_ok added
    rw [after]
  | error e =>
    obtain ⟨more, after⟩ := Library.add_error added
    rw [after]

theorem Library.ofTexts_attempted (texts : List String) : (Library.ofTexts texts).attempted = [] := by
  suffices steps : ∀ library : Library,
      (texts.foldl (fun library text => (library.add text).library) library).attempted = library.attempted from
    steps Library.empty
  induction texts with
  | nil => exact fun _ => rfl
  | cons text rest ih => exact fun library => (ih _).trans (library.add_attempted text)

/-- Loading imports ends; no source is asked twice about a name, nor about one that is loaded.  The modules are those
    that were added, then those loaded for the import statements in breadth-first order; every import of a module is
    settled in the end, and a failing import is blamed on the last source that failed. -/
theorem loadAll_breadthFirst (texts : List String) (sources : List Source) (files : FileTree) :
    let start := Library.ofTexts texts
    let final := start.loadAll sources files
    Loading.Ends sources files 0 ⟨start, [], [], none⟩ final ∧
      (final.questions.map fun q => (q.source, q.topic.name)).Nodup ∧
      ∃ attempts, Loading.BreadthFirst start sources files attempts final ∧
        (∀ before a after, attempts = before ++ a :: after →
          a.topic.name ∉ start.modules.map (·.1) ++ before.map (·.module.name)) ∧
        (final.error = none → ∀ m ∈ final.library.modules, ∀ i ∈ final.library.importsOf m,
          final.library.contains i.name = true ∨ ∃ a ∈ attempts, a.topic.name = i.name ∧ a.module.name ≠ i.name) := by
  intro start final
  have asked : start.attempted = [] := Library.ofTexts_attempted texts
  have nodup : start.attempted.Nodup := by simp [asked]
  have came : Loading.Came start sources files ((start.modules.take 0).flatMap start.importsOf) []
      ⟨start, [], [], none⟩ := by
    refine ⟨Library.sound_ofTexts texts, rfl, ?_, rfl, by simp, by simp, .nil _ _⟩
    simp
  obtain ⟨ends, attempts, outcome⟩ := came.loadFrom nodup _ (Nat.zero_le _) (Nat.zero_add _).ge
  refine ⟨ends, outcome.questions_nodup nodup, attempts, outcome, fun before a after split => ?_, fun going => ?_⟩
  · exact outcome.new_of_split split
  · cases outcome with
    | done came => exact came.closed asked
    | failed seen i rest order failed =>
      obtain ⟨earlier, -, fails⟩ := failed.before
      obtain ⟨e, error⟩ := fails.error
      cases going.symm.trans error

def importingModule : String :=
  "<module name='a' xmlns='urn:ietf:params:xml:ns:yang:yin:1'><import module='b'/><import module='c'/></module>"

def importedModules : List Source :=
  [.catalogue [("b", .error .notFound)],
   .catalogue
    [("b", .ok ("<module name='b' xmlns='urn:ietf:params:xml:ns:yang:yin:1'>" ++
        "<import module='a'/><import module='c'/></module>")),
     ("c", .ok "<module name='x' xmlns='urn:ietf:params:xml:ns:yang:yin:1'><import module='c'/></module>")]]

/-- A cycle of imports, and a module that comes under another name; without the second source the first import fails. -/
theorem loadAll_breadthFirst_importingModule :
    (let final := (Library.ofTexts [importingModule]).loadAll importedModules ⟨[]⟩
     final.error = none ∧ final.library.modules.map (·.1) = ["a", "b", "x"] ∧
     final.questions.map (fun q => (q.source, q.topic.name)) = [(0, "b"), (1, "b"), (0, "c"), (1, "c")] ∧
     ∃ attempts, Loading.BreadthFirst (Library.ofTexts [importingModule]) importedModules ⟨[]⟩ attempts final ∧
       ∀ m ∈ final.library.modules, ∀ i ∈ final.library.importsOf m,
         final.library.contains i.name = true ∨ ∃ a ∈ attempts, a.topic.name = i.name ∧ a.module.name ≠ i.name) ∧
    (let final := (Library.ofTexts [importingModule]).loadAll (importedModules.take 1) ⟨[]⟩
     final.error = some (.importFailed "b" .notFound) ∧
     Loading.Ends (importedModules.take 1) ⟨[]⟩ 0 ⟨Library.ofTexts [importingModule], [], [], none⟩ final) := by
  constructor
  · have evaluated : ((Library.ofTexts [importingModule]).loadAll importedModules ⟨[]⟩).error = none ∧
        ((Library.ofTexts [importingModule]).loadAll importedModules ⟨[]⟩).library.modules.map (·.1) = ["a", "b", "x"] ∧
        ((Library.ofTexts [importingModule]).loadAll importedModules ⟨[]⟩).questions.map
          (fun q => (q.source, q.topic.name)) = [(0, "b"), (1, "b"), (0, "c"), (1, "c")] := by
      decide +kernel
    obtain ⟨-, -, attempts, outcome, -, closed⟩ := loadAll_breadthFirst [importingModule] importedModules ⟨[]⟩
    exact ⟨evaluated.1, evaluated.2.1, evaluated.2.2, attempts, outcome, closed evaluated.1⟩
  · have failed : ((Library.ofTexts [importingModule]).loadAll (importedModules.take 1) ⟨[]⟩).error =
        some (.importFailed "b" .notFound) := by
      decide +kernel
    exact ⟨failed, (loadAll_breadthFirst [importingModule] (importedModules.take 1) ⟨[]⟩).1⟩

end YangStubs.Schema
