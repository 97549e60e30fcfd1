import YangStubs.Tool.Run
import YangStubs.Proofs.Backend.Registry
import YangStubs.Proofs.Emit.FileNames
import YangStubs.Proofs.Schema.Reloading
import YangStubs.Proofs.Tool.FileTree

/-! # What a run leaves in files

A run with an output directory writes one output after the other.  Main statement: it leaves a file with the
text of each loaded module exactly if the outputs have places of their own, which they have in the tree format,
but in the stub format only if no two modules have names that differ in their separators alone.
-/

namespace YangStubs.Tool

open YangStubs.Backend (eq_ok_of_toOption)
open YangStubs.Emit (Format Resembles)
open YangStubs.FileTree
open YangStubs.Model (Module)
open YangStubs.Schema

variable {tree tree' : FileTree} {directory : String} {outputs : List Output}

/-! ## One output -/

/-- A text was written to a path, and directories were made for it at most. -/
structure Wrote (path text : String) (tree tree' : FileTree) : Prop where
  reads : tree'.read path = .ok text
  keeps : KeepsDirectories tree tree'
  elsewhere : ∀ p, p ≠ destination path → FurnishedAt tree tree' p

theorem wrote_of_writeInto {name text : String} (written : writeInto directory name text tree = .ok tree') :
    Wrote (join directory name) text tree tree' := by
  cases made : tree.makeDirectory directory with
  | error e =>
    simp only [writeInto, made, bind, Except.bind] at written
    cases written
  | ok middle =>
    simp only [writeInto, made, bind, Except.bind] at written
    obtain ⟨found, vacant, rfl⟩ := write_ok written
    obtain ⟨furnishes, -⟩ := makeDirectory_ok made
    have keeps := keepsDirectories_put vacant (.text text)
    refine ⟨?_, ?_, ?_⟩
    · exact read_ok_iff.2 ⟨place_mono keeps found, entry?_put_self vacant _⟩
    · exact fun p isDirectory => keeps p ((furnishes p).keeps isDirectory)
    · intro p different
      rw [FurnishedAt, entry?_put_of_ne different]
      exact furnishes p

/-- A text stays in its file as long as nothing is written to the same place. -/
theorem Wrote.read_of_ne {path path' text content : String} (wrote : Wrote path text tree tree')
    (different : destination path' ≠ destination path) (read : tree.read path' = .ok content) :
    tree'.read path' = .ok content := by
  obtain ⟨found, holds⟩ := read_ok_iff.1 read
  exact read_ok_iff.2 ⟨place_mono wrote.keeps found, (wrote.elsewhere _ different).keeps holds⟩

/-! ## All outputs -/

/-- The place of an output. -/
def target (directory : String) (output : Output) : List String :=
  destination (join directory output.fileName)

section

variable {output : Output} {rest : List Output} {result : Result} {text : String}

theorem writeOutputs_unworded {identifier : Emit.Identifier} (unworded : output.text = .error identifier) :
    (writeOutputs (some directory) (output :: rest) result).error = some (.reserved identifier) := by
  simp only [writeOutputs, unworded]

theorem writeOutputs_refused {cause : FileError} (worded : output.text = .ok text)
    (refused : writeInto directory output.fileName text result.files = .error cause) :
    (writeOutputs (some directory) (output :: rest) result).error =
      some (.write (join directory output.fileName) cause) := by
  simp only [writeOutputs, worded, refused]

theorem writeOutputs_written {files : FileTree} (worded : output.text = .ok text)
    (written : writeInto directory output.fileName text result.files = .ok files) :
    writeOutputs (some directory) (output :: rest) result = writeOutputs (some directory) rest
      { result with files, log := result.log ++ output.log ++ [wrote (join directory output.fileName)] } := by
  simp only [writeOutputs, worded, written]

end

/-- Outputs were written one after the other. -/
inductive Delivered (directory : String) : List Output → FileTree → FileTree → Prop where
  | done {tree : FileTree} : Delivered directory [] tree tree
  | next {output : Output} {rest : List Output} {text : String} {tree middle tree' : FileTree}
      (worded : output.text = .ok text) (wrote : Wrote (join directory output.fileName) text tree middle)
      (later : Delivered directory rest middle tree') : Delivered directory (output :: rest) tree tree'

theorem delivered_of_writeOutputs {result : Result}
    (ended : (writeOutputs (some directory) outputs result).error = none) :
    Delivered directory outputs result.files (writeOutputs (some directory) outputs result).files := by
  induction outputs generalizing result with
  | nil => exact .done
  | cons output rest ih =>
    cases worded : output.text with
    | error identifier =>
      rw [writeOutputs_unworded worded] at ended
      cases ended
    | ok text =>
      cases written : writeInto directory output.fileName text result.files with
      | error cause =>
        rw [writeOutputs_refused worded written] at ended
        cases ended
      | ok middle =>
        rw [writeOutputs_written worded written] at ended ⊢
        exact .next worded (wrote_of_writeInto written) (ih ended)

namespace Delivered

section

variable (delivered : Delivered directory outputs tree tree')
include delivered

theorem elsewhere {p : List String} (other : p ∉ outputs.map (target directory)) : FurnishedAt tree tree' p := by
  induction delivered with
  | done => exact .inl rfl
  | next worded wrote later ih =>
    rw [List.map_cons, List.mem_cons, not_or] at other
    exact (wrote.elsewhere p other.1).trans (ih other.2)

theorem read_of_notMem {path content : String} (other : destination path ∉ outputs.map (target directory))
    (read : tree.read path = .ok content) : tree'.read path = .ok content := by
  induction delivered with
  | done => exact read
  | next worded wrote later ih =>
    rw [List.map_cons, List.mem_cons, not_or] at other
    exact ih other.2 (wrote.read_of_ne other.1 read)

/-- The last output for a place is what stands there in the end. -/
theorem read_last {front back : List Output} {output : Output} (cut : outputs = front ++ output :: back)
    (isLast : target directory output ∉ back.map (target directory)) :
    ∃ text, output.text = .ok text ∧ tree'.read (join directory output.fileName) = .ok text := by
  induction delivered generalizing front with
  | done => simp at cut
  | next worded wrote later ih =>
    cases front with
    | nil =>
      -- None of the outputs that follow goes to the same place.
      cases cut
      exact ⟨_, worded, later.read_of_notMem isLast wrote.reads⟩
    | cons first front =>
      cases cut
      exact ih rfl

end

end Delivered

/-- Each output has a file of its own, which holds its text; there is nothing else new but directories. -/
structure OneFileEach (directory : String) (outputs : List Output) (before after : FileTree) : Prop where
  apart : (outputs.map (target directory)).Nodup
  holds : ∀ output ∈ outputs, ∃ text, output.text = .ok text ∧ after.read (join directory output.fileName) = .ok text
  others : ∀ p, p ∉ outputs.map (target directory) → FurnishedAt before after p

theorem Delivered.oneFileEach (delivered : Delivered directory outputs tree tree')
    (apart : (outputs.map (target directory)).Nodup) : OneFileEach directory outputs tree tree' := by
  refine ⟨apart, fun output member => ?_, fun p other => delivered.elsewhere other⟩
  obtain ⟨front, back, rfl⟩ := List.append_of_mem member
  rw [List.map_append, List.map_cons, List.nodup_append] at apart
  exact delivered.read_last rfl (List.nodup_cons.1 apart.2.1).1

/-! ## When all outputs can be written -/

/-- The directory can be made, and each output has a text and a file name that is free in it. -/
structure CanWrite (directory : String) (outputs : List Output) (files : FileTree) : Prop where
  worded : ∀ output ∈ outputs, ∃ text, output.text = .ok text
  named : ∀ output ∈ outputs, IsFileName output.fileName ∧ output.fileName.utf8ByteSize ≤ 255 ∧
    output.fileName.toList.any (·.toNat == 0) = false
  made : ∃ tree, files.makeDirectory directory = .ok tree ∧
    ∀ output ∈ outputs, tree.entry? (target directory output) ≠ some .directory

/-- A tree in which the directory is there, with room for the outputs. -/
structure Ready (directory : String) (outputs : List Output) (tree : FileTree) : Prop where
  proper : directory.toList.any (·.toNat == 0) = false
  leads : Leads tree (startOf directory) (pathNames directory) (destination directory)
  ends : tree.entry? (destination directory) = some .directory
  vacant : ∀ output ∈ outputs, tree.entry? (target directory output) ≠ some .directory

theorem Ready.put (ready : Ready directory outputs tree) {output : Output} (member : output ∈ outputs)
    (text : String) : Ready directory outputs (tree.put (target directory output) (.text text)) := by
  have vacant := ready.vacant output member
  have keeps := keepsDirectories_put vacant (.text text)
  refine ⟨ready.proper, ready.leads.mono keeps, keeps _ ready.ends, fun other isOther => ?_⟩
  by_cases same : target directory other = target directory output
  · rw [same, entry?_put_self vacant]
    simp
  · rw [entry?_put_of_ne same]
    exact ready.vacant other isOther

namespace CanWrite

variable {files : FileTree}

theorem writeInto_eq (can : CanWrite directory outputs files) (ready : Ready directory outputs tree)
    {output : Output} (member : output ∈ outputs) : ∃ text, output.text = .ok text ∧
      writeInto directory output.fileName text tree = .ok (tree.put (target directory output) (.text text)) := by
  obtain ⟨text, worded⟩ := can.worded output member
  obtain ⟨named, short, properName⟩ := can.named output member
  refine ⟨text, worded, ?_⟩
  have vacant := ready.vacant output member
  have isTarget : target directory output = destination directory ++ [output.fileName] :=
    destination_join directory named
  rw [isTarget] at vacant ⊢
  have found := place_join ready.leads ready.ends named short ready.proper properName
  have above : tree.entry? (destination directory ++ [output.fileName]).dropLast = some .directory := by
    rw [List.dropLast_concat, ready.ends]
  -- The directory is there, so making it again changes nothing.
  simp only [writeInto, makeDirectory_eq ready.proper ready.leads ready.ends, bind, Except.bind]
  exact write_eq found vacant above

/-- From a tree that is ready, some of the outputs are written without an error. -/
theorem writeOutputs_ready (can : CanWrite directory outputs files) {part : List Output}
    (among : ∀ output ∈ part, output ∈ outputs) {result : Result}
    (ready : Ready directory outputs result.files) :
    (writeOutputs (some directory) part result).error = result.error := by
  induction part generalizing result with
  | nil => rfl
  | cons output rest ih =>
    have member := among output List.mem_cons_self
    obtain ⟨text, worded, written⟩ := can.writeInto_eq ready member
    rw [writeOutputs_written worded written]
    exact ih (fun other isOther => among other (List.mem_cons_of_mem _ isOther)) (ready.put member text)

theorem writeOutputs_error {result : Result} (can : CanWrite directory outputs result.files) :
    (writeOutputs (some directory) outputs result).error = result.error := by
  obtain ⟨tree, made, vacant⟩ := can.made
  have proper : directory.toList.any (·.toNat == 0) = false := by
    cases bad : directory.toList.any (·.toNat == 0) with
    | false => rfl
    | true =>
      rw [makeDirectory, if_pos bad] at made
      cases made
  obtain ⟨-, leads, stands⟩ := makeDirectory_ok made
  have ready : Ready directory outputs tree := ⟨proper, leads, stands.self, vacant⟩
  -- The first output has the directory made; from then on it is there.
  have early (name text : String) :
      writeInto directory name text result.files = writeInto directory name text tree := by
    simp only [writeInto, made, makeDirectory_eq proper leads stands.self, bind, Except.bind]
  cases outputs with
  | nil => rfl
  | cons output rest =>
    obtain ⟨text, worded, written⟩ := can.writeInto_eq ready List.mem_cons_self
    rw [writeOutputs_written worded ((early _ _).trans written)]
    exact can.writeOutputs_ready (fun other => List.mem_cons_of_mem output) (ready.put List.mem_cons_self text)

end CanWrite

/-! ## Names of files -/

/-- A format tells modules of these names apart: it is the tree format, or no two of them differ in nothing but
    their separators. -/
def TellsApart (format : Format) (names : List String) : Prop :=
  format = .tree ∨ names.Pairwise fun a b => ¬ Resembles a b

theorem fileName_nodup_iff (format : Format) {names : List String} (different : names.Nodup) :
    (names.map format.fileName).Nodup ↔ TellsApart format names := by
  rw [List.Nodup, List.pairwise_map, TellsApart]
  cases format with
  | tree => exact iff_of_true (different.imp fun ne same => ne (Emit.fileName_tree_eq_iff.1 same)) (.inl rfl)
  | rust => simp [Emit.fileName_rust_eq_iff]

theorem isFileName_fileName (format : Format) {name : String} (free : ∀ c ∈ name.toList, c ≠ '/') :
    IsFileName (format.fileName name) := by
  obtain ⟨start, ending, cut, freeStart, fixed⟩ : ∃ start ending,
      (format.fileName name).toList = start ++ ending ∧ (∀ c ∈ start, c ≠ '/') ∧
        (ending = ".txt".toList ∨ ending = ".rs".toList) := by
    cases format with
    | tree => exact ⟨name.toList, _, String.toList_append, free, .inl rfl⟩
    | rust =>
      refine ⟨Emit.underscored name.toList, _, ?_, ?_, .inr rfl⟩
      · rw [Emit.fileName_rust, String.toList_append, String.toList_ofList]
      · simp only [Emit.underscored, List.mem_map]
        rintro _ ⟨c, member, rfl⟩
        split
        · decide
        · exact free c member
  -- The ending makes the name too long for one that a path passes by.
  have long : 3 ≤ (format.fileName name).toList.length := by
    rw [cut, List.length_append]
    rcases fixed with rfl | rfl <;> simp
  have other (short : String) (few : short.toList.length < 3) : format.fileName name ≠ short := by
    intro same
    rw [same] at long
    omega
  refine ⟨fun c member => ?_, ?_, other ".." (by decide)⟩
  · rw [cut, List.mem_append] at member
    rcases member with inStart | inEnding
    · exact freeStart c inStart
    · rintro rfl
      rcases fixed with rfl | rfl <;> simp at inEnding
  · simp [isIdle, other "" (by decide), other "." (by decide)]

theorem targets_nodup_iff {names : List String} (named : ∀ name ∈ names, IsFileName name) :
    (names.map fun name => destination (join directory name)).Nodup ↔ names.Nodup := by
  have places : (names.map fun name => destination (join directory name)) =
      names.map fun name => destination directory ++ [name] :=
    List.map_congr_left fun name member => destination_join directory (named name member)
  rw [places, List.Nodup, List.pairwise_map]
  simp [List.Nodup]

/-! ## Runs -/

/-- A run with these options loads a schema and selects a backend. -/
structure Loads (options : Options) (files : FileTree) (config : Config) (backend : Backend)
    (schema : Resolved) : Prop where
  configured : loadConfig options files = .ok config
  writes : options.listBackends = false
  selects : ∃ registry log registry', Backend.Registry.builtin = .ok (registry, log) ∧
    registry.select (options.backend.getD options.format.defaultBackend) config.typePatterns = .ok (backend, registry')
  resolves : ∃ texts, (readInputs files options.inputs).1 = .ok texts ∧
    (resolveTexts texts [.search config.searchPaths] files).result = .ok schema

def loadedNames (schema : Resolved) : List String :=
  schema.modules.map (·.1)

/-- The loaded modules as they are to be written. -/
def outputsFor (options : Options) (backend : Backend) (schema : Resolved) : List Output :=
  outputsOf options.format backend (Module.buildAll schema backend (schema.modules.map (·.2))).1

namespace Loads

variable {options : Options} {files : FileTree} {config : Config} {backend : Backend} {schema : Resolved}

section

variable (loads : Loads options files config backend schema)
include loads

theorem sound : schema.Sound := by
  obtain ⟨texts, -, resolved⟩ := loads.resolves
  simp only [resolveTexts] at resolved
  split at resolved
  · cases resolved
  · exact (Library.sound_empty.addAll texts).schema_sound resolved

theorem run_eq : ∃ log, run options files =
    writeOutputs config.outputPath (outputsFor options backend schema) ⟨files, "", log, none⟩ := by
  obtain ⟨registry, log, registry', built, selected⟩ := loads.selects
  obtain ⟨texts, read, resolved⟩ := loads.resolves
  obtain ⟨readLog, read⟩ : ∃ readLog, readInputs files options.inputs = (.ok texts, readLog) :=
    ⟨_, Prod.ext read rfl⟩
  refine ⟨(plan options files).log, ?_⟩
  simp only [run, perform, plan, loads.configured, built, loads.writes, selected, planWriting, read, resolved]
  rfl

theorem fileNames :
    (outputsFor options backend schema).map (·.fileName) = (loadedNames schema).map options.format.fileName := by
  have models (trees : List SchemaNode) :
      (Module.buildAll schema backend trees).1.map (·.name) = trees.map (·.name) := by
    induction trees with
    | nil => rfl
    | cons tree rest ih => exact congrArg (tree.name :: ·) ih
  calc (outputsFor options backend schema).map (·.fileName)
    _ = ((Module.buildAll schema backend (schema.modules.map (·.2))).1.map (·.name)).map
          options.format.fileName := by simp [outputsFor, outputsOf, Function.comp_def]
    _ = (schema.modules.map fun m => m.2.name).map options.format.fileName := by
          simp [models, Function.comp_def]
    _ = (loadedNames schema).map options.format.fileName := by
          rw [loadedNames, List.map_congr_left fun m member => (loads.sound.modules m member).2.2]

end

end Loads

/-- A run leaves one file for each loaded module exactly if their outputs have different places, which they have
    if the format tells the modules apart; where two outputs meet, the last one stands in the file. -/
theorem run_oneFileEach_iff {options : Options} {files : FileTree} {config : Config} {backend : Backend}
    {schema : Resolved} (loads : Loads options files config backend schema)
    (directed : config.outputPath = some directory) :
    (loadedNames schema).Nodup ∧
    (outputsFor options backend schema).map (·.fileName) = (loadedNames schema).map options.format.fileName ∧
    (((loadedNames schema).map options.format.fileName).Nodup ↔ TellsApart options.format (loadedNames schema)) ∧
    (CanWrite directory (outputsFor options backend schema) files → (run options files).error = none) ∧
    ((run options files).error = none →
      (OneFileEach directory (outputsFor options backend schema) files (run options files).files ↔
        ((outputsFor options backend schema).map (target directory)).Nodup) ∧
      ((∀ name ∈ loadedNames schema, ∀ c ∈ name.toList, c ≠ '/') →
        (OneFileEach directory (outputsFor options backend schema) files (run options files).files ↔
          TellsApart options.format (loadedNames schema))) ∧
      ∀ front output back, outputsFor options backend schema = front ++ output :: back →
        target directory output ∉ back.map (target directory) →
        ∃ text, output.text = .ok text ∧
          (run options files).files.read (join directory output.fileName) = .ok text) := by
  obtain ⟨log, ran⟩ := loads.run_eq
  rw [directed] at ran
  have different : (loadedNames schema).Nodup := loads.sound.names
  have named := fileName_nodup_iff options.format different
  refine ⟨different, loads.fileNames, named, fun can => ?_, fun ended => ?_⟩
  · rw [ran]
    exact CanWrite.writeOutputs_error can
  · have delivered : Delivered directory (outputsFor options backend schema) files (run options files).files := by
      rw [ran] at ended ⊢
      exact delivered_of_writeOutputs ended
    have apart : OneFileEach directory (outputsFor options backend schema) files (run options files).files ↔
        ((outputsFor options backend schema).map (target directory)).Nodup :=
      ⟨fun oneEach => oneEach.apart, delivered.oneFileEach⟩
    refine ⟨apart, fun free => ?_, fun front output back cut isLast => delivered.read_last cut isLast⟩
    -- Without slashes, a file name is the last name of its place, and all else in the places is the same.
    have targets : (outputsFor options backend schema).map (target directory) =
        ((loadedNames schema).map options.format.fileName).map fun name => destination (join directory name) := by
      rw [← loads.fileNames, List.map_map]
      rfl
    have fileNames : ∀ name ∈ (loadedNames schema).map options.format.fileName, IsFileName name := by
      simp only [List.mem_map]
      rintro _ ⟨name, member, rfl⟩
      exact isFileName_fileName options.format (free name member)
    rw [apart, targets, targets_nodup_iff fileNames, named]

/-- Files with two modules whose names differ in a separator. -/
def similarModules : FileTree :=
  ⟨[(["a.yin"], .text ("<module name='a-b' xmlns='urn:ietf:params:xml:ns:yang:yin:1'>" ++
      "<container name='x'/></module>")),
    (["b.yin"], .text ("<module name='a.b' xmlns='urn:ietf:params:xml:ns:yang:yin:1'>" ++
      "<container name='y'/></module>"))]⟩

/-- A run that writes their stubs to a directory. -/
def stubOptions : Options :=
  { Options.initial with inputs := ["a.yin", "b.yin"], format := .rust, outputPath := some "out" }

/-- The run ends well, but there is one file for the two modules. -/
theorem run_oneFileEach_iff_similarNames :
    ∃ config backend schema, Loads stubOptions similarModules config backend schema ∧
      config.outputPath = some "out" ∧ loadedNames schema = ["a-b", "a.b"] ∧
      (run stubOptions similarModules).error = none ∧
      ¬ OneFileEach "out" (outputsFor stubOptions backend schema) similarModules
        (run stubOptions similarModules).files := by
  let config := Config.initial.merge stubOptions
  have evaluated : ((Backend.Registry.builtin.toOption.bind fun built =>
        (built.1.select Backend.rustName config.typePatterns).toOption).bind fun selected =>
      (readInputs similarModules stubOptions.inputs).1.toOption.bind fun texts =>
      (resolveTexts texts [.search config.searchPaths] similarModules).result.toOption.map loadedNames) =
    some ["a-b", "a.b"] := by
    decide +kernel
  obtain ⟨⟨backend, registry'⟩, found, rest⟩ := Option.bind_eq_some_iff.1 evaluated
  obtain ⟨⟨registry, log⟩, isBuilt, isSelected⟩ := Option.bind_eq_some_iff.1 found
  obtain ⟨texts, isRead, rest⟩ := Option.bind_eq_some_iff.1 rest
  obtain ⟨schema, isResolved, names⟩ := Option.map_eq_some_iff.1 rest
  have loads : Loads stubOptions similarModules config backend schema :=
    ⟨rfl, rfl, ⟨registry, log, registry', eq_ok_of_toOption isBuilt, eq_ok_of_toOption isSelected⟩,
      texts, eq_ok_of_toOption isRead, eq_ok_of_toOption isResolved⟩
  have ended : (run stubOptions similarModules).error = none := by decide +kernel
  have leaves := (run_oneFileEach_iff loads rfl).2.2.2.2 ended
  refine ⟨config, backend, schema, loads, rfl, names, ended, ?_⟩
  rw [leaves.2.1 (by simp [names]), names]
  simp [TellsApart, stubOptions, Resembles, Emit.isSeparator]

end YangStubs.Tool
