import YangStubs.Emit.Format
import YangStubs.Proofs.Backend.Builtin
import YangStubs.Proofs.Emit.Reading
import YangStubs.Proofs.Naming.Spelling
import YangStubs.Proofs.View.References

/-! # Identifiers of a stub file

The items of a view have names of their own.  A file gets more names than these: those of its imports, that
of the trait of its procedures, and the replacement for all names that are no identifiers.
-/

namespace YangStubs.Emit

open YangStubs.Backend (Registry rustName select_rust_naming)
open YangStubs.Model
open YangStubs.Naming
open YangStubs.Schema (Library run_bind)
open YangStubs.Text
open YangStubs.View

/-! ## Names in a file -/

/-- The last part of a path, without the mark of a raw identifier. -/
def lastSegment (path : String) : String :=
  String.ofList (dropRaw (path.toList.reverse.takeWhile (· != ':')).reverse)

/-- The name that an item has in its file. -/
def StubItem.name : StubItem → String
  | .use path => lastSegment path
  | .typeAlias _ name _ | .enum _ _ name _ | .union _ name _ | .struct _ name _ | .trait _ name _ =>
    name.name

/-- The names in a file. -/
def StubFile.names (file : StubFile) : List String :=
  file.items.map StubItem.name

/-- What an item of that name is called in a file. -/
def identifierName (name : String) : String :=
  ((identifierOf? name).map Identifier.name).getD "Unnamed"

/-- The name of the trait with the procedures of a view, if there are any. -/
def traitName? (naming : Scheme) (view : ModuleItems) : Option String :=
  if view.rpcs.isEmpty then none else some (naming.className view.name ++ "Rpcs")

/-- The names that a file declares. -/
def declaredNames (naming : Scheme) (view : ModuleItems) : List String :=
  view.names ++ (traitName? naming view).toList

theorem itemIdentifier_run (name : String) (log : Log) :
    ((itemIdentifier name).run log).1.name = identifierName name := by
  unfold itemIdentifier identifierOr identifierName
  cases identifierOf? name <;> rfl

theorem mapM_run {α β γ : Type} {work : α → Emitting β} (f : β → γ) {g : α → γ}
    (each : ∀ a log, f ((work a).run log).1 = g a) (items : List α) (log : Log) :
    ((items.mapM work).run log).1.map f = items.map g := by
  induction items generalizing log with
  | nil => rfl
  | cons a rest ih =>
    rw [List.mapM_cons, run_bind, run_bind]
    show f _ :: List.map f _ = _
    rw [each, ih, List.map_cons]

theorem structOf_run (name : String) (docs : List String) (members : List FieldItem) (log : Log) :
    ((structOf name docs members).run log).1.name = identifierName name := by
  rw [structOf, run_bind, run_bind]
  exact itemIdentifier_run name log

theorem classStub_run (c : ClassItem) (log : Log) : ((classStub c).run log).1.name = identifierName c.name :=
  structOf_run c.name _ c.fields log

theorem enumStub_run (e : EnumItem) (log : Log) : ((enumStub e).run log).1.name = identifierName e.name := by
  rw [enumStub, run_bind, run_bind]
  exact itemIdentifier_run e.name log

theorem unionStub_run (u : UnionItem) (log : Log) : ((unionStub u).run log).1.name = identifierName u.name := by
  rw [unionStub, run_bind, run_bind]
  exact itemIdentifier_run u.name log

theorem aliasStub_run (a : AliasItem) (log : Log) : ((aliasStub a).run log).1.name = identifierName a.name := by
  rw [aliasStub, run_bind, run_bind]
  exact itemIdentifier_run a.name log

theorem rpcStub_run (naming : Scheme) (rpc : RpcItem) (log : Log) :
    ((rpcStub naming rpc).run log).1.1.map StubItem.name = (Entry.messages rpc.name).map identifierName := by
  simp only [rpcStub, run_bind]
  show [StubItem.name _, StubItem.name _] = _
  rw [structOf_run, structOf_run]
  rfl

theorem rpcStubs_run (naming : Scheme) (view : ModuleItems) (log : Log) :
    ((rpcStubs naming view).run log).1.map StubItem.name =
      (view.rpcs.flatMap (Entry.messages ·.name) ++ (traitName? naming view).toList).map
        identifierName := by
  unfold rpcStubs traitName?
  cases none : view.rpcs.isEmpty with
  | true =>
    rw [List.isEmpty_iff.1 none]
    rfl
  | false =>
    simp only [Bool.false_eq_true, if_false, run_bind]
    show List.map StubItem.name (List.flatMap _ _ ++ [_]) = _
    have messages := mapM_run (fun stub : List StubItem × Method => stub.1.map StubItem.name)
      (rpcStub_run naming) view.rpcs log
    rw [List.map_append, List.map_flatMap, List.map_singleton, List.map_append, List.map_flatMap]
    refine congrArg₂ (· ++ ·) ?_ (congrArg ([·]) (itemIdentifier_run _ _))
    rw [List.flatMap_def, messages, List.flatMap_def]

theorem importStubs_run (texts : List String) (log : Log) :
    ((importStubs texts).run log).1.map StubItem.name = (texts.filterMap path?).map lastSegment := by
  induction texts generalizing log with
  | nil => rfl
  | cons text rest ih =>
    unfold importStubs
    cases isPath : path? text with
    | none =>
      rw [List.filterMap_cons_none isPath, run_bind]
      exact ih _
    | some path =>
      rw [List.filterMap_cons_some isPath, run_bind, List.map_cons, ← ih log]
      rfl

/-- The names in a file, up to their order. -/
theorem stubFile_names (naming : Scheme) (view : ModuleItems) (log : Log) :
    (((stubFile naming view).run log).1.names).Perm
      (((importsOf view).filterMap path?).map lastSegment ++ (declaredNames naming view).map identifierName) := by
  have aliases := mapM_run _ aliasStub_run view.aliases
  have enums := mapM_run _ enumStub_run view.enums
  have unions := mapM_run _ unionStub_run view.unions
  have classes := mapM_run _ classStub_run view.classes
  -- A file lists its aliases first and a view its classes, so the two agree up to order only.
  simp only [stubFile, run_bind]
  show (List.map StubItem.name (_ ++ _ ++ _ ++ _ ++ _ ++ _)).Perm _
  simp only [List.map_append, importStubs_run, aliases, enums, unions, classes, rpcStubs_run,
    declaredNames, ModuleItems.names, List.map_map, Function.comp_def]
  refine List.perm_iff_count.2 fun name => ?_
  simp only [List.count_append]
  omega

/-! ## Names that are put together for Rust -/

theorem dropStart?_eq (start cs : List Char) {rest : List Char}
    (dropped : dropStart? start cs = some rest) : cs = start ++ rest := by
  fun_induction dropStart? start cs with
  | case1 cs => exact Option.some.inj dropped
  | case2 => cases dropped
  | case3 s start c cs same ih =>
    rw [ih dropped, beq_iff_eq.1 same]
    rfl
  | case4 => cases dropped

theorem identifierName_of_none {name : String} (none : identifierOf? name = none) :
    identifierName name = "Unnamed" := by
  rw [identifierName, none]
  rfl

theorem identifierName_of_some {name : String} (spelled : Spelled name)
    (some : identifierOf? name ≠ none) : identifierName name = name := by
  unfold identifierName identifierOf? at *
  cases raw : dropStart? "r#".toList name.toList with
  | some rest => exact absurd (dropStart?_eq _ _ raw) (spelled.ne_raw _)
  | none =>
    simp only [raw] at some ⊢
    split
    · rfl
    · rename_i notPlain
      exact absurd (if_neg notPlain) some

/-- Two names become one identifier if both are none, or if one is none and the other is the replacement. -/
theorem identifierName_injOn_iff {names : List String} (spelled : ∀ name ∈ names, Spelled name) :
    (∀ a ∈ names, ∀ b ∈ names, identifierName a = identifierName b → a = b) ↔
      ∀ a ∈ names, ∀ b ∈ names, identifierOf? a = none → identifierOf? b = none ∨ b = "Unnamed" → a = b := by
  -- The replacement is an identifier itself, so it may be the name of an item that is not replaced.
  have replacement : identifierName "Unnamed" = "Unnamed" := by decide +kernel
  constructor
  · intro injective a isName b isName' noIdentifier meets
    apply injective a isName b isName'
    rw [identifierName_of_none noIdentifier]
    cases meets with
    | inl neither => rw [identifierName_of_none neither]
    | inr isReplacement => rw [isReplacement, replacement]
  · intro apart a isName b isName' same
    by_cases noIdentifier : identifierOf? a = none
    · apply apart a isName b isName' noIdentifier
      rw [identifierName_of_none noIdentifier] at same
      by_cases neither : identifierOf? b = none
      · exact .inl neither
      · exact .inr ((identifierName_of_some (spelled b isName') neither).symm.trans same.symm)
    · rw [identifierName_of_some (spelled a isName) noIdentifier] at same
      by_cases neither : identifierOf? b = none
      · have isReplacement := same.trans (identifierName_of_none neither)
        exact (apart b isName' a isName neither (.inr isReplacement)).symm
      · exact same.trans (identifierName_of_some (spelled b isName') neither)

/-- The names that a scheme gives to types have a property, also when they are put together. -/
structure GivesTypes (naming : Scheme) (P : String → Prop) : Prop where
  className : ∀ name, P (naming.className name)
  inlineName : ∀ owner, (∀ name ∈ owner, P name) → ∀ name, P (naming.inlineName owner name)
  append : ∀ a b, P a → P b → P (a ++ b)
  endings : ∀ ending ∈ ["Input", "Output", "Rpcs"], P ending

theorem rust_spelled : GivesTypes .rust Spelled where
  className := className_spelled
  inlineName := inlineName_spelled
  append _ _ := Spelled.append
  endings := by
    have checks : ∀ ending ∈ ["Input", "Output", "Rpcs"], ending.toList.all (!isFiller ·) = true ∧
        ending.toList.head?.all (!smallLetters.contains ·.toNat) = true := by decide +kernel
    exact fun ending member => .of_checks (checks ending member).1 (checks ending member).2

section TypeNames

variable {lens : Lens} {P : String → Prop} (gives : GivesTypes lens.naming P)

include gives

theorem itemName_given (node : Node) : P (lens.itemName node) := by
  have owner : ∀ name ∈ lens.ownerName? node, P name := by
    intro name isOwner
    unfold Lens.ownerName? at isOwner
    obtain ⟨parent, -, named⟩ := Option.bind_eq_some_iff.1 isOwner
    split at named
    · cases named
    · obtain ⟨rpc, -, same⟩ := Option.bind_eq_some_iff.1 named
      rw [← Option.some.inj same]
      exact gives.append _ _ (gives.className _) (gives.className _)
    · obtain ⟨rpc, -, same⟩ := Option.bind_eq_some_iff.1 named
      rw [← Option.some.inj same]
      exact gives.append _ _ (gives.className _) (gives.className _)
    · rw [← Option.some.inj named]
      exact gives.className _
  unfold Lens.itemName
  split
  · exact gives.inlineName _ owner _
  · exact gives.inlineName _ owner _
  · exact gives.className _

theorem names_given {node : Node} {e : View.Entry} (isEntry : lens.entry? node = some e) :
    ∀ name ∈ e.names, P name := by
  have own := itemName_given gives node
  intro name member
  rcases entry?_cases lens isEntry with rfl | rfl | ⟨enums, rfl⟩ | ⟨members, -, rfl⟩ | rfl
  · rw [List.mem_singleton.1 member]
    exact gives.className _
  · simp only [View.Entry.names, Entry.messages, List.mem_cons, List.not_mem_nil, or_false] at member
    rcases member with rfl | rfl
    · exact gives.append _ _ (gives.className _) (gives.endings _ (by simp))
    · exact gives.append _ _ (gives.className _) (gives.endings _ (by simp))
  all_goals
    rw [List.mem_singleton.1 member]
    exact own

end TypeNames

theorem itemName_spelled {lens : Lens} (isRust : lens.naming = .rust) (node : Node) : Spelled (lens.itemName node) :=
  itemName_given (isRust ▸ rust_spelled) node

/-! ## Imports -/

theorem isBlank_of_isFiller {c : Char} (clear : isFiller c = false) : isBlank c = false := by
  simp only [isFiller, inRuns, fillers, List.any_cons, Bool.or_eq_false_iff] at clear
  exact clear.2

theorem importPath_toList (home name : String) :
    (Scheme.rust.importPath home name).toList =
      ("super::".toList ++ (snake home).toList ++ "::".toList) ++ name.toList := by
  simp only [Scheme.rust, String.toList_append]

theorem importPath_dense (home : String) {name : String} (spelled : Spelled name) :
    ∀ c ∈ (Scheme.rust.importPath home name).toList, isBlank c = false := by
  have start : "super::".toList.all (!isBlank ·) = true := by decide +kernel
  have between : "::".toList.all (!isBlank ·) = true := by decide +kernel
  have ofHome : ∀ c ∈ (snake home).toList, isBlank c = false :=
    fun c member => isBlank_of_isFiller (snake_fillers home c member)
  have ofName : ∀ c ∈ name.toList, isBlank c = false :=
    fun c member => isBlank_of_isFiller (spelled.chars c member)
  simp only [importPath_toList, List.forall_mem_append]
  simp only [List.all_eq_true, Bool.not_eq_true'] at start between
  exact ⟨⟨⟨start, ofHome⟩, between⟩, ofName⟩

theorem lastSegment_importPath (home : String) {name : String} (spelled : Spelled name) :
    lastSegment (Scheme.rust.importPath home name) = name := by
  have noColon : ∀ c ∈ name.toList.reverse, (c != ':') = true := by
    intro c member
    rw [bne_iff_ne]
    rintro rfl
    exact absurd (spelled.chars ':' (List.mem_reverse.1 member)) (by decide +kernel)
  rw [lastSegment, importPath_toList, List.reverse_append, List.takeWhile_append_of_pos noColon]
  simp [dropRaw_eq spelled]

theorem importPath_inj {home home' name : String} :
    Scheme.rust.importPath home name = Scheme.rust.importPath home' name ↔ snake home = snake home' := by
  simp only [← String.toList_inj, importPath_toList, List.append_cancel_right_eq, List.append_cancel_left_eq]

/-- A node of another module to which an item of a view refers, and which the file therefore imports. -/
def ImportsNode (m : Module) (backend : Backend) (x : Node) : Prop :=
  let lens := Lens.ofModule m backend
  (∃ node ∈ shownNodes m, ∃ e, lens.entry? node = some e ∧
    e ∈ (ModuleItems.ofModule m backend).1.entries e.kind ∧ x ∈ lens.references node) ∧
  x.home ≠ m.name ∧ (path? (lens.naming.importPath x.home (lens.itemName x))).isSome

theorem mem_importsOf {view : ModuleItems} {path : String} :
    path ∈ importsOf view ↔ ∃ k, ∃ e ∈ view.entries k, path ∈ e.imports := by
  simp only [importsOf, mem_sortedSet, List.mem_append, List.mem_flatMap]
  constructor
  · rintro (((⟨item, isItem, imports⟩ | ⟨item, isItem, imports⟩) | ⟨item, isItem, imports⟩) |
      ⟨item, isItem, imports⟩)
    · exact ⟨.classes, .ofClass item, List.mem_map_of_mem isItem, imports⟩
    · exact ⟨.unions, .ofUnion item, List.mem_map_of_mem isItem, imports⟩
    · exact ⟨.aliases, .ofAlias item, List.mem_map_of_mem isItem, imports⟩
    · exact ⟨.rpcs, .ofRpc item, List.mem_map_of_mem isItem, imports⟩
  · rintro ⟨k, e, isEntry, imports⟩
    cases k with
    | classes =>
      obtain ⟨item, isItem, rfl⟩ := List.mem_map.1 isEntry
      exact .inl (.inl (.inl ⟨item, isItem, imports⟩))
    | enums =>
      obtain ⟨item, isItem, rfl⟩ := List.mem_map.1 isEntry
      cases imports
    | unions =>
      obtain ⟨item, isItem, rfl⟩ := List.mem_map.1 isEntry
      exact .inl (.inl (.inr ⟨item, isItem, imports⟩))
    | aliases =>
      obtain ⟨item, isItem, rfl⟩ := List.mem_map.1 isEntry
      exact .inl (.inr ⟨item, isItem, imports⟩)
    | rpcs =>
      obtain ⟨item, isItem, rfl⟩ := List.mem_map.1 isEntry
      exact .inr ⟨item, isItem, imports⟩

section Model

variable (m : Module) {backend : Backend}

theorem exists_node_of_mem_entries {k : ItemKind} {e : View.Entry}
    (isEntry : e ∈ (ModuleItems.ofModule m backend).1.entries k) :
    e.kind = k ∧ ∃ node ∈ shownNodes m, Lens.entry? (.ofModule m backend) node = some e := by
  have filled := draftOf_filled m backend (shownNodes m)
  obtain ⟨ofKind, prevails⟩ := (filled.kept e k).1 isEntry
  obtain ⟨before, node, after, split, isItem, -⟩ := prevails_entriesOf.1 prevails
  exact ⟨ofKind, node, by rw [split]; simp, isItem⟩

theorem declaredNames_given {P : String → Prop} (gives : GivesTypes backend.naming P) :
    ∀ name ∈ declaredNames backend.naming (ModuleItems.ofModule m backend).1, P name := by
  intro name member
  cases List.mem_append.1 member with
  | inl own =>
    obtain ⟨k, -, items⟩ := List.mem_flatMap.1 (ModuleItems.names_eq _ ▸ own)
    obtain ⟨e, isEntry, takes⟩ := List.mem_flatMap.1 items
    obtain ⟨-, node, -, isItem⟩ := exists_node_of_mem_entries m isEntry
    exact names_given gives isItem name takes
  | inr ofTrait =>
    rw [Option.mem_toList, traitName?] at ofTrait
    split at ofTrait
    · cases ofTrait
    · rw [← Option.some.inj ofTrait]
      exact gives.append _ _ (gives.className _) (gives.endings _ (by simp))

variable (isRust : backend.naming = .rust)

include isRust

/-- The paths that a file imports are those of the nodes that it imports. -/
theorem mem_paths {path : String} :
    path ∈ (importsOf (ModuleItems.ofModule m backend).1).filter (fun text => (path? text).isSome) ↔
      ∃ x, ImportsNode m backend x ∧ path = Scheme.rust.importPath x.home ((Lens.ofModule m backend).itemName x) := by
  have naming : (Lens.ofModule m backend).naming = .rust := isRust
  simp only [List.mem_filter, mem_importsOf, ImportsNode, naming]
  constructor
  · rintro ⟨⟨k, e, isEntry, imports⟩, isPath⟩
    obtain ⟨rfl, node, isShown, isItem⟩ := exists_node_of_mem_entries m isEntry
    obtain ⟨x, refers, foreign, rfl⟩ := (mem_imports _ isItem).1 imports
    rw [naming] at isPath ⊢
    exact ⟨x, ⟨⟨node, isShown, e, isItem, isEntry, refers⟩, foreign, isPath⟩, rfl⟩
  · rintro ⟨x, ⟨⟨node, isShown, e, isItem, isEntry, refers⟩, foreign, isPath⟩, rfl⟩
    refine ⟨⟨e.kind, e, isEntry, (mem_imports _ isItem).2 ⟨x, refers, foreign, ?_⟩⟩, isPath⟩
    rw [naming]

/-- Paths are written as they are. -/
theorem filterMap_path? :
    (importsOf (ModuleItems.ofModule m backend).1).filterMap path? =
      (importsOf (ModuleItems.ofModule m backend).1).filter fun text => (path? text).isSome := by
  rw [← List.filterMap_eq_filter]
  refine List.filterMap_congr fun text member => ?_
  cases isPath : path? text with
  | none => simp [Option.guard, isPath]
  | some path =>
    -- A text that is imported was put together from names, so there is no white space to lose.
    have isImport : text ∈ (importsOf (ModuleItems.ofModule m backend).1).filter
        fun text => (path? text).isSome := List.mem_filter.2 ⟨member, by simp [isPath]⟩
    obtain ⟨x, -, rfl⟩ := (mem_paths m isRust).1 isImport
    have spelled : Spelled ((Lens.ofModule m backend).itemName x) := itemName_spelled isRust x
    simp [Option.guard, isPath, path?_eq (importPath_dense x.home spelled) isPath]

/-- What the imports of a file are called. -/
theorem mem_importedNames {name : String} :
    name ∈ ((importsOf (ModuleItems.ofModule m backend).1).filterMap path?).map lastSegment ↔
      ∃ x, ImportsNode m backend x ∧ name = (Lens.ofModule m backend).itemName x := by
  have spelled : ∀ x, Spelled ((Lens.ofModule m backend).itemName x) := itemName_spelled isRust
  rw [filterMap_path? m isRust, List.mem_map]
  constructor
  · rintro ⟨path, isPath, rfl⟩
    obtain ⟨x, imports, rfl⟩ := (mem_paths m isRust).1 isPath
    exact ⟨x, imports, lastSegment_importPath x.home (spelled x)⟩
  · rintro ⟨x, imports, rfl⟩
    exact ⟨_, (mem_paths m isRust).2 ⟨x, imports, rfl⟩, lastSegment_importPath x.home (spelled x)⟩

theorem importedNames_nodup_iff :
    (((importsOf (ModuleItems.ofModule m backend).1).filterMap path?).map lastSegment).Nodup ↔
      ∀ x y, ImportsNode m backend x → ImportsNode m backend y →
        (Lens.ofModule m backend).itemName x = (Lens.ofModule m backend).itemName y → snake x.home = snake y.home := by
  have spelled : ∀ x, Spelled ((Lens.ofModule m backend).itemName x) := itemName_spelled isRust
  have once : ((importsOf (ModuleItems.ofModule m backend).1).filter
      fun text => (path? text).isSome).Nodup := (sortedSet_nodup _).filter _
  rw [filterMap_path? m isRust, List.nodup_map_iff_inj_on once]
  constructor
  · intro injective x y imports imports' same
    -- Two paths to one name are the same path, and then so is what stands before the name.
    have paths := injective _ ((mem_paths m isRust).2 ⟨x, imports, rfl⟩)
      _ ((mem_paths m isRust).2 ⟨y, imports', rfl⟩)
    rw [lastSegment_importPath x.home (spelled x), lastSegment_importPath y.home (spelled y), same] at paths
    exact importPath_inj.1 (paths rfl)
  · intro apart path isPath path' isPath' same
    obtain ⟨x, imports, rfl⟩ := (mem_paths m isRust).1 isPath
    obtain ⟨y, imports', rfl⟩ := (mem_paths m isRust).1 isPath'
    rw [lastSegment_importPath x.home (spelled x), lastSegment_importPath y.home (spelled y)] at same
    rw [same]
    exact importPath_inj.2 (apart x y imports imports' same)

omit isRust in
theorem declaredNames_nodup_iff (naming : Scheme) :
    (declaredNames naming (ModuleItems.ofModule m backend).1).Nodup ↔
      ∀ name ∈ traitName? naming (ModuleItems.ofModule m backend).1,
        name ∉ (ModuleItems.ofModule m backend).1.names := by
  have own : (ModuleItems.ofModule m backend).1.names.Nodup :=
    (draftOf_filled m backend (shownNodes m)).names_nodup
  unfold declaredNames
  cases traitName? naming (ModuleItems.ofModule m backend).1 with
  | none => simp [own]
  | some name => simp [List.nodup_append_comm, own]

end Model

/-! ## Distinct names -/

/-- The conditions under which the names in the file of a model are distinct. -/
structure Unambiguous (m : Module) (backend : Backend) : Prop where
  /-- No two declared names are replaced, and none is if another one is the replacement. -/
  replaced : ∀ a ∈ declaredNames backend.naming (ModuleItems.ofModule m backend).1,
    ∀ b ∈ declaredNames backend.naming (ModuleItems.ofModule m backend).1,
      identifierOf? a = none → identifierOf? b = none ∨ b = "Unnamed" → a = b
  /-- The trait of the procedures is not called like an item. -/
  ofTrait : ∀ name ∈ traitName? backend.naming (ModuleItems.ofModule m backend).1,
    name ∉ (ModuleItems.ofModule m backend).1.names
  /-- What is imported under one name is imported from one place. -/
  imported : ∀ x y, ImportsNode m backend x → ImportsNode m backend y →
    (Lens.ofModule m backend).itemName x = (Lens.ofModule m backend).itemName y → snake x.home = snake y.home
  /-- Nothing is imported under a name that is declared. -/
  apart : ∀ x, ImportsNode m backend x →
    ∀ name ∈ declaredNames backend.naming (ModuleItems.ofModule m backend).1,
      (Lens.ofModule m backend).itemName x ≠ identifierName name

/-- A generated file has distinct names exactly if nothing is brought in beside the items of the view that
    meets another name: by the replacement for what is no identifier, by the trait, or by imports. -/
theorem generate_names_nodup_iff (m : Module) (backend : Backend) (isRust : backend.naming = .rust) :
    let file := ((stubFile backend.naming (ModuleItems.ofModule m backend).1).run []).1
    (Format.rust.generate m backend).1 = file.text ∧ (file.names.Nodup ↔ Unambiguous m backend) := by
  intro file
  let lens := Lens.ofModule m backend
  let view := (ModuleItems.ofModule m backend).1
  let declared := declaredNames backend.naming view
  have spelled := declaredNames_given m (isRust ▸ rust_spelled)
  have imported : ∀ {name}, name ∈ ((importsOf view).filterMap path?).map lastSegment ↔
      ∃ x, ImportsNode m backend x ∧ name = lens.itemName x := mem_importedNames m isRust
  -- The declared names stay distinct as identifiers if they are distinct and no two of them are replaced.
  have ofDeclared : (declared.map identifierName).Nodup ↔
      (∀ a ∈ declared, ∀ b ∈ declared, identifierOf? a = none → identifierOf? b = none ∨ b = "Unnamed" → a = b) ∧
      ∀ name ∈ traitName? backend.naming view, name ∉ view.names := by
    rw [← declaredNames_nodup_iff, ← identifierName_injOn_iff spelled]
    constructor
    · intro distinct
      exact ⟨List.inj_on_of_nodup_map distinct, distinct.of_map⟩
    · rintro ⟨injective, distinct⟩
      exact (List.nodup_map_iff_inj_on distinct).2 injective
  have apart : (∀ a ∈ ((importsOf view).filterMap path?).map lastSegment,
        ∀ b ∈ declared.map identifierName, a ≠ b) ↔
      ∀ x, ImportsNode m backend x → ∀ name ∈ declared, lens.itemName x ≠ identifierName name := by
    constructor
    · intro differ x imports name isDeclared
      exact differ _ (imported.2 ⟨x, imports, rfl⟩) _ (List.mem_map_of_mem isDeclared)
    · intro differ a isImported b isDeclared
      obtain ⟨x, imports, rfl⟩ := imported.1 isImported
      obtain ⟨name, isName, rfl⟩ := List.mem_map.1 isDeclared
      exact differ x imports name isName
  refine ⟨rfl, ?_⟩
  rw [(stubFile_names backend.naming view []).nodup_iff, List.nodup_append, ofDeclared, apart,
    importedNames_nodup_iff m isRust]
  constructor
  · rintro ⟨ofImports, ⟨replaced, ofTrait⟩, differ⟩
    exact ⟨replaced, ofTrait, ofImports, differ⟩
  · rintro ⟨replaced, ofTrait, ofImports, differ⟩
    exact ⟨ofImports, ⟨replaced, ofTrait⟩, differ⟩

/-- A module with two containers whose names leave nothing but a digit. -/
def digitNames : String :=
  "<module name='m' xmlns='urn:ietf:params:xml:ns:yang:yin:1'><container name='_1'/>" ++
  "<container name='_2'/></module>"

/-- Both structs get the name `Unnamed`. -/
theorem generate_names_nodup_iff_digitNames :
    ∃ registry log backend registry' schema m, Registry.builtin = .ok (registry, log) ∧
      registry.select rustName [] = .ok (backend, registry') ∧
      ((Library.ofTexts [digitNames]).resolve [] ⟨[]⟩).result = .ok schema ∧ m ∈ schema.modules ∧
      (let model := (Module.build schema backend m.2).1
       ((stubFile backend.naming (ModuleItems.ofModule model backend).1).run []).1.names =
         ["Unnamed", "Unnamed"] ∧ ¬ Unambiguous model backend) := by
  obtain ⟨registry, log, backend, registry', schema, m, built, selected, resolved, isModule, named⟩ :=
    exists_selected rustName [digitNames] (fun backend schema m =>
      let model := (Module.build schema backend m.2).1
      ((stubFile backend.naming (ModuleItems.ofModule model backend).1).run []).1.names == ["Unnamed", "Unnamed"])
      (by decide +kernel)
  have names := eq_of_beq named
  have distinct_iff := (generate_names_nodup_iff (Module.build schema backend m.2).1 backend
    (select_rust_naming built selected)).2
  refine ⟨registry, log, backend, registry', schema, m, built, selected, resolved, isModule, names, ?_⟩
  rw [← distinct_iff, names]
  decide

end YangStubs.Emit
