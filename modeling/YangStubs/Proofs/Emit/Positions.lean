import YangStubs.Proofs.Emit.Identifiers
import YangStubs.Proofs.Naming.Reserved

/-! # Names in their positions

Every name that is to stand in a stub file becomes an identifier or is replaced.  Main statement: an identifier
is always spelled like one, but a reserved word stays one unless the naming scheme escapes it, and then nothing
is written.
-/

namespace YangStubs.Emit

open YangStubs.Backend (Registry defaultName rustName select_naming)
open YangStubs.Model
open YangStubs.Naming
open YangStubs.Schema (Library run_bind)
open YangStubs.Text
open YangStubs.View

/-! ## Names as identifiers -/

/-- An identifier is what follows the mark of a raw one, or all of a name without it. -/
theorem identifierOf?_cases {name : String} {i : Identifier} (found : identifierOf? name = some i) :
    isPlainIdentifier i.name.toList = true ∧ (i.isRaw = true ∧ name = "r#" ++ i.name ∨
      i.isRaw = false ∧ name = i.name ∧ dropStart? "r#".toList name.toList = none) := by
  unfold identifierOf? at found
  cases raw : dropStart? "r#".toList name.toList with
  | some rest =>
    simp only [raw, Option.ite_none_right_eq_some, Option.some.injEq] at found
    obtain ⟨plain, rfl⟩ := found
    refine ⟨by simpa using plain, .inl ⟨rfl, ?_⟩⟩
    simpa [← String.toList_inj] using dropStart?_eq _ _ raw
  | none =>
    simp only [raw, Option.ite_none_right_eq_some, Option.some.injEq] at found
    obtain ⟨plain, rfl⟩ := found
    exact ⟨plain, .inr ⟨rfl, rfl, rfl⟩⟩

/-- An identifier can be a name exactly if what it was made of is not forbidden. -/
theorem isUsable_iff {name : String} {i : Identifier} (found : identifierOf? name = some i) :
    i.isUsable = true ↔ isForbidden name = false := by
  have unmarked : ∀ word ∈ reservedWords, dropStart? "r#".toList word.toList = none := by decide +kernel
  rw [isForbidden_eq_false_iff, Identifier.isUsable]
  rcases (identifierOf?_cases found).2 with ⟨isRaw, marked⟩ | ⟨notRaw, same, noMark⟩
  · -- No reserved word has the mark, so a raw identifier can only be one of the words that stay reserved.
    have notReserved : name ∉ reservedWords := by
      intro reserved
      have none := unmarked name reserved
      rw [marked] at none
      simp [dropStart?] at none
    rw [isRaw, if_pos rfl, Bool.not_eq_true', Bool.eq_false_iff, ne_eq, List.contains_iff_mem]
    constructor
    · intro notPath
      refine ⟨notReserved, fun word isPath same => notPath ?_⟩
      obtain rfl : i.name = word := by simpa [marked, ← String.toList_inj] using same
      exact isPath
    · exact fun apart isPath => apart.2 _ isPath marked
  · have notMarked : ∀ word ∈ pathWords, name ≠ "r#" ++ word := by
      rintro word - rfl
      simp [dropStart?] at noMark
    simp only [notRaw, Bool.false_eq_true, if_false, Bool.not_eq_true', Bool.eq_false_iff, ne_eq,
      List.contains_iff_mem, ← same]
    exact ⟨fun free => ⟨free, notMarked⟩, fun both => both.1⟩

theorem identifierOf?_of_forbidden {name : String} (forbidden : isForbidden name = true) :
    ∃ i, identifierOf? name = some i := by
  have spelled : ∀ word ∈ forbiddenWords, (identifierOf? word).isSome = true := by decide +kernel
  exact Option.isSome_iff_exists.1 (spelled name (isForbidden_iff.1 forbidden))

/-- Whether an identifier stands for a name that is none. -/
def Identifier.IsReplacement (i : Identifier) : Prop :=
  i = ⟨"Unnamed", false⟩ ∨ ∃ index : Nat, i = ⟨"Variant" ++ toString index, false⟩

theorem Identifier.IsReplacement.plain {i : Identifier} (isReplacement : i.IsReplacement) :
    isPlainIdentifier i.name.toList = true ∧ i.isUsable = true := by
  rcases isReplacement with rfl | ⟨index, rfl⟩
  · decide +kernel
  · have isHead : ("Variant" ++ toString index).toList.head? = some 'V' := by simp
    have free := (IsTypeName.of_head isHead (by decide) (by decide)).notForbidden
    have letters : "ariant".toList.all isPlainChar = true := by decide
    have digits : (Nat.toDigits 10 index).all isPlainChar = true := by
      refine List.all_eq_true.2 fun c member => ?_
      simp [isPlainChar, Char.isAlphanum, Nat.isDigit_of_mem_toDigits (by decide) (by decide) member]
    have text : ("Variant" ++ toString index).toList = 'V' :: ("ariant".toList ++ Nat.toDigits 10 index) := by
      simp
    constructor
    · rw [text, isPlainIdentifier, List.all_append, letters, digits]
      rfl
    · simpa [Identifier.isUsable] using (isForbidden_eq_false_iff.1 free).1

/-! ## Identifiers that come from names -/

/-- Identifiers are those of names, and replacements for names that are none. -/
structure Covers (names : List String) (identifiers : List Identifier) : Prop where
  complete : ∀ name ∈ names, ∀ i, identifierOf? name = some i → i ∈ identifiers
  sound : ∀ i ∈ identifiers, i.IsReplacement ∨ ∃ name ∈ names, identifierOf? name = some i

namespace Covers

variable {names names' : List String} {identifiers identifiers' : List Identifier}

theorem nil : Covers [] [] where
  complete := by simp
  sound := by simp

theorem append (first : Covers names identifiers) (second : Covers names' identifiers') :
    Covers (names ++ names') (identifiers ++ identifiers') where
  complete name member i found := by
    rcases List.mem_append.1 member with isFirst | isSecond
    · exact List.mem_append_left _ (first.complete name isFirst i found)
    · exact List.mem_append_right _ (second.complete name isSecond i found)
  sound i member := by
    rcases List.mem_append.1 member with isFirst | isSecond
    · refine (first.sound i isFirst).imp_right ?_
      rintro ⟨name, isName, found⟩
      exact ⟨name, List.mem_append_left _ isName, found⟩
    · refine (second.sound i isSecond).imp_right ?_
      rintro ⟨name, isName, found⟩
      exact ⟨name, List.mem_append_right _ isName, found⟩

/-- Neither order counts nor how often something is listed. -/
theorem congr (covers : Covers names identifiers) (sameNames : ∀ name, name ∈ names ↔ name ∈ names')
    (sameIdentifiers : ∀ i, i ∈ identifiers ↔ i ∈ identifiers') : Covers names' identifiers' where
  complete name member i found :=
    (sameIdentifiers i).1 (covers.complete name ((sameNames name).2 member) i found)
  sound i member := by
    refine (covers.sound i ((sameIdentifiers i).2 member)).imp_right ?_
    rintro ⟨name, isName, found⟩
    exact ⟨name, (sameNames name).1 isName, found⟩

theorem plain (covers : Covers names identifiers) : ∀ i ∈ identifiers, isPlainIdentifier i.name.toList = true := by
  intro i member
  rcases covers.sound i member with isReplacement | ⟨name, -, found⟩
  · exact isReplacement.plain.1
  · exact (identifierOf?_cases found).1

/-- All identifiers can be names exactly if no name is forbidden. -/
theorem usable_iff (covers : Covers names identifiers) :
    (∀ i ∈ identifiers, i.isUsable = true) ↔ ∀ name ∈ names, isForbidden name = false := by
  constructor
  · intro usable name isName
    apply Bool.eq_false_iff.2
    intro forbidden
    obtain ⟨i, found⟩ := identifierOf?_of_forbidden forbidden
    have free := (isUsable_iff found).1 (usable i (covers.complete name isName i found))
    rw [forbidden] at free
    cases free
  · intro free i member
    rcases covers.sound i member with isReplacement | ⟨name, isName, found⟩
    · exact isReplacement.plain.2
    · exact (isUsable_iff found).2 (free name isName)

end Covers

/-! ## Positions -/

theorem identifierOr_covers {replacement : String}
    (isReplacement : Identifier.IsReplacement ⟨replacement, false⟩) (name : String) (log : Log) :
    Covers [name] [((identifierOr replacement name).run log).1] := by
  unfold identifierOr
  cases found : identifierOf? name with
  | some i =>
    show Covers [name] [i]
    exact ⟨by simp [found], by simp [found]⟩
  | none =>
    show Covers [name] [⟨replacement, false⟩]
    exact ⟨by simp [found], by simpa using .inl isReplacement⟩

theorem itemIdentifier_covers (name : String) (log : Log) : Covers [name] [((itemIdentifier name).run log).1] :=
  identifierOr_covers (.inl rfl) name log

theorem variantIdentifier_covers (index : Nat) (name : String) (log : Log) :
    Covers [name] [((variantIdentifier index name).run log).1] :=
  identifierOr_covers (.inr ⟨index, rfl⟩) name log

theorem mapM_covers {α β : Type} (work : α → Emitting β) (names : α → List String)
    (parts : β → List Identifier) (each : ∀ a log, Covers (names a) (parts ((work a).run log).1))
    (items : List α) (log : Log) : Covers (items.flatMap names) (((items.mapM work).run log).1.flatMap parts) := by
  induction items generalizing log with
  | nil => exact .nil
  | cons a rest ih =>
    rw [List.mapM_cons, run_bind, run_bind]
    exact (each a log).append (ih _)

theorem mem_distinctFields (name : String) (seen : List String) (members : List FieldItem) :
    name ∈ seen ∨ name ∈ (distinctFields seen members).map (·.name) ↔ name ∈ seen ∨ name ∈ members.map (·.name) := by
  fun_induction distinctFields seen members with
  | case1 => rfl
  | case2 seen v rest taken ih =>
    rw [ih]
    have isTaken : v.name ∈ seen := by simpa using taken
    constructor
    · exact Or.imp_right (List.mem_cons_of_mem _)
    · rintro (isSeen | member)
      · exact .inl isSeen
      · rcases List.mem_cons.1 member with rfl | inRest
        · exact .inl isTaken
        · exact .inr inRest
  | case3 seen v rest free ih =>
    simp only [List.mem_cons, or_assoc] at ih
    simpa only [List.map_cons, List.mem_cons, or_left_comm] using ih

theorem structOf_covers (name : String) (docs : List String) (members : List FieldItem) (log : Log) :
    Covers (name :: members.map (·.name)) ((structOf name docs members).run log).1.identifiers := by
  have fields := mapM_covers fieldOf (fun v => [v.name]) (fun f => [f.name])
    (fun v log => itemIdentifier_covers v.name log) (distinctFields [] members)
  simp only [← List.map_eq_flatMap] at fields
  simp only [structOf, run_bind]
  refine ((itemIdentifier_covers name log).append (fields _)).congr (fun x => ?_) fun i => Iff.rfl
  simpa using or_congr_right (mem_distinctFields x [] members)

/-- The variants from a position on, together with those before: a second one of a name is left out, but then
    its identifier is there. -/
theorem enumVariants_covers (enumName : String) (isValued : Bool) {names : List String} {seen : List Identifier}
    (before : Covers names seen) (index : Nat) (variants : List Variant) (log : Log) :
    Covers (names ++ variants.map (·.name))
      (seen ++ ((enumVariants enumName isValued seen index variants).run log).1.map (·.name)) := by
  induction variants generalizing names seen index log with
  | nil =>
    refine before.congr (fun _ => by simp) fun i => ?_
    show _ ↔ i ∈ seen ++ []
    rw [List.append_nil]
  | cons v rest ih =>
    have both := before.append (variantIdentifier_covers index v.name log)
    simp only [enumVariants, run_bind]
    split
    · -- The identifier is taken, so the name adds none.
      rename_i taken
      have absorbed : Covers (names ++ [v.name]) seen := by
        refine both.congr (fun _ => Iff.rfl) fun i => ?_
        rw [List.mem_append, List.mem_singleton]
        exact or_iff_left_of_imp fun same => same ▸ List.contains_iff_mem.1 taken
      rw [run_bind, List.map_cons, List.append_cons]
      exact ih absorbed _ _
    · have added : Covers (names ++ [v.name]) (((variantIdentifier index v.name).run log).1 :: seen) := by
        refine both.congr (fun _ => Iff.rfl) fun i => ?_
        rw [List.mem_append, List.mem_singleton, or_comm, List.mem_cons]
      rw [List.map_cons, List.append_cons]
      have others := ih added (index + 1) ((variantIdentifier index v.name).run log).2
      refine others.congr (fun _ => Iff.rfl) fun i => ?_
      rw [run_bind]
      show _ ↔ i ∈ seen ++ _ :: List.map _ _
      simp only [List.mem_append, List.mem_cons, or_assoc, or_left_comm]

theorem enumStub_covers (e : EnumItem) (log : Log) :
    Covers (e.name :: e.variants.map (·.name)) ((enumStub e).run log).1.identifiers := by
  simp only [enumStub, run_bind]
  show Covers _ (_ :: List.map _ _)
  exact (itemIdentifier_covers e.name log).append (enumVariants_covers e.name _ .nil 0 e.variants _)

theorem unionVariants_covers (index : Nat) (members : List Member) (log : Log) :
    Covers (members.map (·.name)) (((unionVariants index members).run log).1.map (·.name)) := by
  induction members generalizing index log with
  | nil => exact .nil
  | cons m rest ih =>
    simp only [unionVariants, run_bind]
    exact (variantIdentifier_covers index m.name log).append (ih _ _)

theorem unionStub_covers (u : UnionItem) (log : Log) :
    Covers (u.name :: u.members.map (·.name)) ((unionStub u).run log).1.identifiers := by
  simp only [unionStub, run_bind]
  show Covers _ (_ :: List.map _ _)
  exact (itemIdentifier_covers u.name log).append (unionVariants_covers 0 u.members _)

theorem aliasStub_covers (a : AliasItem) (log : Log) : Covers [a.name] ((aliasStub a).run log).1.identifiers := by
  simp only [aliasStub, run_bind]
  exact itemIdentifier_covers a.name log

def messageNames (rpc : RpcItem) : List String :=
  (rpc.name ++ "Input") :: rpc.input.map (·.name) ++ (rpc.name ++ "Output") :: rpc.output.map (·.name)

theorem rpcStub_covers (naming : Scheme) (rpc : RpcItem) (log : Log) :
    Covers (messageNames rpc) (((rpcStub naming rpc).run log).1.1.flatMap StubItem.identifiers) ∧
      Covers [naming.variableName rpc.schemaName] [((rpcStub naming rpc).run log).1.2.name] := by
  simp only [rpcStub, run_bind]
  constructor
  · show Covers _ (StubItem.identifiers _ ++ (StubItem.identifiers _ ++ []))
    rw [List.append_nil]
    exact (structOf_covers _ _ rpc.input _).append (structOf_covers _ _ rpc.output _)
  · exact itemIdentifier_covers _ _

theorem rpcStubs_covers (naming : Scheme) (view : ModuleItems) (log : Log) :
    Covers (view.rpcs.flatMap messageNames ++ ((traitName? naming view).toList ++
      view.rpcs.map fun rpc => naming.variableName rpc.schemaName))
      (((rpcStubs naming view).run log).1.flatMap StubItem.identifiers) := by
  have messages := mapM_covers (rpcStub naming) messageNames (·.1.flatMap StubItem.identifiers)
    (fun rpc log => (rpcStub_covers naming rpc log).1) view.rpcs log
  have methods := mapM_covers (rpcStub naming) (fun rpc => [naming.variableName rpc.schemaName])
    (fun stub => [stub.2.name]) (fun rpc log => (rpcStub_covers naming rpc log).2) view.rpcs log
  unfold rpcStubs traitName?
  cases none : view.rpcs.isEmpty with
  | true =>
    rw [List.isEmpty_iff.1 none]
    exact .nil
  | false =>
    simp only [Bool.false_eq_true, if_false, run_bind]
    show Covers _ (List.flatMap _ (List.flatMap _ _ ++ [_]))
    rw [List.flatMap_append, List.flatMap_assoc, List.flatMap_singleton]
    simp only [← List.map_eq_flatMap] at methods
    refine messages.append ?_
    show Covers _ (_ :: List.map _ (List.map _ _))
    rw [List.map_map]
    exact (itemIdentifier_covers _ _).append methods

theorem importStubs_identifiers (texts : List String) (log : Log) :
    ((importStubs texts).run log).1.flatMap StubItem.identifiers = [] := by
  induction texts generalizing log with
  | nil => rfl
  | cons text rest ih =>
    unfold importStubs
    cases path? text with
    | none =>
      rw [run_bind]
      exact ih _
    | some path =>
      rw [run_bind]
      exact ih log

/-- The names of a view that stand for types: those of items and those of the members of unions. -/
def typeNames (naming : Scheme) (view : ModuleItems) : List String :=
  declaredNames naming view ++ view.unions.flatMap fun u => u.members.map (·.name)

def fieldsOf (view : ModuleItems) : List FieldItem :=
  view.classes.flatMap (·.fields) ++ view.rpcs.flatMap fun rpc => rpc.input ++ rpc.output

/-- The names of a view that stand for values: those of fields and methods. -/
def variableNames (naming : Scheme) (view : ModuleItems) : List String :=
  (fieldsOf view).map (·.name) ++ view.rpcs.map fun rpc => naming.variableName rpc.schemaName

def variantNames (view : ModuleItems) : List String :=
  view.enums.flatMap fun e => e.variants.map (·.name)

/-- A file has an identifier for each of these names that is one, and replacements for the others. -/
theorem stubFile_covers (naming : Scheme) (view : ModuleItems) (log : Log) :
    Covers (typeNames naming view ++ variableNames naming view ++ variantNames view)
      ((stubFile naming view).run log).1.identifiers := by
  have aliases := mapM_covers aliasStub _ _ aliasStub_covers view.aliases
  have enums := mapM_covers enumStub _ _ enumStub_covers view.enums
  have unions := mapM_covers unionStub _ _ unionStub_covers view.unions
  have classes := mapM_covers classStub (fun c => c.name :: c.fields.map (·.name)) _
    (fun c log => structOf_covers c.name _ c.fields log) view.classes
  -- A file goes from kind to kind, but the names are listed by position, so both have the same members only.
  simp only [stubFile, run_bind]
  show Covers _ (List.flatMap _ (_ ++ _ ++ _ ++ _ ++ _ ++ _))
  simp only [List.flatMap_append, importStubs_identifiers, List.nil_append]
  refine (((((aliases _).append (enums _)).append (unions _)).append (classes _)).append
    (rpcStubs_covers naming view _)).congr (fun name => ?_) fun _ => Iff.rfl
  simp only [typeNames, variableNames, variantNames, fieldsOf, declaredNames, ModuleItems.names, messageNames,
    Entry.messages, List.mem_append, List.mem_flatMap, List.mem_map, List.mem_cons, List.not_mem_nil]
  grind

/-! ## Names by their scheme -/

section Fields

variable (lens : Lens)

theorem field_named (optional : Bool) (node : Node) :
    ∀ f ∈ lens.field optional node, f.value.name = lens.naming.variableName f.value.schemaName := by
  unfold Lens.field
  split <;> simp [Lens.fieldItem]

mutual
theorem fields_named (optional : Bool) : ∀ node : Node, ∀ f ∈ lens.fields optional node,
    f.value.name = lens.naming.variableName f.value.schemaName
  | ⟨_, _, _, _, _, _, _, _, _, _, _, members, _, owned⟩ => by
    rw [Lens.fields]
    exact fieldsAmong_named optional _ owned

theorem fieldsAmong_named (optional : Bool) (children : List (String × Nat)) :
    ∀ l : List Node, ∀ f ∈ lens.fieldsAmong optional children l,
      f.value.name = lens.naming.variableName f.value.schemaName
  | [] => by simp [Lens.fieldsAmong]
  | node :: rest => by
    rw [Lens.fieldsAmong]
    refine List.forall_mem_append.2 ⟨?_, fieldsAmong_named optional children rest⟩
    -- A choice or a case is no field itself, but brings those below it.
    split
    · split
      · exact fields_named true node
      · exact field_named lens optional node
    · simp
end

theorem fieldList_named (node : Node) :
    ∀ v ∈ (lens.fieldList node).value, v.name = lens.naming.variableName v.schemaName := by
  intro v member
  obtain ⟨f, isField, rfl⟩ := List.mem_map.1 member
  exact fields_named lens false node f isField

theorem rpcOf_fields (node : Node) : ∀ v ∈ (lens.rpcOf node).input ++ (lens.rpcOf node).output,
    ∃ message, v ∈ (lens.fieldList message).value := by
  intro v member
  rcases List.mem_append.1 member with inInput | inOutput
  · simp only [Lens.rpcOf] at inInput
    split at inInput
    · exact ⟨_, inInput⟩
    · cases inInput
  · simp only [Lens.rpcOf] at inOutput
    split at inOutput
    · exact ⟨_, inOutput⟩
    · cases inOutput

end Fields

section Model

variable (m : Module) {backend : Backend}

/-- An item is what a lens makes of some node. -/
def MadeBy (lens : Lens) : View.Entry → Prop
  | .ofClass c => ∃ node, c = lens.classOf node
  | .ofRpc rpc => ∃ node, rpc = lens.rpcOf node
  | .ofEnum e => ∃ node enums, e = lens.enumOf node enums
  | .ofUnion u => ∃ node members, u = lens.unionOf node members
  | .ofAlias a => ∃ node, a = lens.aliasOf node

theorem madeBy_of_mem {k : ItemKind} {e : View.Entry}
    (isEntry : e ∈ (ModuleItems.ofModule m backend).1.entries k) : MadeBy (.ofModule m backend) e := by
  obtain ⟨-, node, -, isItem⟩ := exists_node_of_mem_entries m isEntry
  rcases entry?_cases _ isItem with rfl | rfl | ⟨enums, rfl⟩ | ⟨members, -, rfl⟩ | rfl
  · exact ⟨node, rfl⟩
  · exact ⟨node, rfl⟩
  · exact ⟨node, enums, rfl⟩
  · exact ⟨node, members, rfl⟩
  · exact ⟨node, rfl⟩

/-- A field is named after its node. -/
theorem fieldsOf_named : ∀ v ∈ fieldsOf (ModuleItems.ofModule m backend).1,
    v.name = backend.naming.variableName v.schemaName := by
  intro v member
  rcases List.mem_append.1 member with inClass | inMessage
  · obtain ⟨c, isClass, isField⟩ := List.mem_flatMap.1 inClass
    have isEntry : .ofClass c ∈ (ModuleItems.ofModule m backend).1.entries .classes := List.mem_map_of_mem isClass
    obtain ⟨node, rfl⟩ := madeBy_of_mem m isEntry
    exact fieldList_named _ node v isField
  · obtain ⟨rpc, isRpc, isField⟩ := List.mem_flatMap.1 inMessage
    have isEntry : .ofRpc rpc ∈ (ModuleItems.ofModule m backend).1.entries .rpcs := List.mem_map_of_mem isRpc
    obtain ⟨node, rfl⟩ := madeBy_of_mem m isEntry
    obtain ⟨message, isField⟩ := rpcOf_fields _ node v isField
    exact fieldList_named _ message v isField

theorem variantNames_made : ∀ name ∈ variantNames (ModuleItems.ofModule m backend).1,
    ∃ value, name = backend.naming.variantName value := by
  intro name member
  obtain ⟨e, isEnum, isName⟩ := List.mem_flatMap.1 member
  have isEntry : .ofEnum e ∈ (ModuleItems.ofModule m backend).1.entries .enums := List.mem_map_of_mem isEnum
  obtain ⟨node, enums, rfl⟩ := madeBy_of_mem m isEntry
  obtain ⟨v, isVariant, rfl⟩ := List.mem_map.1 isName
  obtain ⟨value, -, rfl⟩ := List.mem_map.1 isVariant
  exact ⟨value.name, rfl⟩

theorem typeNames_given {P : String → Prop} (gives : GivesTypes backend.naming P) :
    ∀ name ∈ typeNames backend.naming (ModuleItems.ofModule m backend).1, P name := by
  refine List.forall_mem_append.2 ⟨declaredNames_given m gives, fun name member => ?_⟩
  obtain ⟨u, isUnion, isMember⟩ := List.mem_flatMap.1 member
  have isEntry : .ofUnion u ∈ (ModuleItems.ofModule m backend).1.entries .unions := List.mem_map_of_mem isUnion
  obtain ⟨node, members, rfl⟩ := madeBy_of_mem m isEntry
  simp only [Lens.unionOf, Needing.all, List.map_map, List.mem_map] at isMember
  obtain ⟨part, -, rfl⟩ := isMember
  exact gives.className part.1

theorem variableNames_rust (naming : backend.naming = .rust) :
    ∀ name ∈ variableNames backend.naming (ModuleItems.ofModule m backend).1, isForbidden name = false := by
  refine List.forall_mem_append.2 ⟨fun name member => ?_, fun name member => ?_⟩
  · obtain ⟨v, isField, rfl⟩ := List.mem_map.1 member
    rw [fieldsOf_named m v isField, naming]
    exact variableName_rust _
  · obtain ⟨rpc, -, rfl⟩ := List.mem_map.1 member
    rw [naming]
    exact variableName_rust _

end Model

/-! ## Reserved words in stubs -/

theorem rust_typeNames : GivesTypes .rust IsTypeName where
  className := className_rust
  inlineName := inlineName_rust
  append _ _ := IsTypeName.append
  endings := by
    intro ending member
    simp only [List.mem_cons, List.not_mem_nil, or_false] at member
    rcases member with rfl | rfl | rfl
    all_goals exact .of_head rfl (by decide) (by decide)

theorem standard_capitals : GivesTypes .standard IsCapital where
  className := className_standard
  inlineName _ _ := className_standard
  append _ _ := IsCapital.append
  endings ending member := (rust_typeNames.endings ending member).capital

theorem emit_eq_ok_iff (m : Module) (backend : Backend) :
    (Format.rust.emit m backend).1 = .ok (Format.rust.generate m backend).1 ↔
      ∀ i ∈ ((stubFile backend.naming (ModuleItems.ofModule m backend).1).run []).1.identifiers,
        i.isUsable = true := by
  have missing_iff : Format.rust.misused? m backend = none ↔
      ∀ i ∈ ((stubFile backend.naming (ModuleItems.ofModule m backend).1).run []).1.identifiers,
        i.isUsable = true := by
    simp [Format.misused?, StubFile.misused?]
  rw [← missing_iff, Format.emit]
  cases Format.rust.misused? m backend <;> simp

/-- What stands in the place of a name is always spelled like one.  It is no reserved word if the backend for
    Rust is used, and stubs come of every model then; with the default backend they do exactly if no type is
    called `Self` and no field or method is called like a reserved word. -/
theorem stubFile_usable_iff (m : Module) {registry registry' : Registry} {log : Log} {name : String}
    {patterns : List (String × String)} {backend : Backend}
    (built : Registry.builtin = .ok (registry, log))
    (selected : registry.select name patterns = .ok (backend, registry')) :
    let view := (ModuleItems.ofModule m backend).1
    let file := ((stubFile backend.naming view).run []).1
    (∀ i ∈ file.identifiers, isPlainIdentifier i.name.toList = true) ∧
    ((Format.rust.emit m backend).1 = .ok (Format.rust.generate m backend).1 ↔
      ∀ i ∈ file.identifiers, i.isUsable = true) ∧
    (Registry.key name = rustName ∧ (∀ i ∈ file.identifiers, i.isUsable = true) ∨
      Registry.key name = defaultName ∧
        ((∀ i ∈ file.identifiers, i.isUsable = true) ↔
          "Self" ∉ typeNames backend.naming view ∧
          ∀ word ∈ variableNames backend.naming view, isForbidden word = false)) := by
  intro view file
  have covers : Covers _ file.identifiers := stubFile_covers backend.naming view []
  refine ⟨covers.plain, emit_eq_ok_iff m backend, ?_⟩
  rw [covers.usable_iff, List.forall_mem_append, List.forall_mem_append]
  have variants (free : ∀ value, isForbidden (backend.naming.variantName value) = false) :
      ∀ name ∈ variantNames view, isForbidden name = false := by
    intro name member
    obtain ⟨value, rfl⟩ := variantNames_made m name member
    exact free value
  rcases select_naming built selected with ⟨isRust, naming⟩ | ⟨isDefault, naming⟩
  · refine .inl ⟨isRust, ⟨fun name member => ?_, variableNames_rust m naming⟩, variants ?_⟩
    · exact (typeNames_given m (naming ▸ rust_typeNames) name member).notForbidden
    · rw [naming]
      exact variantName_rust
  · refine .inr ⟨isDefault, ?_⟩
    -- Types have capitals even without an escape, which leaves them one reserved word to meet.
    have capital : ∀ word ∈ typeNames backend.naming view, IsCapital word :=
      typeNames_given m (naming ▸ standard_capitals)
    constructor
    · rintro ⟨⟨ofTypes, ofVariables⟩, -⟩
      exact ⟨fun isSelf => absurd (ofTypes "Self" isSelf) (by decide +kernel), ofVariables⟩
    · rintro ⟨noSelf, ofVariables⟩
      refine ⟨⟨fun word member => ?_, ofVariables⟩, variants ?_⟩
      · rw [Bool.eq_false_iff, ne_eq, isForbidden_of_capital (capital word member)]
        rintro rfl
        exact noSelf member
      · rw [naming]
        exact variantName_standard

/-- A module with a leaf that is called like a reserved word. -/
def reservedLeaf : String :=
  "<module name='m' xmlns='urn:ietf:params:xml:ns:yang:yin:1'><container name='c'>" ++
  "<leaf name='type'><type name='string'/></leaf></container></module>"

/-- With the default backend nothing is written for it. -/
theorem stubFile_usable_iff_reservedLeaf :
    ∃ registry log backend registry' schema m, Registry.builtin = .ok (registry, log) ∧
      registry.select defaultName [] = .ok (backend, registry') ∧
      ((Library.ofTexts [reservedLeaf]).resolve [] ⟨[]⟩).result = .ok schema ∧ m ∈ schema.modules ∧
      (let model := (Module.build schema backend m.2).1
       variableNames backend.naming (ModuleItems.ofModule model backend).1 = ["type"] ∧
         (Format.rust.emit model backend).1 ≠ .ok (Format.rust.generate model backend).1) := by
  obtain ⟨registry, log, backend, registry', schema, m, built, selected, resolved, isModule, named⟩ :=
    exists_selected defaultName [reservedLeaf] (fun backend schema m => variableNames backend.naming
      (ModuleItems.ofModule (Module.build schema backend m.2).1 backend).1 == ["type"]) (by decide +kernel)
  have names := eq_of_beq named
  have stubs := stubFile_usable_iff (Module.build schema backend m.2).1 built selected
  refine ⟨registry, log, backend, registry', schema, m, built, selected, resolved, isModule, names, ?_⟩
  have other : Registry.key defaultName ≠ rustName := by decide +kernel
  have condition := (stubs.2.2.resolve_left fun isRust => other isRust.1).2
  have forbidden : isForbidden "type" = true := by decide +kernel
  rw [ne_eq, stubs.2.1, condition, names]
  rintro ⟨-, free⟩
  rw [free "type" List.mem_cons_self] at forbidden
  cases forbidden

end YangStubs.Emit
