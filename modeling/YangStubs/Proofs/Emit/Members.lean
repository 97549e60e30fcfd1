import YangStubs.Proofs.Emit.Positions

/-! # Members of generated items

The fields of a struct, the variants of an enum or a union and the methods of a trait must have different names.
Main statement: enums always have, and the others do unless names meet that are left apart before they become
identifiers.
-/

namespace YangStubs.Emit

open YangStubs.Backend (Registry rustName select_rust_naming)
open YangStubs.Model
open YangStubs.Naming
open YangStubs.Schema (Library run_bind)
open YangStubs.Text
open YangStubs.View

/-! ## Members of an item -/

/-- What an item has as its members. -/
inductive MemberKind where
  | field
  | value
  | alternative
  | method
  deriving DecidableEq

/-- The names of the members of an item, if they are of that kind.  The mark of a raw identifier is no part of
    its name. -/
def StubItem.memberNames? : MemberKind → StubItem → Option (List String)
  | .field, .struct _ _ fields => some (fields.map (·.name.name))
  | .value, .enum _ _ _ variants => some (variants.map (·.name.name))
  | .alternative, .union _ _ variants => some (variants.map (·.name.name))
  | .method, .trait _ _ methods => some (methods.map (·.name.name))
  | _, _ => none

/-- The names of the members of each item with members of that kind. -/
def StubFile.members (file : StubFile) (kind : MemberKind) : List (List String) :=
  file.items.filterMap (StubItem.memberNames? kind)

/-- No two members of that kind have the same name. -/
def StubItem.Distinct (kind : MemberKind) (item : StubItem) : Prop :=
  ∀ names ∈ item.memberNames? kind, names.Nodup

theorem forall_members_iff {file : StubFile} {kind : MemberKind} :
    (∀ names ∈ file.members kind, names.Nodup) ↔ ∀ item ∈ file.items, item.Distinct kind := by
  simp only [StubFile.members, List.mem_filterMap, StubItem.Distinct, Option.mem_def]
  exact ⟨fun all item isItem names found => all names ⟨item, isItem, found⟩,
    fun all names found => all found.choose found.choose_spec.1 names found.choose_spec.2⟩

theorem mapM_forall_iff {α β : Type} {work : α → Emitting β} {P : β → Prop} {Q : α → Prop} (items : List α)
    (each : ∀ a ∈ items, ∀ log, P ((work a).run log).1 ↔ Q a) (log : Log) :
    (∀ b ∈ ((items.mapM work).run log).1, P b) ↔ ∀ a ∈ items, Q a := by
  induction items generalizing log with
  | nil => exact iff_of_true (List.forall_mem_nil _) (List.forall_mem_nil _)
  | cons a rest ih =>
    rw [List.forall_mem_cons] at each ⊢
    rw [List.mapM_cons, run_bind, run_bind]
    show (∀ b ∈ _ :: _, P b) ↔ _
    rw [List.forall_mem_cons, each.1, ih each.2]

theorem distinct_iff {item : StubItem} {own : MemberKind} {names : List String}
    (members : ∀ kind, item.memberNames? kind = if kind = own then some names else none) (kind : MemberKind) :
    item.Distinct kind ↔ (kind = own → names.Nodup) := by
  rw [StubItem.Distinct, members]
  split
  · simp [*]
  · simp [*]

/-! ## Names that meet as identifiers -/

/-- What a variant of that name is called at a position. -/
def variantNameAt (index : Nat) (name : String) : String :=
  ((identifierOf? name).map Identifier.name).getD ("Variant" ++ toString index)

theorem variantIdentifier_run (index : Nat) (name : String) (log : Log) :
    ((variantIdentifier index name).run log).1.name = variantNameAt index name := by
  unfold variantIdentifier identifierOr variantNameAt
  cases identifierOf? name <;> rfl

theorem variantNameAt_of_none {index : Nat} {name : String} (none : identifierOf? name = none) :
    variantNameAt index name = "Variant" ++ toString index := by
  rw [variantNameAt, none]
  rfl

theorem variantNameAt_of_some {index : Nat} {name : String} (spelled : Spelled name)
    (some : identifierOf? name ≠ none) : variantNameAt index name = name := by
  have kept := identifierName_of_some spelled some
  obtain ⟨i, found⟩ := Option.ne_none_iff_exists'.1 some
  rw [identifierName, found] at kept
  rw [variantNameAt, found]
  exact kept

theorem replacement_inj {i j : Nat} (same : "Variant" ++ toString i = "Variant" ++ toString j) : i = j := by
  have digits : Nat.toDigits 10 i = Nat.toDigits 10 j := by
    simpa [← String.toList_inj] using same
  have numbers := congrArg (fun digits => Nat.ofDigitChars 10 digits 0) digits
  simpa using numbers

theorem identifierOf?_replacement (index : Nat) : identifierOf? ("Variant" ++ toString index) ≠ none := by
  have plain := (Identifier.IsReplacement.plain (.inr ⟨index, rfl⟩)).1
  have unmarked : dropStart? "r#".toList ("Variant" ++ toString index).toList = none := by simp [dropStart?]
  rw [identifierOf?, unmarked]
  simp only [plain]
  exact Option.some_ne_none _

/-- Only a reserved word is marked as raw. -/
theorem reserved_of_raw {name word : String} (raw : Scheme.rust.variableName name = "r#" ++ word) :
    word ∈ reservedWords := by
  have unmarked := snake_unmarked name
  simp only [Scheme.rust, escapeReserved] at raw
  split at raw
  · have marked : '#' ∈ (snake name ++ "_").toList := by simp [raw]
    simp [unmarked] at marked
  · split at raw
    · rename_i isReserved
      obtain rfl : snake name = word := by simpa [← String.toList_inj] using raw
      simpa using isReserved
    · simp [raw] at unmarked

theorem variableName_ne_replacement (name : String) : Scheme.rust.variableName name ≠ "Unnamed" := by
  have small : 'U' ∉ (snake name).toList :=
    snake_excludes (by decide) (by decide) (by decide +kernel) (by decide) (by decide +kernel) name
  intro same
  have capital : 'U' ∈ (Scheme.rust.variableName name).toList := by simp [same]
  simp only [Scheme.rust, escapeReserved] at capital
  split at capital
  · simp [small] at capital
  · split at capital <;> simp [small] at capital

/-- The identifier of a variable is the replacement only if it replaces the name. -/
theorem identifierName_variable_eq (name : String) :
    identifierName (Scheme.rust.variableName name) = "Unnamed" ↔
      identifierOf? (Scheme.rust.variableName name) = none := by
  refine ⟨fun same => Option.eq_none_iff_forall_not_mem.2 fun i found => ?_, identifierName_of_none⟩
  have named : i.name = "Unnamed" := by
    rw [identifierName, found] at same
    exact same
  rcases (identifierOf?_cases found).2 with ⟨-, marked⟩ | ⟨-, plain, -⟩
  · exact absurd (reserved_of_raw (named ▸ marked)) (by decide)
  · exact variableName_ne_replacement name (plain.trans named)

/-- Two names of variables become one identifier only if both are replaced. -/
theorem identifierName_variable_iff (a b : String) :
    identifierName (Scheme.rust.variableName a) = identifierName (Scheme.rust.variableName b) ↔
      Scheme.rust.variableName a = Scheme.rust.variableName b ∨
        identifierOf? (Scheme.rust.variableName a) = none ∧ identifierOf? (Scheme.rust.variableName b) = none := by
  constructor
  · intro same
    by_cases replaced : identifierName (Scheme.rust.variableName a) = "Unnamed"
    · exact .inr ⟨(identifierName_variable_eq a).1 replaced,
        (identifierName_variable_eq b).1 (same.symm.trans replaced)⟩
    · obtain ⟨i, first⟩ := Option.ne_none_iff_exists'.1 (mt (identifierName_variable_eq a).2 replaced)
      obtain ⟨j, second⟩ := Option.ne_none_iff_exists'.1 (mt (identifierName_variable_eq b).2 (same ▸ replaced))
      have named : i.name = j.name := by
        rw [identifierName, identifierName, first, second] at same
        exact same
      -- A word that is marked is reserved, so no other variable has it as its name.
      have free : ∀ name, Scheme.rust.variableName name ∉ reservedWords :=
        fun name => (isForbidden_eq_false_iff.1 (variableName_rust name)).1
      rcases (identifierOf?_cases first).2 with ⟨-, marked⟩ | ⟨-, plain, -⟩ <;>
        rcases (identifierOf?_cases second).2 with ⟨-, marked'⟩ | ⟨-, plain', -⟩
      · exact .inl (by rw [marked, marked', named])
      · exact absurd (reserved_of_raw marked) (named ▸ plain' ▸ free b)
      · exact absurd (reserved_of_raw marked') (named ▸ plain ▸ free a)
      · exact .inl (by rw [plain, plain', named])
  · rintro (same | ⟨first, second⟩)
    · rw [same]
    · rw [identifierName_of_none first, identifierName_of_none second]

/-! ## Fields -/

theorem distinctFields_nodup (seen : List String) (members : List FieldItem) :
    ((distinctFields seen members).map (·.name)).Nodup ∧
      ∀ name ∈ (distinctFields seen members).map (·.name), name ∉ seen := by
  fun_induction distinctFields seen members with
  | case1 => simp
  | case2 seen v rest taken ih => exact ih
  | case3 seen v rest free ih =>
    simp only [List.mem_cons, not_or] at ih
    simp only [List.map_cons, List.nodup_cons, List.forall_mem_cons]
    exact ⟨⟨fun again => (ih.2 _ again).1 rfl, ih.1⟩, by simpa using free, fun name member => (ih.2 name member).2⟩

/-- No two fields of different names are replaced. -/
def FieldsApart (members : List FieldItem) : Prop :=
  ∀ v ∈ members, ∀ w ∈ members, identifierOf? v.name = none → identifierOf? w.name = none → v.name = w.name

theorem structOf_members (name : String) (docs : List String) (members : List FieldItem) (log : Log)
    (kind : MemberKind) :
    ((structOf name docs members).run log).1.memberNames? kind =
      if kind = .field then some ((distinctFields [] members).map fun v => identifierName v.name) else none := by
  have fields : ∀ log, (((distinctFields [] members).mapM fieldOf).run log).1.map (·.name.name) =
      (distinctFields [] members).map fun v => identifierName v.name :=
    mapM_run _ (fun v log => itemIdentifier_run v.name log) _
  rw [← fields ((itemIdentifier name).run log).2]
  simp only [structOf, run_bind]
  cases kind <;> rfl

theorem structOf_distinct_iff {members : List FieldItem}
    (named : ∀ v ∈ members, ∃ name, v.name = Scheme.rust.variableName name) (name : String)
    (docs : List String) (log : Log) (kind : MemberKind) :
    ((structOf name docs members).run log).1.Distinct kind ↔ (kind = .field → FieldsApart members) := by
  have same : ∀ name, name ∈ (distinctFields [] members).map (·.name) ↔ name ∈ members.map (·.name) := by
    intro name
    simpa using mem_distinctFields name [] members
  rw [distinct_iff (structOf_members name docs members log), ← Function.comp_def identifierName, ← List.map_map,
    List.nodup_map_iff_inj_on (distinctFields_nodup [] members).1]
  simp only [same, List.forall_mem_map]
  refine imp_congr_right fun _ => forall₂_congr fun v isField => forall₂_congr fun w isField' => ?_
  obtain ⟨a, ofV⟩ := named v isField
  obtain ⟨b, ofW⟩ := named w isField'
  rw [ofV, ofW, identifierName_variable_iff, or_imp, and_imp]
  exact and_iff_right id

theorem classStub_distinct_iff {c : ClassItem}
    (named : ∀ v ∈ c.fields, ∃ name, v.name = Scheme.rust.variableName name) (log : Log) (kind : MemberKind) :
    ((classStub c).run log).1.Distinct kind ↔ (kind = .field → FieldsApart c.fields) :=
  structOf_distinct_iff named _ _ log kind

/-! ## Variants -/

theorem enumVariants_nodup (enumName : String) (isValued : Bool) (seen : List Identifier) (index : Nat)
    (variants : List Variant) (log : Log) :
    (((enumVariants enumName isValued seen index variants).run log).1.map (·.name)).Nodup ∧
      ∀ i ∈ ((enumVariants enumName isValued seen index variants).run log).1.map (·.name), i ∉ seen := by
  induction variants generalizing seen index log with
  | nil => exact ⟨.nil, fun i member => by cases member⟩
  | cons v rest ih =>
    simp only [enumVariants, run_bind]
    split
    · rw [run_bind]
      exact ih _ _ _
    · rename_i free
      rw [run_bind]
      show (_ :: List.map _ _).Nodup ∧ ∀ i ∈ _ :: List.map _ _, _
      obtain ⟨distinct, apart⟩ := ih (((variantIdentifier index v.name).run log).1 :: seen) (index + 1)
        ((variantIdentifier index v.name).run log).2
      simp only [List.mem_cons, not_or] at apart
      rw [List.nodup_cons, List.forall_mem_cons]
      exact ⟨⟨fun again => (apart _ again).1 rfl, distinct⟩, by simpa using free, fun i member => (apart i member).2⟩

theorem variantName_unmarked {value : String} {i : Identifier}
    (found : identifierOf? (Scheme.rust.variantName value) = some i) : i.isRaw = false := by
  have spelled := className_spelled value
  rcases (identifierOf?_cases found).2 with ⟨-, marked⟩ | ⟨notRaw, -⟩
  · simp only [Scheme.rust] at marked spelled
    split at marked
    · simp [← String.toList_inj] at marked
    · exact absurd (by simp [marked]) (spelled.ne_raw ('#' :: i.name.toList))
  · exact notRaw

/-- The variants of an enum are compared as identifiers, so they are distinct. -/
theorem enumStub_distinct {e : EnumItem} (named : ∀ v ∈ e.variants, ∃ value, v.name = Scheme.rust.variantName value)
    (log : Log) (kind : MemberKind) : ((enumStub e).run log).1.Distinct kind := by
  let isValued := e.variants.all (·.value.isSome)
  let variants := ((enumVariants e.name isValued [] 0 e.variants).run ((itemIdentifier e.name).run log).2).1
  have members : ∀ kind, ((enumStub e).run log).1.memberNames? kind =
      if kind = .value then some (variants.map (·.name.name)) else none := by
    intro kind
    simp only [enumStub, run_bind]
    cases kind <;> rfl
  have distinct : (variants.map (·.name)).Nodup := (enumVariants_nodup e.name isValued [] 0 e.variants _).1
  have covers : Covers (e.variants.map (·.name)) (variants.map (·.name)) :=
    enumVariants_covers e.name isValued .nil 0 e.variants _
  have unmarked : ∀ i ∈ variants.map (·.name), i.isRaw = false := by
    intro i member
    rcases covers.sound i member with (rfl | ⟨index, rfl⟩) | ⟨name, isName, found⟩
    · rfl
    · rfl
    · obtain ⟨v, isVariant, rfl⟩ := List.mem_map.1 isName
      obtain ⟨value, same⟩ := named v isVariant
      exact variantName_unmarked (same ▸ found)
  -- Without raw marks, different identifiers have different names.
  rw [distinct_iff members, ← Function.comp_def Identifier.name, ← List.map_map]
  refine fun _ => distinct.map_on fun i member j member' same => ?_
  rw [Identifier.mk.injEq]
  exact ⟨same, (unmarked i member).trans (unmarked j member').symm⟩

/-- The names of the alternatives of a union are apart as they stand and from what replaces others. -/
structure VariantsApart (names : List String) : Prop where
  once : ∀ (i j : Nat) (a : String), names[i]? = some a → names[j]? = some a → identifierOf? a ≠ none → i = j
  apart : ∀ (i j : Nat) (a : String), names[i]? = some a → identifierOf? a = none →
    names[j]? ≠ some ("Variant" ++ toString i)

theorem unionVariants_run (index : Nat) (members : List Member) (log : Log) :
    ((unionVariants index members).run log).1.map (·.name.name) =
      (members.map (·.name)).mapIdx fun i name => variantNameAt (index + i) name := by
  induction members generalizing index log with
  | nil => rfl
  | cons m rest ih =>
    simp only [unionVariants, run_bind]
    show Identifier.name _ :: List.map _ _ = _
    rw [variantIdentifier_run, ih, List.map_cons, List.mapIdx_cons]
    simp only [Nat.add_zero, Nat.add_assoc, Nat.add_comm 1]

theorem nodup_iff_getElem?_inj {l : List String} :
    l.Nodup ↔ ∀ (i j : Nat) (x : String), l[i]? = some x → l[j]? = some x → i = j := by
  constructor
  · intro distinct i j x listed listed'
    exact (List.getElem?_inj (List.getElem?_eq_some_iff.1 listed).1 distinct).1 (listed.trans listed'.symm)
  · intro injective
    refine List.nodup_iff_getElem?_ne_getElem?.2 fun i j less bound same => ?_
    obtain ⟨x, listed⟩ : ∃ x, l[j]? = some x := ⟨_, List.getElem?_eq_getElem bound⟩
    exact absurd (injective i j x (same.trans listed) listed) (Nat.ne_of_lt less)

theorem variants_nodup_iff {names : List String} (spelled : ∀ name ∈ names, Spelled name) :
    (names.mapIdx variantNameAt).Nodup ↔ VariantsApart names := by
  have kept : ∀ {i j : Nat} {a : String}, names[i]? = some a → identifierOf? a ≠ none → variantNameAt j a = a :=
    fun listed => variantNameAt_of_some (spelled _ (List.mem_of_getElem? listed))
  rw [nodup_iff_getElem?_inj]
  simp only [List.getElem?_mapIdx, Option.map_eq_some_iff]
  constructor
  · intro injective
    constructor
    · intro i j a listed listed' isIdentifier
      exact injective i j a ⟨a, listed, kept listed isIdentifier⟩ ⟨a, listed', kept listed isIdentifier⟩
    · intro i j a listed noIdentifier listed'
      have isIdentifier := identifierOf?_replacement i
      obtain rfl := injective i j _ ⟨a, listed, variantNameAt_of_none noIdentifier⟩
        ⟨_, listed', kept listed' isIdentifier⟩
      rw [listed, Option.some.injEq] at listed'
      exact isIdentifier (listed' ▸ noIdentifier)
  · rintro apart i j x ⟨a, listed, rfl⟩ ⟨b, listed', same⟩
    -- A name stands for itself or is replaced by its position; only a mixed pair needs the names to be apart.
    by_cases first : identifierOf? a = none <;> by_cases second : identifierOf? b = none
    · rw [variantNameAt_of_none first, variantNameAt_of_none second] at same
      exact (replacement_inj same).symm
    · rw [variantNameAt_of_none first, kept listed' second] at same
      exact absurd (same ▸ listed') (apart.apart i j a listed first)
    · rw [variantNameAt_of_none second, kept listed first] at same
      exact absurd (same ▸ listed) (apart.apart j i b listed' second)
    · rw [kept listed first, kept listed' second] at same
      exact apart.once i j a listed (same ▸ listed') first

theorem unionStub_distinct_iff {u : UnionItem} (named : ∀ v ∈ u.members, Spelled v.name) (log : Log)
    (kind : MemberKind) :
    ((unionStub u).run log).1.Distinct kind ↔ (kind = .alternative → VariantsApart (u.members.map (·.name))) := by
  have members : ∀ kind, ((unionStub u).run log).1.memberNames? kind =
      if kind = .alternative then some ((u.members.map (·.name)).mapIdx variantNameAt) else none := by
    intro kind
    have names := unionVariants_run 0 u.members ((itemIdentifier u.name).run log).2
    simp only [Nat.zero_add] at names
    rw [← names]
    simp only [unionStub, run_bind]
    cases kind <;> rfl
  rw [distinct_iff members, variants_nodup_iff (List.forall_mem_map.2 named)]

/-! ## Methods -/

/-- Names of methods are apart, and no two of them are replaced. -/
def MethodsApart (names : List String) : Prop :=
  names.Pairwise fun a b => a ≠ b ∧ (identifierOf? a ≠ none ∨ identifierOf? b ≠ none)

theorem methods_nodup_iff {names : List String} (named : ∀ a ∈ names, ∃ name, a = Scheme.rust.variableName name) :
    (names.map identifierName).Nodup ↔ MethodsApart names := by
  rw [List.Nodup, List.pairwise_map, MethodsApart]
  refine List.Pairwise.iff_of_mem fun isName isName' => ?_
  obtain ⟨a, rfl⟩ := named _ isName
  obtain ⟨b, rfl⟩ := named _ isName'
  rw [ne_eq, identifierName_variable_iff, not_or, not_and_or]

theorem rpcStub_distinct_iff (naming : Scheme) {rpc : RpcItem}
    (named : ∀ v ∈ rpc.input ++ rpc.output, ∃ name, v.name = Scheme.rust.variableName name) (log : Log)
    (kind : MemberKind) :
    (∀ item ∈ ((rpcStub naming rpc).run log).1.1, item.Distinct kind) ↔
      (kind = .field → FieldsApart rpc.input ∧ FieldsApart rpc.output) := by
  obtain ⟨ofInput, ofOutput⟩ := List.forall_mem_append.1 named
  simp only [rpcStub, run_bind]
  show (∀ item ∈ [_, _], StubItem.Distinct kind item) ↔ _
  rw [List.forall_mem_cons, List.forall_mem_singleton, structOf_distinct_iff ofInput, structOf_distinct_iff ofOutput,
    imp_and]

theorem rpcStubs_distinct_iff {naming : Scheme} {view : ModuleItems} (isRust : naming = .rust)
    (named : ∀ rpc ∈ view.rpcs, ∀ v ∈ rpc.input ++ rpc.output, ∃ name, v.name = Scheme.rust.variableName name)
    (log : Log) (kind : MemberKind) :
    (∀ item ∈ ((rpcStubs naming view).run log).1, item.Distinct kind) ↔
      (∀ rpc ∈ view.rpcs, kind = .field → FieldsApart rpc.input ∧ FieldsApart rpc.output) ∧
      (kind = .method → MethodsApart (view.rpcs.map fun rpc => naming.variableName rpc.schemaName)) := by
  have messages : (∀ stub ∈ ((view.rpcs.mapM (rpcStub naming)).run log).1, ∀ item ∈ stub.1, item.Distinct kind) ↔
      ∀ rpc ∈ view.rpcs, kind = .field → FieldsApart rpc.input ∧ FieldsApart rpc.output :=
    mapM_forall_iff view.rpcs (fun rpc isRpc log => rpcStub_distinct_iff naming (named rpc isRpc) log kind) log
  have methods : (((view.rpcs.mapM (rpcStub naming)).run log).1.map (·.2)).map (·.name.name) =
      (view.rpcs.map fun rpc => naming.variableName rpc.schemaName).map identifierName := by
    rw [List.map_map, List.map_map]
    refine mapM_run _ (fun rpc log => ?_) view.rpcs log
    simp only [rpcStub, run_bind]
    exact itemIdentifier_run _ _
  have apart : ((view.rpcs.map fun rpc => naming.variableName rpc.schemaName).map identifierName).Nodup ↔
      MethodsApart (view.rpcs.map fun rpc => naming.variableName rpc.schemaName) :=
    methods_nodup_iff (List.forall_mem_map.2 fun rpc _ => ⟨rpc.schemaName, by rw [isRust]⟩)
  unfold rpcStubs
  cases none : view.rpcs.isEmpty with
  | true =>
    rw [List.isEmpty_iff.1 none]
    exact iff_of_true (List.forall_mem_nil _) ⟨List.forall_mem_nil _, fun _ => .nil⟩
  | false =>
    simp only [Bool.false_eq_true, if_false, run_bind]
    show (∀ item ∈ List.flatMap _ _ ++ [_], StubItem.Distinct kind item) ↔ _
    rw [List.forall_mem_append, List.forall_mem_singleton, List.forall_mem_flatMap, messages]
    refine and_congr_right fun _ => ?_
    rw [← apart, ← methods]
    exact distinct_iff (fun kind => by cases kind <;> rfl) kind

/-! ## Files -/

theorem aliasStub_distinct (a : AliasItem) (log : Log) (kind : MemberKind) :
    ((aliasStub a).run log).1.Distinct kind := by
  simp only [aliasStub, run_bind]
  cases kind <;> exact fun names found => by cases found

theorem importStubs_distinct (texts : List String) (log : Log) (kind : MemberKind) :
    ∀ item ∈ ((importStubs texts).run log).1, item.Distinct kind := by
  induction texts generalizing log with
  | nil => exact List.forall_mem_nil _
  | cons text rest ih =>
    unfold importStubs
    cases path? text with
    | none =>
      rw [run_bind]
      exact ih _
    | some path =>
      rw [run_bind]
      refine List.forall_mem_cons.2 ⟨?_, ih log⟩
      cases kind <;> exact fun names found => by cases found

section Model

variable (m : Module) {backend : Backend} (isRust : backend.naming = .rust)

include isRust

theorem stubFile_distinct_iff (log : Log) (kind : MemberKind) :
    let view := (ModuleItems.ofModule m backend).1
    (∀ item ∈ ((stubFile backend.naming view).run log).1.items, item.Distinct kind) ↔
      (kind = .field → (∀ c ∈ view.classes, FieldsApart c.fields) ∧
        ∀ rpc ∈ view.rpcs, FieldsApart rpc.input ∧ FieldsApart rpc.output) ∧
      (kind = .alternative → ∀ u ∈ view.unions, VariantsApart (u.members.map (·.name))) ∧
      (kind = .method → MethodsApart (view.rpcs.map fun rpc => backend.naming.variableName rpc.schemaName)) := by
  intro view
  have fields : ∀ v ∈ fieldsOf view, ∃ name, v.name = Scheme.rust.variableName name :=
    fun v isField => ⟨v.schemaName, isRust ▸ fieldsOf_named m v isField⟩
  have ofClasses : ∀ c ∈ view.classes, ∀ v ∈ c.fields, ∃ name, v.name = Scheme.rust.variableName name :=
    fun c isClass v isField => fields v (List.mem_append_left _ (List.mem_flatMap.2 ⟨c, isClass, isField⟩))
  have ofRpcs : ∀ rpc ∈ view.rpcs, ∀ v ∈ rpc.input ++ rpc.output, ∃ name, v.name = Scheme.rust.variableName name :=
    fun rpc isRpc v isField => fields v (List.mem_append_right _ (List.mem_flatMap.2 ⟨rpc, isRpc, isField⟩))
  have ofEnums : ∀ e ∈ view.enums, ∀ v ∈ e.variants, ∃ value, v.name = Scheme.rust.variantName value :=
    fun e isEnum v isVariant => isRust ▸ variantNames_made m v.name
      (List.mem_flatMap.2 ⟨e, isEnum, List.mem_map_of_mem isVariant⟩)
  have ofUnions : ∀ u ∈ view.unions, ∀ v ∈ u.members, Spelled v.name :=
    fun u isUnion v isMember => typeNames_given m (isRust ▸ rust_spelled) v.name
      (List.mem_append_right _ (List.mem_flatMap.2 ⟨u, isUnion, List.mem_map_of_mem isMember⟩))
  have aliases := mapM_forall_iff (P := StubItem.Distinct kind) (Q := fun _ => True) view.aliases
    fun a _ log => iff_true_intro (aliasStub_distinct a log kind)
  have enums := mapM_forall_iff (P := StubItem.Distinct kind) (Q := fun _ => True) view.enums
    fun e isEnum log => iff_true_intro (enumStub_distinct (ofEnums e isEnum) log kind)
  have unions := mapM_forall_iff (P := StubItem.Distinct kind) view.unions
    fun u isUnion log => unionStub_distinct_iff (ofUnions u isUnion) log kind
  have classes := mapM_forall_iff (P := StubItem.Distinct kind) view.classes
    fun c isClass log => classStub_distinct_iff (ofClasses c isClass) log kind
  simp only [stubFile, run_bind]
  show (∀ item ∈ _ ++ _ ++ _ ++ _ ++ _ ++ _, StubItem.Distinct kind item) ↔ _
  simp only [List.forall_mem_append]
  rw [aliases, enums, unions, classes, rpcStubs_distinct_iff isRust ofRpcs]
  constructor
  · rintro ⟨⟨⟨-, unionsApart⟩, classesApart⟩, messagesApart, methodsApart⟩
    exact ⟨fun isField => ⟨fun c isClass => classesApart c isClass isField,
      fun rpc isRpc => messagesApart rpc isRpc isField⟩,
      fun isAlternative u isUnion => unionsApart u isUnion isAlternative, methodsApart⟩
  · rintro ⟨fieldsApart, unionsApart, methodsApart⟩
    exact ⟨⟨⟨⟨⟨importStubs_distinct _ _ kind, fun _ _ => trivial⟩, fun _ _ => trivial⟩,
      fun u isUnion isAlternative => unionsApart isAlternative u isUnion⟩,
      fun c isClass isField => (fieldsApart isField).1 c isClass⟩,
      fun rpc isRpc isField => (fieldsApart isField).2 rpc isRpc, methodsApart⟩

end Model

/-- In a generated file the variants of every enum have different names.  The fields of a struct do if no two of
    them with different names are replaced; the alternatives of a union if no name that is an identifier stands
    twice or replaces another; the methods of the trait if their names differ and no two are replaced. -/
theorem generate_members_nodup_iff (m : Module) (backend : Backend) (isRust : backend.naming = .rust) :
    let view := (ModuleItems.ofModule m backend).1
    let file := ((stubFile backend.naming view).run []).1
    (Format.rust.generate m backend).1 = file.text ∧
    (∀ names ∈ file.members .value, names.Nodup) ∧
    ((∀ names ∈ file.members .field, names.Nodup) ↔
      (∀ c ∈ view.classes, FieldsApart c.fields) ∧ ∀ rpc ∈ view.rpcs, FieldsApart rpc.input ∧ FieldsApart rpc.output) ∧
    ((∀ names ∈ file.members .alternative, names.Nodup) ↔ ∀ u ∈ view.unions, VariantsApart (u.members.map (·.name))) ∧
    ((∀ names ∈ file.members .method, names.Nodup) ↔
      MethodsApart (view.rpcs.map fun rpc => backend.naming.variableName rpc.schemaName)) := by
  simp only [forall_members_iff, stubFile_distinct_iff m isRust]
  exact ⟨rfl, by simp⟩

/-- A module in which names meet in each of these ways: two leaves and two procedures of which nothing but a digit
    is left, and a union of a type with one that is called like it but for its capital. -/
def meetingMembers : String :=
  "<module name='m' xmlns='urn:ietf:params:xml:ns:yang:yin:1'>" ++
  "<typedef name='Int8'><type name='string'/></typedef><container name='c'>" ++
  "<leaf name='_1'><type name='int8'/></leaf><leaf name='_2'><type name='string'/></leaf>" ++
  "<leaf name='u'><type name='union'><type name='int8'/><type name='Int8'/></type></leaf></container>" ++
  "<rpc name='_1'/><rpc name='_2'/></module>"

theorem generate_members_nodup_iff_meetingMembers :
    ∃ registry log backend registry' schema m, Registry.builtin = .ok (registry, log) ∧
      registry.select rustName [] = .ok (backend, registry') ∧
      ((Library.ofTexts [meetingMembers]).resolve [] ⟨[]⟩).result = .ok schema ∧ m ∈ schema.modules ∧
      (let view := (ModuleItems.ofModule (Module.build schema backend m.2).1 backend).1
       let file := ((stubFile backend.naming view).run []).1
       ([.field, .alternative, .method].map file.members =
         [[["Unnamed", "Unnamed", "u"], [], [], [], []], [["Int8", "Int8"]], [["Unnamed", "Unnamed"]]]) ∧
       ¬ ((∀ c ∈ view.classes, FieldsApart c.fields) ∧
         ∀ rpc ∈ view.rpcs, FieldsApart rpc.input ∧ FieldsApart rpc.output) ∧
       ¬ (∀ u ∈ view.unions, VariantsApart (u.members.map (·.name))) ∧
       ¬ MethodsApart (view.rpcs.map fun rpc => backend.naming.variableName rpc.schemaName)) := by
  obtain ⟨registry, log, backend, registry', schema, m, built, selected, resolved, isModule, named⟩ :=
    exists_selected rustName [meetingMembers] (fun backend schema m =>
      let view := (ModuleItems.ofModule (Module.build schema backend m.2).1 backend).1
      let file := ((stubFile backend.naming view).run []).1
      [.field, .alternative, .method].map file.members ==
        [[["Unnamed", "Unnamed", "u"], [], [], [], []], [["Int8", "Int8"]], [["Unnamed", "Unnamed"]]])
      (by decide +kernel)
  have members := eq_of_beq named
  obtain ⟨-, -, fields, alternatives, methods⟩ := generate_members_nodup_iff (Module.build schema backend m.2).1
    backend (select_rust_naming built selected)
  refine ⟨registry, log, backend, registry', schema, m, built, selected, resolved, isModule, members, ?_⟩
  simp only [List.map_cons, List.map_nil, List.cons.injEq, and_true] at members
  rw [← fields, ← alternatives, ← methods, members.1, members.2.1, members.2.2]
  decide

end YangStubs.Emit
