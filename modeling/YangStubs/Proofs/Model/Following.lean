import YangStubs.Proofs.Model.Arena
import YangStubs.Proofs.Schema.Targets

/-! # Following leafrefs while building

The node of a leafref owns a node made for its target, which may be a leafref again.  While the targets are made
inside one another their statements are kept, and a target that is among them is not made again.  `Traced` says
of a finished node what its type is and, given the statements that were kept when it was made, which leafrefs
below it are followed.
-/

namespace YangStubs.Model

open YangStubs.Schema

variable {n : Node} {s type : Statement}

/-! ## Nodes with their types -/

/-- The backend has the standard constructors. -/
def Workshop.Standard (shop : Workshop) : Prop :=
  ∀ keyword, shop.backend.lookup? keyword = Backend.standardConstructors.lookup keyword

/-- The number of the node made for the target of a leafref. -/
def Node.reference? (n : Node) : Option Nat :=
  n.typing.bind (·.reference)

/-- Neither a node nor any node below it has a type. -/
inductive Node.Untyped : Node → Prop
  | intro {n : Node} (typing : n.typing = none) (below : ∀ c ∈ n.owned, c.Untyped) : n.Untyped

/-- The node of an enumeration has a node for each of its values, in order. -/
structure Node.Enumerates (type : Statement) (n : Node) : Prop where
  kind : n.kind = .enumeration (n.owned.map (·.id))
  values : n.owned.map (·.statement) = (type.subsWith "enum").map (·.id)

/-- Which parts the type of a statement has is settled by its name.  The node of an enumeration is among those that are
    owned. -/
structure Typing.Facets (s type : Statement) (owned : List Node) (t : Typing) : Prop where
  mandatory : t.mandatory = (s.argOf? "mandatory" == some "true")
  isBuiltin : t.isBuiltin = isBuiltinType type.name
  derived : isBuiltinType type.name = false → (t.dataType = none ↔ t.typedef = none)
  enumeration : t.enumeration.isSome = (type.name == "enumeration")
  values : ∀ i, t.enumeration = some i → ∃ c ∈ owned, c.id = i ∧ c.Enumerates type
  union : t.union.isSome = (type.name == "union")
  leafref : type.name ≠ "leafref" → t.path = none ∧ t.reference = none

/-- The type of a node is that of its statement.  A leafref is followed unless its target is being made, and
    nothing else below the node has a type. -/
structure Node.TypedAs (shop : Workshop) (busy : List Nat) (s type : Statement) (n : Node) (t : Typing) : Prop where
  builtin : t.builtin = if isBuiltinType type.name then some type.name else none
  dataType : isBuiltinType type.name → t.dataType = some (shop.dataType type.name)
  cut : t.reference = none → ∀ target, shop.schema.targets.lookup type.id = some target → target ∈ busy
  followed : ∀ id, t.reference = some id → ∃ r, n.owned = [r] ∧ r.id = id ∧ type.name = "leafref" ∧
    shop.schema.targets.lookup type.id = some r.statement ∧ r.statement ∉ busy
  apart : ∀ c ∈ n.owned, c.Untyped ∨ t.reference = some c.id
  facets : t.Facets s type n.owned

/-- The targets that are being made when a node below another one is made. -/
def Node.pending (busy : List Nat) (n c : Node) : List Nat :=
  if n.reference? = some c.id then c.statement :: busy else busy

/-- A node that was made while some targets were being made, with all that is below it.  Types of targets are
    all that is made then. -/
inductive Traced (shop : Workshop) : List Nat → Node → Prop
  | intro {busy : List Nat} {n : Node} (forType : busy = [] ∨ n.typing.isSome ∨ n.Untyped)
      (typed : ∀ t, n.typing = some t → ∃ s ∈ shop.schema.all, n.statement = s.id ∧
        ∃ type, s.sub? "type" = some type ∧ n.TypedAs shop busy s type t)
      (below : ∀ c ∈ n.owned, Traced shop (n.pending busy c) c) : Traced shop busy n

theorem Node.pending_of_untyped (untyped : n.typing = none) (busy : List Nat) (c : Node) :
    n.pending busy c = busy := by
  rw [Node.pending, Node.reference?, untyped]
  rfl

theorem Traced.of_untyped {shop : Workshop} {busy : List Nat} (untyped : n.Untyped) : Traced shop busy n := by
  induction untyped with
  | @intro n typing below ih =>
    refine .intro (.inr (.inr (.intro typing below))) (by simp [typing]) fun c isOwned => ?_
    rw [n.pending_of_untyped typing]
    exact ih c isOwned

theorem Traced.of_members {shop : Workshop} (untyped : n.typing = none) (below : ∀ c ∈ n.owned, Traced shop [] c) :
    Traced shop [] n := by
  refine .intro (.inl rfl) (by simp [untyped]) fun c isOwned => ?_
  rw [n.pending_of_untyped untyped]
  exact below c isOwned

/-- From `p` to `q`, the definitions that are made are no part of the targets being made. -/
def Follows (shop : Workshop) (p q : Progress) : Prop :=
  ∃ definitions, q.definitions = p.definitions ++ definitions ∧ ∀ d ∈ definitions, Traced shop [] d

namespace Follows

variable {shop : Workshop} {p q r : Progress}

theorem idle (same : q.definitions = p.definitions) : Follows shop p q :=
  ⟨[], by simp [same], by simp⟩

theorem trans (first : Follows shop p q) (second : Follows shop q r) : Follows shop p r := by
  obtain ⟨definitions, atEnd, traced⟩ := first
  obtain ⟨definitions', atEnd', traced'⟩ := second
  exact ⟨definitions ++ definitions', by rw [atEnd', atEnd, List.append_assoc],
    List.forall_mem_append.2 ⟨traced, traced'⟩⟩

end Follows

theorem follows_lasting (shop : Workshop) : Lasting (Follows shop) :=
  ⟨fun _ _ same _ => Follows.idle same, Follows.trans⟩

/-- Nodes of the keyword have no leafref below them that refers to a target: typedefs and enums. -/
def Workshop.Settles (shop : Workshop) (keyword : String) : Prop :=
  isLeafKeyword keyword = false ∧ partOf (shop.constructorFor keyword) ≠ .members

/-- A node made of a schema node.  Where no target can be referred to, it does not matter which are being made. -/
structure MadeFollowing (shop : Workshop) (busy : List Nat) (x : SchemaNode) (n : Node) : Prop where
  statement : n.statement = x.id
  traced : ∀ busy', busy' = busy ∨ shop.Settles x.keyword → Traced shop busy' n
  untyped : partOf (shop.constructorFor x.keyword) = .nothing → n.Untyped

/-- A maker that follows leafrefs.  Nodes with members are not made while a target is being made. -/
def MakesFollowing (shop : Workshop) (make : Maker) : Prop :=
  ∀ busy keyword x place p, keyword = x.keyword → Proper shop.schema x →
    busy = [] ∨ partOf (shop.constructorFor x.keyword) ≠ .members →
    Leaves (make busy keyword x place) p fun made q => Follows shop p q ∧
      ((shop.backend.lookup? keyword).isSome → made.isSome) ∧ ∀ n, made = some n → MadeFollowing shop busy x n

theorem create_follows (shop : Workshop) (parent : Option Place) (kind : Kind) (s : Statement) (p : Progress) :
    Leaves (create shop parent kind s) p fun node q =>
      (∃ id, node = freshNode shop parent kind s id) ∧ Follows shop p q :=
  (create_numbers shop parent kind s p).mono fun _ _ created =>
    ⟨⟨p.next, created.1⟩, .idle created.2.definitions⟩

/-! ## Standard constructors -/

namespace Workshop.Standard

variable {shop : Workshop}

section

variable (standard : shop.Standard)
include standard

theorem constructorFor_eq (keyword : String) :
    shop.constructorFor keyword = (Backend.standardConstructors.lookup keyword).getD .module := by
  rw [Workshop.constructorFor, standard]

theorem settles_typedef : shop.Settles "typedef" := by
  refine ⟨by decide, ?_⟩
  rw [standard.constructorFor_eq]
  decide

theorem partOf_enum : partOf (shop.constructorFor "enum") = .nothing := by
  rw [standard.constructorFor_eq]
  rfl

theorem lookup?_leaf {keyword : String} (isLeaf : isLeafKeyword keyword) :
    (shop.backend.lookup? keyword).isSome ∧ partOf (shop.constructorFor keyword) = .typing := by
  rw [standard, standard.constructorFor_eq]
  simp only [isLeafKeyword, Bool.or_eq_true, beq_iff_eq] at isLeaf
  rcases isLeaf with rfl | rfl <;> decide

theorem kindOf_leaf (isLeaf : isLeafKeyword s.keyword) :
    kindOf (shop.constructorFor s.keyword) s = .leaf ∨ kindOf (shop.constructorFor s.keyword) s = .leafList := by
  rw [standard.constructorFor_eq]
  simp only [isLeafKeyword, Bool.or_eq_true, beq_iff_eq] at isLeaf
  rcases isLeaf with isLeaf | isLeaf
  · rw [isLeaf]
    exact .inl rfl
  · rw [isLeaf]
    exact .inr rfl

end

end Workshop.Standard

section Steps

variable {shop : Workshop} {make : Maker}

/-! ## Making what a node refers to -/

theorem makeDefinition_follows (sound : shop.Sound) (makes : MakesFollowing shop make) {busy : List Nat}
    {keyword : String} (apart : busy = [] ∨ shop.Settles keyword) :
    Defines shop make busy (Follows shop) keyword := by
  rintro d member rfl p
  obtain ⟨-, -, proper⟩ := sound.mem_definitions member
  unfold makeDefinition
  refine (makes busy d.node.keyword d.node shop.top p rfl proper (apart.imp_right (·.2))).bind ?_
  rintro (- | n) q ⟨follows, -, made⟩
  · exact .pure follows
  · have traced : Traced shop [] n := (made n rfl).traced [] (apart.imp_left Eq.symm)
    refine (define_agrees n q).bind ?_
    rintro - r rfl
    refine .pure (follows.trans ⟨[n], rfl, ?_⟩)
    exact List.forall_mem_singleton.2 traced

variable (standard : shop.Standard)
include standard

/-! ## Making types -/

section

variable (sound : shop.Sound) (makes : MakesFollowing shop make) (busy : List Nat)
include sound makes busy

/-- Typedefs can be made whatever targets are being made. -/
theorem makeTypedef_follows : Defines shop make busy (Follows shop) "typedef" :=
  makeDefinition_follows sound makes (.inr standard.settles_typedef)

theorem typedefOf_follows (key : String) :
    ∀ type ∈ shop.schema.all, Keeps (Follows shop) (typedefOf shop make busy key type) :=
  typedefOf_lasts (follows_lasting shop) sound (makeTypedef_follows standard sound makes busy)
    (fun _ _ same => Follows.idle same) key

theorem makeEnums_follows (place : Place) (values : List Statement) :
    ∀ p, (∀ v ∈ values, v ∈ shop.schema.all ∧ v.keyword = "enum") →
      Leaves (makeEnums make busy place values) p fun nodes q =>
        Follows shop p q ∧ (∀ c ∈ nodes, c.Untyped) ∧ nodes.map (·.statement) = values.map (·.id) := by
  induction values with
  | nil => exact fun p _ => .pure ⟨.idle rfl, by simp, rfl⟩
  | cons v rest ih =>
    intro p spec
    obtain ⟨known, keyword⟩ := spec v List.mem_cons_self
    have proper := proper_enum sound.schema known keyword
    have part : partOf (shop.constructorFor v.keyword) = .nothing := by
      rw [keyword]
      exact standard.partOf_enum
    have notMembers : partOf (shop.constructorFor v.keyword) ≠ .members := by
      rw [part]
      decide
    unfold makeEnums
    refine (makes busy "enum" ⟨v, [], none⟩ place p keyword.symm proper (.inr notMembers)).bind ?_
    rintro made q ⟨follows, isServed, isMade⟩
    obtain ⟨n, rfl⟩ := Option.isSome_iff_exists.1 (isServed (by rw [standard]; rfl))
    refine (ih q fun w inRest => spec w (List.mem_cons_of_mem _ inRest)).bind ?_
    rintro others r ⟨follows', untyped, statements⟩
    refine .pure ⟨follows.trans follows', List.forall_mem_cons.2 ⟨(isMade n rfl).untyped part, untyped⟩, ?_⟩
    exact congrArg₂ List.cons (isMade n rfl).statement statements

theorem makeEnumeration_follows (place : Place) (known : type ∈ shop.schema.all) (p : Progress) :
    Leaves (makeEnumeration shop make busy place type) p fun n q =>
      Follows shop p q ∧ n.Untyped ∧ n.Enumerates type := by
  unfold makeEnumeration
  refine (create_follows shop (some place) (.enumeration []) type p).bind ?_
  rintro node q ⟨⟨id, rfl⟩, follows⟩
  refine (makeEnums_follows standard sound makes busy _ _ q (subsWith_known known "enum")).bind ?_
  rintro nodes r ⟨follows', untyped, statements⟩
  exact .pure ⟨follows.trans follows', .intro rfl untyped, rfl, statements⟩

theorem makeUnion_follows (place : Place) (known : type ∈ shop.schema.all) (p : Progress) :
    Leaves (makeUnion shop make busy place type) p fun n q =>
      Follows shop p q ∧ n.Untyped := by
  unfold makeUnion
  refine (create_follows shop (some place) (.union []) type p).bind ?_
  rintro node q ⟨⟨id, rfl⟩, follows⟩
  have members := fun key => unionMembers_lasts (follows_lasting shop) (typedefOf_follows standard sound makes busy)
    key _ fun t member => (subsWith_known known "type" t member).1
  refine (members _ q).bind ?_
  intro members r follows'
  exact .pure ⟨follows.trans follows', .intro rfl (by rintro c ⟨⟩)⟩

/-- A target is made unless it is being made already. -/
theorem makeReference_follows (place : Place) (type : Statement) (p : Progress) :
    Leaves (makeReference shop make busy place type) p fun made q => Follows shop p q ∧
      (made = none → ∀ target, shop.schema.targets.lookup type.id = some target → target ∈ busy) ∧
      ∀ r, made = some r → shop.schema.targets.lookup type.id = some r.statement ∧ r.statement ∉ busy ∧
        Traced shop (r.statement :: busy) r := by
  unfold makeReference
  cases found : (shop.schema.targets.lookup type.id).bind shop.schema.statement? with
  | none =>
    refine .pure ⟨.idle rfl, fun _ target isTarget => ?_, by simp⟩
    -- Every target is a statement, so that there is none here.
    obtain ⟨s, known, atId, -⟩ := sound.schema.targets _ (mem_of_lookup_eq_some isTarget)
    have stated := sound.schema.statement?_eq known
    rw [atId] at stated
    simp [isTarget, stated] at found
  | some target =>
    obtain ⟨known, isLeaf⟩ := target_spec sound found
    have isTarget : shop.schema.targets.lookup type.id = some target.id := by
      obtain ⟨id, listed, stated⟩ := Option.bind_eq_some_iff.1 found
      rw [listed, (Resolved.Sound.statement?_spec stated).2]
    have keyword : (schemaNode shop.schema target).keyword = target.keyword := by
      rw [SchemaNode.keyword, schemaNode_statement sound.schema known]
    obtain ⟨served, part⟩ := standard.lookup?_leaf isLeaf
    by_cases isBusy : busy.contains target.id = true
    · simp only [isBusy, if_true]
      refine (report_lasts (follows_lasting shop) _ _ _ p).bind fun _ q follows => .pure ?_
      refine ⟨follows, fun _ t other => ?_, by simp⟩
      cases isTarget.symm.trans other
      exact List.contains_iff_mem.1 isBusy
    · simp only [isBusy, Bool.false_eq_true, if_false]
      refine (makes (target.id :: busy) target.keyword _ place p keyword.symm
        (proper_schemaNode sound.schema known) (.inr (by rw [keyword, part]; decide))).mono ?_
      rintro made q ⟨follows, isServed, isMade⟩
      refine ⟨follows, fun isNone => ?_, fun r isSome => ?_⟩
      · rw [isNone] at isServed
        exact absurd (isServed served) (by simp)
      · have madeOf := isMade r isSome
        have statement : r.statement = target.id := by
          rw [madeOf.statement, SchemaNode.id, schemaNode_statement sound.schema known]
        rw [statement]
        exact ⟨isTarget, fun member => isBusy (List.contains_iff_mem.2 member), madeOf.traced _ (.inl rfl)⟩

end

/-- A node that has been given the type of its statement. -/
structure TypedFollowing (shop : Workshop) (busy : List Nat) (type : Statement) (p : Progress) (node n : Node)
    (q : Progress) : Prop where
  follows : Follows shop p q
  statement : n.statement = node.statement
  traced : ∀ busy', busy' = busy ∨ shop.schema.targets.lookup type.id = none → Traced shop busy' n

omit standard in
/-- A node whose type refers to no target is as it is, whatever targets are being made. -/
theorem TypedFollowing.of_unlinked (known : s ∈ shop.schema.all) (isType : s.sub? "type" = some type)
    (unlinked : shop.schema.targets.lookup type.id = none) {busy : List Nat} {p q : Progress}
    (follows : Follows shop p q) {node : Node} (statement : node.statement = s.id)
    (same : n.statement = node.statement) {t : Typing} (typing : n.typing = some t)
    (builtin : t.builtin = if isBuiltinType type.name then some type.name else none)
    (dataType : isBuiltinType type.name → t.dataType = some (shop.dataType type.name))
    (unfollowed : t.reference = none) (below : ∀ c ∈ n.owned, c.Untyped) (facets : t.Facets s type n.owned) :
    TypedFollowing shop busy type p node n q := by
  refine ⟨follows, same, fun busy' _ => .intro (.inr (.inl (by rw [typing]; rfl))) (fun t' typing' => ?_)
    fun c isOwned => .of_untyped (below c isOwned)⟩
  cases typing.symm.trans typing'
  refine ⟨s, known, same.trans statement, type, isType, builtin, dataType, fun _ target isTarget => ?_,
    fun id isFollowed => ?_, fun c isOwned => .inl (below c isOwned), facets⟩
  · cases unlinked.symm.trans isTarget
  · cases unfollowed.symm.trans isFollowed

omit standard in
theorem TypedFollowing.of_leafref (known : s ∈ shop.schema.all)
    (isType : s.sub? "type" = some type) (isLeafref : type.name = "leafref") {busy : List Nat} {p q : Progress}
    (follows : Follows shop p q) {node : Node} (statement : node.statement = s.id)
    (same : n.statement = node.statement) {t : Typing} (typing : n.typing = some t)
    (builtin : t.builtin = some "leafref") (dataType : t.dataType = some (shop.dataType "leafref"))
    {made : Option Node} (reference : t.reference = made.map (·.id)) (owned : n.owned = made.toList)
    (cut : made = none → ∀ target, shop.schema.targets.lookup type.id = some target → target ∈ busy)
    (isMade : ∀ r, made = some r → shop.schema.targets.lookup type.id = some r.statement ∧ r.statement ∉ busy ∧
      Traced shop (r.statement :: busy) r) (facets : t.Facets s type n.owned) :
    TypedFollowing shop busy type p node n q := by
  have isBuiltin : isBuiltinType type.name = true := by rw [isLeafref]; decide
  refine ⟨follows, same, fun busy' apart => ?_⟩
  have sameBusy : ∀ {target}, shop.schema.targets.lookup type.id = some target → busy = busy' := by
    intro target isTarget
    cases apart with
    | inl isBusy => exact isBusy.symm
    | inr unlinked => cases unlinked.symm.trans isTarget
  refine .intro (.inr (.inl (by rw [typing]; rfl))) (fun t' typing' => ?_) fun c isOwned => ?_
  · cases typing.symm.trans typing'
    refine ⟨s, known, same.trans statement, type, isType, by rw [if_pos isBuiltin, isLeafref, builtin],
      fun _ => by rw [isLeafref, dataType], fun notMade target isTarget => ?_, fun id isFollowed => ?_,
      fun c isOwned => ?_, facets⟩
    · have isNone : made = none := Option.map_eq_none_iff.1 (reference.symm.trans notMade)
      exact sameBusy isTarget ▸ cut isNone target isTarget
    · obtain ⟨r, isSome, rfl⟩ := Option.map_eq_some_iff.1 (reference.symm.trans isFollowed)
      obtain ⟨isTarget, notBusy, -⟩ := isMade r isSome
      exact ⟨r, by rw [owned, isSome]; rfl, rfl, isLeafref, isTarget, sameBusy isTarget ▸ notBusy⟩
    · rw [owned, Option.mem_toList] at isOwned
      rw [reference, isOwned]
      exact .inr rfl
  · rw [owned, Option.mem_toList] at isOwned
    obtain ⟨isTarget, -, traced⟩ := isMade c isOwned
    have pending : n.pending busy' c = c.statement :: busy' := by
      rw [Node.pending, Node.reference?, typing, Option.bind_some, reference, isOwned, Option.map_some, if_pos rfl]
    rw [pending]
    exact sameBusy isTarget ▸ traced

theorem makeType_follows (sound : shop.Sound) (refers : shop.schema.RefersFromLeafs)
    (makes : MakesFollowing shop make) (busy : List Nat) {node : Node} (bare : node.owned = [])
    (known : s ∈ shop.schema.all) (statement : node.statement = s.id) (isType : s.sub? "type" = some type)
    (p : Progress) : Leaves (makeType shop make busy node s type) p (TypedFollowing shop busy type p node) := by
  obtain ⟨sub, -⟩ := sub?_spec isType
  have typeKnown := Resolved.Sound.subs_known known sub
  have unlinked : type.name ≠ "leafref" → shop.schema.targets.lookup type.id = none := fun notLeafref =>
    Option.not_isSome_iff_eq_none.1 fun linked => notLeafref (refers s known type sub linked).2
  unfold makeType
  by_cases builtin : isBuiltinType type.name = true
  · have derived : ∀ {t : Typing}, isBuiltinType type.name = false → (t.dataType = none ↔ t.typedef = none) := by
      intro t notBuiltin
      cases builtin.symm.trans notBuiltin
    rw [if_pos builtin]
    by_cases isEnumeration : type.name = "enumeration"
    · simp only [isEnumeration]
      refine (makeEnumeration_follows standard sound makes busy node.place typeKnown p).bind ?_
      rintro n q ⟨follows, untyped, enumerates⟩
      refine .pure (.of_unlinked known isType (unlinked (by rw [isEnumeration]; decide)) follows statement rfl rfl
        (by rw [if_pos builtin, isEnumeration]) (fun _ => by rw [isEnumeration]) rfl
        (List.forall_mem_singleton.2 untyped) ⟨rfl, builtin.symm, derived, by rw [isEnumeration]; rfl, ?_,
          by rw [isEnumeration]; rfl, fun _ => ⟨rfl, rfl⟩⟩)
      rintro _ ⟨⟩
      exact ⟨n, List.mem_singleton_self n, rfl, enumerates⟩
    by_cases isUnion : type.name = "union"
    · simp only [isUnion]
      refine (makeUnion_follows standard sound makes busy node.place typeKnown p).bind ?_
      rintro n q ⟨follows, untyped⟩
      exact .pure (.of_unlinked known isType (unlinked (by rw [isUnion]; decide)) follows statement rfl rfl
        (by rw [if_pos builtin, isUnion]) (fun _ => by rw [isUnion]) rfl (List.forall_mem_singleton.2 untyped)
        ⟨rfl, builtin.symm, derived, by rw [isUnion]; rfl, nofun, by rw [isUnion]; rfl, fun _ => ⟨rfl, rfl⟩⟩)
    by_cases isLeafref : type.name = "leafref"
    · simp only [isLeafref]
      refine (makeReference_follows standard sound makes busy node.place type p).bind ?_
      rintro made q ⟨follows, cut, isMade⟩
      exact .pure (.of_leafref known isType isLeafref follows statement rfl rfl rfl rfl rfl rfl cut isMade
        ⟨rfl, builtin.symm, derived, by rw [isLeafref]; rfl, nofun, by rw [isLeafref]; rfl,
          fun other => absurd isLeafref other⟩)
    · simp only
      exact .pure (.of_unlinked known isType (unlinked isLeafref) (.idle rfl) statement rfl rfl
        (by rw [if_pos builtin]) (fun _ => rfl) rfl (by simp [bare])
        ⟨rfl, builtin.symm, derived, by simp [isEnumeration], nofun, by simp [isUnion], fun _ => ⟨rfl, rfl⟩⟩)
  · rw [if_neg builtin]
    have notLeafref : type.name ≠ "leafref" := fun isLeafref => builtin (by rw [isLeafref]; decide)
    refine (typedefOf_follows standard sound makes busy node.key type typeKnown p).bind ?_
    intro typedef q follows
    have other : ∀ name, isBuiltinType name = true → (type.name == name) = false := by
      rintro name isBuiltin
      exact beq_eq_false_iff_ne.2 fun same => builtin (same ▸ isBuiltin)
    exact .pure (.of_unlinked known isType (unlinked notLeafref) follows statement rfl rfl (by rw [if_neg builtin])
      (fun isBuiltin => absurd isBuiltin builtin) rfl (by simp [bare])
      ⟨rfl, (Bool.eq_false_iff.2 builtin).symm, fun _ => by simp, (other "enumeration" (by decide)).symm, nofun,
        (other "union" (by decide)).symm, fun _ => ⟨rfl, rfl⟩⟩)

/-! ## Making members -/

/-- A node that is given the type of its statement; only the type of a leaf refers to a target. -/
theorem makeTyping_follows (sound : shop.Sound) (refers : shop.schema.RefersFromLeafs)
    (makes : MakesFollowing shop make) (busy : List Nat) {node : Node} (bare : node.owned = [])
    (untyped : node.typing = none) (known : s ∈ shop.schema.all) (statement : node.statement = s.id) (p : Progress) :
    Leaves (makeTyping shop make busy node s) p fun n q => Follows shop p q ∧ n.statement = node.statement ∧
      ∀ busy', busy' = busy ∨ isLeafKeyword s.keyword = false → Traced shop busy' n := by
  unfold makeTyping
  cases isType : s.sub? "type" with
  | none => exact .pure ⟨.idle rfl, rfl, fun busy' _ => .of_untyped (.intro untyped (by simp [bare]))⟩
  | some type =>
    refine (makeType_follows standard sound refers makes busy bare known statement isType p).mono ?_
    rintro n q ⟨follows, same, traced⟩
    refine ⟨follows, same, fun busy' apart => traced busy' (apart.imp_right fun notLeaf => ?_)⟩
    refine Option.not_isSome_iff_eq_none.1 fun linked => ?_
    have isLeaf := (refers s known type (sub?_spec isType).1 linked).1
    rw [notLeaf] at isLeaf
    cases isLeaf

omit standard in
mutual
theorem construct_follows (standard : shop.Standard) (sound : shop.Sound) (refers : shop.schema.RefersFromLeafs)
    (makes : MakesFollowing shop make) (busy : List Nat) :
    ∀ (x : SchemaNode) (parent : Option Place) (p : Progress), Proper shop.schema x →
      busy = [] ∨ partOf (shop.constructorFor x.keyword) ≠ .members →
      Leaves (construct shop make busy parent (shop.constructorFor x.keyword) x) p
        fun n q => Follows shop p q ∧ MadeFollowing shop busy x n
  | ⟨statement, children, augment⟩, parent, p, proper, apart => by
    have known : statement ∈ shop.schema.all := proper.known
    rw [construct_eq]
    refine (create_follows shop parent _ statement p).bind ?_
    rintro node q ⟨⟨id, rfl⟩, follows⟩
    cases part : partOf (shop.constructorFor (SchemaNode.keyword ⟨statement, children, augment⟩)) with
    | nothing =>
      have untyped : (freshNode shop parent (kindOf (shop.constructorFor
        (SchemaNode.keyword ⟨statement, children, augment⟩)) statement) statement id).Untyped :=
        .intro rfl (by rintro c ⟨⟩)
      exact .pure ⟨follows, rfl, fun busy' _ => .of_untyped untyped, fun _ => untyped⟩
    | typing =>
      refine (makeTyping_follows standard sound refers makes busy rfl rfl known rfl q).mono ?_
      rintro n r ⟨follows', same, traced⟩
      refine ⟨follows.trans follows', same, fun busy' settled => traced busy' (settled.imp_right (·.1)), ?_⟩
      exact fun nothing => absurd (part.symm.trans nothing) (by decide)
    | members =>
      -- Nothing with members is made while a target is being made.
      obtain rfl := apart.resolve_right (not_not_intro part)
      simp only [makeMembers]
      refine (constructAll_follows standard sound refers makes children _ q ?_).bind ?_
      · cases proper with
        | intro _ _ tree below => exact fun c isChild => below c isChild
      rintro owned r ⟨follows', traced⟩
      have defines : Defines shop make [] (Follows shop) "grouping" := makeDefinition_follows sound makes (.inl rfl)
      refine (groupingsOf_lasts (follows_lasting shop) sound defines _ (memberUses_known sound proper) r).bind ?_
      intro used r' follows''
      refine .pure ⟨(follows.trans follows').trans follows'', rfl, fun busy' settled => ?_, ?_⟩
      · obtain rfl := settled.resolve_right fun settles => settles.2 part
        exact .of_members rfl traced
      · exact fun nothing => absurd (part.symm.trans nothing) (by decide)

/-- Nodes below a place are made while no target is being made. -/
theorem constructAll_follows (standard : shop.Standard) (sound : shop.Sound)
    (refers : shop.schema.RefersFromLeafs) (makes : MakesFollowing shop make) :
    ∀ (children : List SchemaNode) (place : Place) (p : Progress), (∀ c ∈ children, Proper shop.schema c) →
      Leaves (constructAll shop make [] place children) p fun nodes q =>
        Follows shop p q ∧ ∀ n ∈ nodes, Traced shop [] n
  | [], _, p, _ => by
    simp only [constructAll]
    exact .pure ⟨.idle rfl, by simp⟩
  | child :: rest, place, p, spec => by
    obtain ⟨proper, others⟩ := List.forall_mem_cons.1 spec
    rw [constructAll_cons]
    have here : Leaves (constructOne shop make [] place child) p fun nodes q =>
        Follows shop p q ∧ ∀ n ∈ nodes, Traced shop [] n := by
      unfold constructOne
      cases found : shop.backend.lookup? child.keyword with
      | none => exact (report_lasts (follows_lasting shop) _ _ _ p).bind fun _ q follows => .pure ⟨follows, by simp⟩
      | some constructor =>
        have constructed := construct_follows standard sound refers makes [] child (some place) p proper (.inl rfl)
        rw [Workshop.constructorFor, found] at constructed
        refine constructed.bind ?_
        rintro n q ⟨follows, made⟩
        exact .pure ⟨follows, List.forall_mem_singleton.2 (made.traced [] (.inl rfl))⟩
    refine here.bind ?_
    rintro made q ⟨follows, traced⟩
    refine (constructAll_follows standard sound refers makes rest place q others).bind ?_
    rintro others r ⟨follows', traced'⟩
    exact .pure ⟨follows.trans follows', List.forall_mem_append.2 ⟨traced, traced'⟩⟩
end

/-! ## Building a module -/

omit standard in
/-- A maker that answers with nodes of no type. -/
theorem makesFollowing_untyped (shop : Workshop) :
    MakesFollowing shop fun _ _ x place => pure (some (freshNode shop (some place) .leaf x.statement 0)) := by
  intro busy keyword x place p isKeyword proper apart
  refine .pure ⟨.idle rfl, fun _ => rfl, ?_⟩
  rintro n ⟨⟩
  have untyped : (freshNode shop (some place) .leaf x.statement 0).Untyped := .intro rfl (by rintro c ⟨⟩)
  exact ⟨rfl, fun busy' _ => .of_untyped untyped, fun _ => untyped⟩

theorem makeFrom_makesFollowing (sound : shop.Sound) (refers : shop.schema.RefersFromLeafs) {last : Maker}
    (makes : MakesFollowing shop last) : ∀ bound, MakesFollowing shop (makeFrom shop last bound)
  | 0 => makes
  | bound + 1 => by
    intro busy keyword x place p isKeyword proper apart
    subst isKeyword
    rw [makeFrom, makeStep]
    cases found : shop.backend.lookup? x.keyword with
    | none =>
      exact (report_lasts (follows_lasting shop) _ _ _ p).bind fun _ q follows => .pure ⟨follows, by simp, by simp⟩
    | some constructor =>
      have constructed := construct_follows standard sound refers
        (makeFrom_makesFollowing sound refers makes bound) busy x (some place) p proper apart
      rw [Workshop.constructorFor, found] at constructed
      refine constructed.map some ?_
      rintro n q ⟨follows, made⟩
      refine ⟨follows, fun _ => rfl, ?_⟩
      rintro n' ⟨⟩
      exact made

theorem buildRoot_follows (sound : shop.Sound) (refers : shop.schema.RefersFromLeafs)
    (makes : MakesFollowing shop make) {tree : SchemaNode} (proper : Proper shop.schema tree)
    (isModule : tree.keyword = "module") (p : Progress) :
    Leaves (buildRoot shop make tree) p fun root q => Follows shop p q ∧ Traced shop [] root := by
  have unreferenced : ∀ keyword, Keeps (Follows shop) (makeUnreferenced shop make keyword _) := fun _ =>
    makeUnreferenced_lasts (follows_lasting shop) sound (makeDefinition_follows sound makes (.inl rfl)) _
      (subsWith_known proper.known _)
  unfold buildRoot
  refine (report_lasts (follows_lasting shop) _ _ _ p).bind fun _ q₁ follows₁ => ?_
  have constructed := construct_follows standard sound refers makes [] tree none q₁ proper (.inl rfl)
  rw [isModule] at constructed
  refine constructed.bind ?_
  rintro root q₂ ⟨follows₂, made⟩
  refine (unreferenced "grouping" q₂).bind fun _ q₃ follows₃ => ?_
  refine (unreferenced "typedef" q₃).bind fun _ q₄ follows₄ => ?_
  exact .pure ⟨((follows₁.trans follows₂).trans follows₃).trans follows₄, made.traced [] (.inl rfl)⟩

end Steps

/-- The module and the definitions are made while no target is being made. -/
theorem build_traced {schema : Resolved} (sound : schema.Sound) (refers : schema.RefersFromLeafs)
    {backend : Backend} {m : String × SchemaNode} (isModule : m ∈ schema.modules)
    (standard : (shopOf schema backend m.2).Standard) :
    let model := (Module.build schema backend m.2).1
    ∀ n ∈ model.root :: model.definitions, Traced (shopOf schema backend m.2) [] n := by
  have shopSound : (shopOf schema backend m.2).Sound := ⟨sound, rfl⟩
  -- The bound on jumps is never reached, so that nothing is left unmade because of it.
  rw [← buildFrom_eq sound backend isModule
    fun _ _ x place => pure (some (freshNode (shopOf schema backend m.2) (some place) .leaf x.statement 0))]
  obtain ⟨-, ⟨definitions, atEnd, traced⟩, root⟩ := buildRoot_follows standard shopSound refers
    (makeFrom_makesFollowing standard shopSound refers (makesFollowing_untyped _) (jumpBound schema))
    (proper_of_module sound isModule) (sound.modules m isModule).2.1 ⟨1, [], [], [], []⟩
  rw [List.nil_append] at atEnd
  subst atEnd
  exact List.forall_mem_cons.2 ⟨root, traced⟩

end YangStubs.Model
