import YangStubs.Proofs.Text.Sorted
import YangStubs.Proofs.View.Presence

/-! # References between modules

An item refers to the nodes that its fields, bases, members or type are named after.  All of these are in the
model of the item, and what belongs to another module is imported from there under the name that it has here.
-/

namespace YangStubs.View

open YangStubs.Model
open YangStubs.Text (mem_sortedSet)

/-! ## What items refer to -/

mutual
/-- The nodes below a node that are its fields, where what is in choices and cases counts as well. -/
def fieldNodes : Node → List Node
  | ⟨_, _, _, _, _, _, _, _, _, _, _, members, _, owned⟩ =>
    fieldNodesAmong ((members.map (·.children)).getD []) owned

/-- The same among some nodes. -/
def fieldNodesAmong (children : List (String × Nat)) : List Node → List Node
  | [] => []
  | node :: rest =>
    (if children.any (·.2 == node.id) then
      if node.kind == .choice || node.kind == .case then fieldNodes node else [node]
    else []) ++ fieldNodesAmong children rest
end

namespace Lens

/-- The nodes that the type of a node is named after. -/
def typeReferences (lens : Lens) (node : Node) : List Node :=
  match node.referent.typing with
  | none => []
  | some typing =>
    match typing.form with
    | .enumeration | .union => [node.referent]
    | .typedefRef => (typing.typedef.bind lens.node?).toList
    | _ => []

/-- The nodes that a field is named after. -/
def fieldReferences (lens : Lens) (node : Node) : List Node :=
  match node.kind with
  | .leaf | .leafList => lens.typeReferences node
  | .container | .list _ => [node]
  | _ => []

/-- The nodes that the fields of a message are named after. -/
def messageReferences (lens : Lens) (node : Node) (message : String) : List Node :=
  (((node.child? message).bind lens.node?).toList.flatMap fieldNodes).flatMap lens.fieldReferences

/-- The groupings that a class has as bases. -/
def baseReferences (lens : Lens) (node : Node) : List Node :=
  ((node.members.map (·.uses)).getD []).filterMap fun used => lens.node? used.2

/-- The typedefs among the members of a union. -/
def memberReferences (lens : Lens) (members : List (String × MemberType)) : List Node :=
  members.flatMap fun member =>
    match member.2 with
    | .builtin _ => []
    | .typedef id => (lens.node? id).toList

/-- The nodes that the item of a node refers to. -/
def references (lens : Lens) (node : Node) : List Node :=
  match lens.entry? node with
  | some (.ofClass _) => (fieldNodes node).flatMap lens.fieldReferences ++ lens.baseReferences node
  | some (.ofRpc _) => lens.messageReferences node "input" ++ lens.messageReferences node "output"
  | some (.ofUnion _) =>
    match ((node.typing.bind (·.union)).bind lens.node?).map Node.kind with
    | some (.union members) => lens.memberReferences members
    | _ => []
  | some (.ofAlias _) => lens.typeReferences node
  | _ => []

end Lens

/-- What an item imports. -/
def Entry.imports : Entry → List String
  | ofClass item => item.imports
  | ofEnum _ => []
  | ofUnion item => item.imports
  | ofAlias item => item.imports
  | ofRpc item => item.imports

/-- The imports for some nodes: those of other modules. -/
def Lens.importsFor (lens : Lens) (nodes : List Node) : List String :=
  nodes.flatMap fun x => (lens.reference x).imports

theorem mem_importsFor {lens : Lens} {nodes : List Node} {path : String} :
    path ∈ lens.importsFor nodes ↔
      ∃ x ∈ nodes, x.home ≠ lens.home ∧ path = lens.naming.importPath x.home (lens.itemName x) := by
  simp only [Lens.importsFor, List.mem_flatMap, Lens.reference]
  refine exists_congr fun x => and_congr_right fun _ => ?_
  by_cases foreign : x.home = lens.home <;> simp [foreign]

section Imports

variable (lens : Lens)

theorem importsFor_append (left right : List Node) :
    lens.importsFor (left ++ right) = lens.importsFor left ++ lens.importsFor right :=
  List.flatMap_append

theorem typeName_imports (node : Node) :
    (lens.typeName node).imports = lens.importsFor (lens.typeReferences node) := by
  unfold Lens.typeName Lens.ownType Lens.typeReferences
  cases node.referent.typing with
  | none => rfl
  | some typing =>
    simp only
    cases typing.form with
    | typedefRef =>
      simp only
      cases typing.typedef.bind lens.node? <;> simp [Lens.importsFor]
    | _ => simp [Lens.importsFor]

theorem field_imports (optional : Bool) (node : Node) :
    (lens.field optional node).flatMap (·.imports) = lens.importsFor (lens.fieldReferences node) := by
  unfold Lens.field Lens.fieldReferences
  cases node.kind <;>
    simp only [List.flatMap_singleton, List.flatMap_nil, typeName_imports] <;> simp [Lens.importsFor]

mutual
theorem fields_imports (optional : Bool) :
    ∀ node : Node, (lens.fields optional node).flatMap (·.imports) =
      lens.importsFor ((fieldNodes node).flatMap lens.fieldReferences)
  | ⟨_, _, _, _, _, _, _, _, _, _, _, members, _, owned⟩ => by
    rw [Lens.fields, fieldNodes]
    exact fieldsAmong_imports optional _ owned

theorem fieldsAmong_imports (optional : Bool) (children : List (String × Nat)) :
    ∀ l : List Node, (lens.fieldsAmong optional children l).flatMap (·.imports) =
      lens.importsFor ((fieldNodesAmong children l).flatMap lens.fieldReferences)
  | [] => rfl
  | node :: rest => by
    have others := fieldsAmong_imports optional children rest
    rw [Lens.fieldsAmong, fieldNodesAmong]
    simp only [List.flatMap_append, importsFor_append, others]
    refine congrArg (· ++ _) ?_
    -- What a choice or a case brings are its own fields, so the two recursions go down together.
    by_cases isChild : children.any (·.2 == node.id) = true
    · by_cases isBranch : (node.kind == .choice || node.kind == .case) = true
      · simp only [isChild, isBranch, if_true]
        exact fields_imports true node
      · simp only [isChild, isBranch, if_true, if_false, Bool.false_eq_true]
        rw [List.flatMap_singleton]
        exact field_imports lens optional node
    · simp only [isChild, if_false, Bool.false_eq_true]
      rfl
end

theorem message_imports (node : Node) (message : String) :
    (match (node.child? message).bind lens.node? with
      | some child => lens.fieldList child
      | none => ⟨[], []⟩).imports = lens.importsFor (lens.messageReferences node message) := by
  unfold Lens.messageReferences
  cases (node.child? message).bind lens.node? with
  | none => rfl
  | some child =>
    rw [Option.toList_some, List.flatMap_singleton]
    exact fields_imports lens false child

theorem member_imports (name : String) (member : MemberType) :
    (lens.member name member).imports = lens.importsFor (lens.memberReferences [(name, member)]) := by
  cases member with
  | builtin dataType => rfl
  | typedef id =>
    simp only [Lens.member, Lens.memberReferences, List.flatMap_singleton]
    cases lens.node? id with
    | none => rfl
    | some typedef => exact (List.append_nil _).symm

theorem members_imports (members : List (String × MemberType)) :
    (members.map fun member => lens.member member.1 member.2).flatMap (·.imports) =
      lens.importsFor (lens.memberReferences members) := by
  induction members with
  | nil => rfl
  | cons member rest ih =>
    rw [List.map_cons, List.flatMap_cons, ih, member_imports, ← importsFor_append]
    simp [Lens.memberReferences]

/-- The item of a node is one of five. -/
theorem entry?_cases {node : Node} {e : Entry} (isEntry : lens.entry? node = some e) :
    e = .ofClass (lens.classOf node) ∨ e = .ofRpc (lens.rpcOf node) ∨
      (∃ enums, e = .ofEnum (lens.enumOf node enums)) ∨
      (∃ members, ((node.typing.bind (·.union)).bind lens.node?).map Node.kind = some (.union members) ∧
        e = .ofUnion (lens.unionOf node members)) ∨
      e = .ofAlias (lens.aliasOf node) := by
  -- Typedefs and leafs all have what their type defines.
  have ofType : ∀ {e}, lens.typeEntry? node = some e →
      (∃ enums, e = .ofEnum (lens.enumOf node enums)) ∨
      (∃ members, ((node.typing.bind (·.union)).bind lens.node?).map Node.kind = some (.union members) ∧
        e = .ofUnion (lens.unionOf node members)) ∨
      e = .ofAlias (lens.aliasOf node) := by
    intro e isType
    obtain ⟨t, typing, isType⟩ := Option.bind_eq_some_iff.1 isType
    split at isType
    · split at isType
      · exact .inl ⟨_, (Option.some.inj isType).symm⟩
      · cases isType
    · rename_i union _ isUnion
      split at isType
      · rename_i members found
        refine .inr (.inl ⟨members, ?_, (Option.some.inj isType).symm⟩)
        rw [typing, Option.bind_some, isUnion, Option.bind_some, found]
      · cases isType
    · split at isType
      · exact .inr (.inr (Option.some.inj isType).symm)
      · cases isType
  unfold Lens.entry? at isEntry
  split at isEntry
  all_goals first
    | exact .inl (Option.some.inj isEntry).symm
    | exact .inr (.inl (Option.some.inj isEntry).symm)
    | exact .inr (.inr (ofType isEntry))
    | cases isEntry

/-- An item imports what it refers to of other modules, and nothing else. -/
theorem mem_imports {node : Node} {e : Entry} (isEntry : lens.entry? node = some e) {path : String} :
    path ∈ e.imports ↔ ∃ x ∈ lens.references node,
      x.home ≠ lens.home ∧ path = lens.naming.importPath x.home (lens.itemName x) := by
  rw [← mem_importsFor, Lens.references]
  rcases entry?_cases lens isEntry with rfl | rfl | ⟨enums, rfl⟩ | ⟨members, found, rfl⟩ | rfl
  · simp only [isEntry, importsFor_append, Entry.imports, Lens.classOf, mem_sortedSet]
    show path ∈ (lens.fields false node).flatMap (·.imports) ++
      ((lens.baseReferences node).map lens.reference).flatMap (·.imports) ↔ _
    rw [fields_imports, List.flatMap_map]
    rfl
  · simp only [isEntry, importsFor_append, Entry.imports, Lens.rpcOf, mem_sortedSet]
    have input := message_imports lens node "input"
    have output := message_imports lens node "output"
    exact iff_of_eq (congrArg₂ (fun l r => path ∈ l ++ r) input output)
  · simp only [isEntry, Entry.imports, Lens.importsFor, List.flatMap_nil]
  · simp only [isEntry, found, Entry.imports, Lens.unionOf, mem_sortedSet, Needing.all, members_imports]
  · simp only [isEntry, Entry.imports, Lens.aliasOf, mem_sortedSet, typeName_imports]

end Imports

/-! ## Nodes that are referred to -/

section Model

variable {model : Module}

mutual
theorem referent_mem : ∀ node : Node, node ∈ model.listing → node.referent ∈ model.listing
  | ⟨_, _, _, _, _, _, _, _, _, _, _, _, typing, owned⟩, member => by
    have below := fun c (isOwned : c ∈ owned) => mem_listingOfAll_owned isOwned _ member
    rw [Node.referent]
    cases typing.bind (·.reference) with
    | none => exact member
    | some target =>
      simp only
      cases found : Node.referentIn? target owned with
      | none => exact member
      | some node => exact referentIn?_mem owned below found

theorem referentIn?_mem {target : Nat} {node : Node} : ∀ l : List Node,
    (∀ c ∈ l, c ∈ model.listing) → Node.referentIn? target l = some node → node ∈ model.listing
  | [], _, found => by cases found
  | c :: rest, inside, found => by
    rw [Node.referentIn?] at found
    split at found
    · cases found
      exact referent_mem c (inside c List.mem_cons_self)
    · exact referentIn?_mem rest (fun c member => inside c (List.mem_cons_of_mem _ member)) found
end

mutual
theorem fieldNodes_mem : ∀ node : Node, node ∈ model.listing → ∀ x ∈ fieldNodes node, x ∈ model.listing
  | ⟨_, _, _, _, _, _, _, _, _, _, _, members, _, owned⟩, member => by
    have below := fun c (isOwned : c ∈ owned) => mem_listingOfAll_owned isOwned _ member
    rw [fieldNodes]
    exact fieldNodesAmong_mem _ owned below

theorem fieldNodesAmong_mem (children : List (String × Nat)) : ∀ l : List Node,
    (∀ c ∈ l, c ∈ model.listing) → ∀ x ∈ fieldNodesAmong children l, x ∈ model.listing
  | [], _, _, isField => by cases isField
  | c :: rest, inside, x, isField => by
    have member := inside c List.mem_cons_self
    rw [fieldNodesAmong, List.mem_append] at isField
    cases isField with
    | inl here =>
      split at here
      · split at here
        · exact fieldNodes_mem c member x here
        · rw [List.mem_singleton.1 here]
          exact member
      · cases here
    | inr later =>
      exact fieldNodesAmong_mem children rest (fun c below => inside c (List.mem_cons_of_mem _ below)) x later
end

variable (backend : Backend)

theorem node?_mem {id : Nat} {x : Node} (found : (Lens.ofModule model backend).node? id = some x) :
    x ∈ model.listing :=
  List.mem_of_find?_eq_some found

theorem typeReferences_mem {node : Node} (member : node ∈ model.listing) :
    ∀ x ∈ (Lens.ofModule model backend).typeReferences node, x ∈ model.listing := by
  intro x refers
  unfold Lens.typeReferences at refers
  split at refers
  · cases refers
  · split at refers
    · rw [List.mem_singleton.1 refers]
      exact referent_mem node member
    · rw [List.mem_singleton.1 refers]
      exact referent_mem node member
    · obtain ⟨id, -, found⟩ := Option.bind_eq_some_iff.1 (Option.mem_toList.1 refers)
      exact node?_mem backend found
    · cases refers

theorem fieldReferences_mem {node : Node} (member : node ∈ model.listing) :
    ∀ x ∈ ((fieldNodes node).flatMap (Lens.ofModule model backend).fieldReferences), x ∈ model.listing := by
  intro x refers
  obtain ⟨field, isField, refers⟩ := List.mem_flatMap.1 refers
  have inside := fieldNodes_mem node member field isField
  unfold Lens.fieldReferences at refers
  split at refers
  · exact typeReferences_mem backend inside x refers
  · exact typeReferences_mem backend inside x refers
  · rw [List.mem_singleton.1 refers]
    exact inside
  · rw [List.mem_singleton.1 refers]
    exact inside
  · cases refers

theorem messageReferences_mem {node : Node} {message : String} :
    ∀ x ∈ (Lens.ofModule model backend).messageReferences node message, x ∈ model.listing := by
  intro x refers
  rw [Lens.messageReferences, List.flatMap_assoc] at refers
  obtain ⟨child, isChild, refers⟩ := List.mem_flatMap.1 refers
  obtain ⟨id, -, found⟩ := Option.bind_eq_some_iff.1 (Option.mem_toList.1 isChild)
  exact fieldReferences_mem backend (node?_mem backend found) x refers

theorem references_mem {node : Node} (member : node ∈ model.listing) :
    ∀ x ∈ (Lens.ofModule model backend).references node, x ∈ model.listing := by
  intro x refers
  unfold Lens.references at refers
  split at refers
  · cases List.mem_append.1 refers with
    | inl isField => exact fieldReferences_mem backend member x isField
    | inr isBase =>
      obtain ⟨used, -, found⟩ := List.mem_filterMap.1 isBase
      exact node?_mem backend found
  · cases List.mem_append.1 refers with
    | inl isInput => exact messageReferences_mem backend x isInput
    | inr isOutput => exact messageReferences_mem backend x isOutput
  · split at refers
    · obtain ⟨member, -, refers⟩ := List.mem_flatMap.1 refers
      split at refers
      · cases refers
      · exact node?_mem backend (Option.mem_toList.1 refers)
    · cases refers
  · exact typeReferences_mem backend member x refers
  · cases refers

end Model

end YangStubs.View
