import YangStubs.Proofs.Model.Coverage
import YangStubs.Proofs.View.Names

/-! # Names that are in a view

A node wants a name, or two, for its item.  Where items meet in a name, some other item has it, with one
exception: a procedure that gets one of its two names and not the other is not kept, and the name that it
got is lost to everyone.
-/

namespace YangStubs.View

open YangStubs.Model
open YangStubs.Schema (Library Resolved SchemaNode Source)

/-! ## Nodes of a model -/

theorem mem_listing_of_shown {m : Module} {n : Node} (shown : n ∈ shownNodes m) : n ∈ m.listing :=
  (nodes_perm m).subset (List.mem_filter.1 shown).1

section Kept

variable {shop : Workshop} {m : Module} (kept : m.Kept shop) (backend : Backend)
include kept

theorem node?_eq {n : Node} (member : n ∈ m.listing) : (Lens.ofModule m backend).node? n.id = some n :=
  Schema.find?_key_eq kept.ids_nodup member

theorem node?_owned {n c : Node} (member : n ∈ m.listing) (isOwned : c ∈ n.owned) :
    (Lens.ofModule m backend).node? c.id = some c :=
  node?_eq kept backend (mem_listingOfAll_owned isOwned _ member)

end Kept

/-! ## Names that nodes want -/

/-- The names that a node wants for its item: that of a class, those of two messages, or that of what its
    type defines.  A leaf defines only enumerations and unions. -/
def Lens.wanted (lens : Lens) (node : Node) : List String :=
  match node.kind with
  | .container | .list _ | .grouping | .case | .notification => [lens.naming.className node.name]
  | .rpc => Entry.messages (lens.naming.className node.name)
  | .typedef => if node.typing.isSome then [lens.itemName node] else []
  | .leaf | .leafList =>
    if node.typing.any fun t => t.enumeration.isSome || t.union.isSome then [lens.itemName node] else []
  | _ => []

section Wanted

variable {shop : Workshop} {m : Module} (kept : m.Kept shop) (backend : Backend)
include kept

/-- In a model as building leaves it, the type of a node defines something if it says so. -/
theorem typeEntry?_names {node : Node} (member : node ∈ m.listing) {t : Typing}
    (typing : node.typing = some t) :
    let lens := Lens.ofModule m backend
    if t.enumeration.isSome || t.union.isSome || node.kind == .typedef
    then ∃ e, lens.typeEntry? node = some e ∧ e.names = [lens.itemName node]
    else lens.typeEntry? node = none := by
  intro lens
  obtain ⟨s, -, -, shows⟩ := (kept.lawful node member).shows
  rw [Lens.typeEntry?, typing, Option.bind_some]
  cases isEnumeration : t.enumeration with
  | some i =>
    obtain ⟨c, isOwned, rfl, enums, kind⟩ := shows.types.enumeration t typing i isEnumeration
    have found := node?_owned kept backend member isOwned
    simp only [Option.isSome_some, Bool.true_or, if_true]
    refine ⟨.ofEnum (lens.enumOf node enums), ?_, rfl⟩
    rw [found, Option.map_some, kind]
  | none =>
    cases isUnion : t.union with
    | some i =>
      obtain ⟨c, isOwned, rfl, members, kind⟩ := shows.types.union t typing i isUnion
      have found := node?_owned kept backend member isOwned
      simp only [Option.isSome_none, Option.isSome_some, Bool.false_or, Bool.true_or, if_true]
      refine ⟨.ofUnion (lens.unionOf node members), ?_, rfl⟩
      rw [found, Option.map_some, kind]
    | none =>
      simp only [Option.isSome_none, Bool.false_or]
      split
      · exact ⟨.ofAlias (lens.aliasOf node), rfl, rfl⟩
      · rfl

/-- A node has an item exactly if it wants names, and the item takes these. -/
theorem entry?_names {node : Node} (member : node ∈ m.listing) :
    let lens := Lens.ofModule m backend
    ((lens.entry? node).map Entry.names).getD [] = lens.wanted node := by
  intro lens
  have ofType : ((lens.typeEntry? node).map Entry.names).getD [] =
      if node.typing.any fun t => t.enumeration.isSome || t.union.isSome || node.kind == .typedef
      then [lens.itemName node] else [] := by
    cases typing : node.typing with
    | none => simp [Lens.typeEntry?, typing]
    | some t =>
      have spec := typeEntry?_names kept backend member typing
      simp only [Option.any_some]
      split at spec
      · rename_i defines
        obtain ⟨e, isEntry, names⟩ := spec
        simp only [defines, if_true]
        rw [isEntry, Option.map_some, Option.getD_some, names]
      · rename_i defines
        simp only [defines]
        rw [spec]
        rfl
  unfold Lens.entry? Lens.wanted
  cases kind : node.kind with
  | typedef =>
    simp only
    rw [ofType, kind]
    cases node.typing <;> simp
  | leaf =>
    simp only
    rw [ofType, kind]
    cases node.typing <;> simp
  | leafList =>
    simp only
    rw [ofType, kind]
    cases node.typing <;> simp
  | _ => rfl

end Wanted

/-! ## Names that are lost -/

/-- A name that belongs to procedures although the procedure of that message has lost its other message. -/
def Stranded (items : List Entry) (x : String) : Prop :=
  holder? items x = some .rpcs ∧ ∃ rpc, x ∈ Entry.messages rpc ∧ ∃ y ∈ Entry.messages rpc, holder? items y ≠ some .rpcs

theorem exists_of_holder {items : List Entry} {x : String} {k : ItemKind}
    (holds : holder? items x = some k) : ∃ e ∈ items, x ∈ e.names ∧ e.kind = k := by
  obtain ⟨e, found, isKind⟩ := Option.map_eq_some_iff.1 holds
  have takes := List.find?_some found
  exact ⟨e, List.mem_of_find?_eq_some found, by simpa using takes, isKind⟩

/-- A name that is taken is in the view, unless it is stranded. -/
theorem Filled.mem_names_iff {items : List Entry} {d : Draft} (filled : Filled items d) {x : String}
    {k : ItemKind} (holds : holder? items x = some k) : x ∈ d.view.names ↔ ¬ Stranded items x := by
  rw [filled.mem_names]
  constructor
  · rintro ⟨e, ⟨before, after, split, first, own⟩, takes⟩ ⟨isRpcs, rpc, isMessage, y, isOther, lost⟩
    have isRpc : e.kind = .rpcs := Option.some.inj ((own x takes).symm.trans isRpcs)
    have names := Entry.names_of_rpc isRpc
    have same : rpc = e.name := eq_of_mem_messages isMessage (names ▸ takes)
    apply lost
    rw [← isRpc]
    exact own y (by rw [names, ← same]; exact isOther)
  · intro notStranded
    obtain ⟨e, member, takes, isKind⟩ := exists_of_holder holds
    -- The first item to take the name has all its names, so one of its kind and name is kept.
    have own : ∀ y ∈ e.names, holder? items y = some e.kind := by
      intro y takes'
      by_cases isRpc : e.kind = .rpcs
      · have names := Entry.names_of_rpc isRpc
        by_contra lost
        refine notStranded ⟨by rw [holds, ← isKind, isRpc], e.name, names ▸ takes, y, names ▸ takes', ?_⟩
        rw [isRpc] at lost
        exact lost
      · rw [Entry.name_eq_of_mem_names isRpc takes', ← Entry.name_eq_of_mem_names isRpc takes, holds, isKind]
    obtain ⟨first, prevails, sameKind, sameName⟩ := exists_prevails member own
    exact ⟨first, prevails, by rw [Entry.names_eq_of_kind_name sameKind sameName]; exact takes⟩

/-- In the view of a loaded module, a name that a node of the module wants is there exactly if it is not
    stranded. -/
theorem wanted_present_iff (texts : List String) (sources : List Source) (files : FileTree)
    (schema : Resolved)
    (resolved : ((Library.ofTexts texts).resolve sources files).result = .ok schema)
    (backend : Backend) (m : String × SchemaNode) (isModule : m ∈ schema.modules) :
    let model := (Module.build schema backend m.2).1
    let lens := Lens.ofModule model backend
    ∀ node ∈ shownNodes model, ∀ x ∈ lens.wanted node,
      x ∈ (ModuleItems.ofModule model backend).1.names ↔ ¬ Stranded (lens.entriesOf (shownNodes model)) x := by
  intro model lens node shown x wanted
  have sound := (Library.sound_ofTexts texts).schema_sound resolved
  have kept := build_kept sound backend isModule
  have names := entry?_names kept backend (mem_listing_of_shown shown)
  rw [← names] at wanted
  cases isEntry : lens.entry? node with
  | none => simp [lens, model, isEntry] at wanted
  | some e =>
    rw [isEntry] at wanted
    obtain ⟨k, holds⟩ := exists_holder (List.mem_filterMap.2 ⟨node, shown, isEntry⟩) wanted
    exact (draftOf_filled model backend (shownNodes model)).mem_names_iff holds

/-- A module with a procedure that gets the name of its input and not that of its output. -/
def halfNamedProcedure : String :=
  "<module name='m' xmlns='urn:ietf:params:xml:ns:yang:yin:1'><container name='r-output'/>" ++
  "<rpc name='r'/><container name='r-input'/></module>"

/-- The class of the last container is nowhere in the view, and nothing else of its name is. -/
theorem wanted_present_iff_halfNamedProcedure :
    ∃ schema m, ((Library.ofTexts [halfNamedProcedure]).resolve [] ⟨[]⟩).result = .ok schema ∧
      m ∈ schema.modules ∧
      (let model := (Module.build schema (.root 0) m.2).1
       let lens := Lens.ofModule model (.root 0)
       (∃ node ∈ shownNodes model, lens.wanted node = ["RInput"]) ∧
       (ModuleItems.ofModule model (.root 0)).1.names = ["ROutput"] ∧
       Stranded (lens.entriesOf (shownNodes model)) "RInput" ∧
       ¬ Stranded (lens.entriesOf (shownNodes model)) "ROutput") := by
  have names : (((Library.ofTexts [halfNamedProcedure]).resolve [] ⟨[]⟩).result.toOption.map
      fun schema => schema.modules.map fun m =>
        let model := (Module.build schema (.root 0) m.2).1
        ((shownNodes model).map (Lens.ofModule model (.root 0)).wanted,
          (ModuleItems.ofModule model (.root 0)).1.names)) =
      some [([["ROutput"], ["RInput", "ROutput"], ["RInput"]], ["ROutput"])] := by
    decide +kernel
  obtain ⟨schema, m, resolved, isModule, both⟩ := exists_module names
  obtain ⟨wanted, present⟩ := Prod.mk.inj both
  have iff := wanted_present_iff _ _ _ schema resolved (.root 0) m isModule
  simp only [present] at iff
  have wants : ∀ names ∈ [["ROutput"], ["RInput", "ROutput"], ["RInput"]],
      ∃ node ∈ shownNodes (Module.build schema (.root 0) m.2).1,
        (Lens.ofModule (Module.build schema (.root 0) m.2).1 (.root 0)).wanted node = names := by
    rw [← wanted]
    exact fun names member => List.mem_map.1 member
  obtain ⟨last, isLast, lastWants⟩ := wants ["RInput"] (by simp)
  obtain ⟨first, isFirst, firstWants⟩ := wants ["ROutput"] (by simp)
  refine ⟨schema, m, resolved, isModule, ⟨last, isLast, lastWants⟩, present, ?_, ?_⟩
  · have lost := iff last isLast "RInput" (by simp [lastWants])
    simpa using lost
  · exact (iff first isFirst "ROutput" (by simp [firstWants])).1 (by simp)

end YangStubs.View
