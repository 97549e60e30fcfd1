import YangStubs.Proofs.Model.Module

/-! # Sharing of definitions

A reference to a grouping or typedef is answered with the node that the ledger has under the key of the
definition.  The key is made of names, so the node may be that of another definition: references are
answered with what they refer to exactly if no two definitions that the model has to do with have the same
key.
-/

namespace YangStubs.Model

open YangStubs.Schema

/-! ## References and answers -/

/-- The answer to a reference to the definition with that statement. -/
def Workshop.answer? (shop : Workshop) (ledger : List LedgerEntry) (keyword : String) (link : Nat) :
    Option (String × Nat) :=
  (shop.definition? link).bind (Definition.answer ledger keyword)

/-- A node refers to the definition with that statement: by a `uses` statement, by its type, or by the type
    of a union's member. -/
inductive Asks (shop : Workshop) (n : Node) : String → Nat → Prop
  | uses {s u : Statement} {link : Nat} (isOf : shop.schema.statement? n.statement = some s)
      (members : n.members.isSome) (isUses : u ∈ shop.usesOf s) (linked : u.grouping = some link) :
      Asks shop n "grouping" link
  | type {s t : Statement} {link : Nat} (isOf : shop.schema.statement? n.statement = some s)
      (typing : n.typing.isSome) (isType : s.sub? "type" = some t)
      (derived : isBuiltinType t.name = false) (linked : t.typedef = some link) :
      Asks shop n "typedef" link
  | member {s t : Statement} {members : List (String × MemberType)} {link : Nat}
      (isOf : shop.schema.statement? n.statement = some s) (union : n.kind = .union members)
      (isType : t ∈ s.subsWith "type") (derived : isBuiltinType t.name = false)
      (linked : t.typedef = some link) : Asks shop n "typedef" link

namespace Module

/-- Every reference that is answered is answered with the node of what it refers to. -/
def SharesSoundly (shop : Workshop) (m : Module) : Prop :=
  ∀ n ∈ m.listing, ∀ keyword link, Asks shop n keyword link →
    ∀ name id, shop.answer? m.ledger keyword link = some (name, id) → ∃ w ∈ m.listing, w.id = id ∧ w.statement = link

/-- The model has to do with a definition: a reference to it is answered, or it has a node. -/
def Meets (shop : Workshop) (m : Module) (d : Definition) : Prop :=
  (∃ n ∈ m.listing, Asks shop n d.node.keyword d.node.id ∧ (shop.answer? m.ledger d.node.keyword d.node.id).isSome) ∨
  ∃ n ∈ m.listing, n.keyword = d.node.keyword ∧ n.statement = d.node.id

/-- The definitions that the model has to do with are told apart by their keys. -/
def KeysDiffer (shop : Workshop) (m : Module) : Prop :=
  ∀ d ∈ shop.definitions, ∀ d' ∈ shop.definitions, m.Meets shop d → m.Meets shop d' →
    d.node.keyword = d'.node.keyword → d.key = d'.key → d.node.id = d'.node.id

end Module

section Kept

variable {shop : Workshop} {m : Module}

theorem answer?_of_mem (sound : shop.Sound) {d : Definition} (member : d ∈ shop.definitions)
    (ledger : List LedgerEntry) (keyword : String) :
    shop.answer? ledger keyword d.node.id = (entered? keyword d.key ledger).map fun e => (e.name, e.node) := by
  rw [Workshop.answer?, sound.definition?_eq_some.2 ⟨member, rfl⟩]
  rfl

/-- A reference leads to a definition of its keyword. -/
theorem Asks.keyword (sound : shop.Sound) {n : Node} {keyword : String} {link : Nat}
    (asks : Asks shop n keyword link) {d : Definition} (found : shop.definition? link = some d) :
    d.node.keyword = keyword := by
  have known : ∀ {s : Statement}, shop.schema.statement? n.statement = some s → s ∈ shop.schema.all :=
    fun isOf => (Resolved.Sound.statement?_spec isOf).1
  cases asks with
  | uses isOf members isUses linked =>
    exact (sound.grouping_of_uses (usesOf_known sound (known isOf) _ isUses) (by rw [linked]; exact found)).2
  | type isOf typing isType derived linked =>
    exact (sound.typedef_of_type (Resolved.Sound.subs_known (known isOf) (sub?_spec isType).1)
      (by rw [linked]; exact found)).2
  | member isOf union isType derived linked =>
    exact (sound.typedef_of_type (Resolved.Sound.subs_known (known isOf) (mem_subsWith isType).1)
      (by rw [linked]; exact found)).2

/-- Where references are answered soundly, a definition that is met has the node under its key. -/
theorem Module.Kept.node_of_meets (sound : shop.Sound) (kept : m.Kept shop)
    (soundly : m.SharesSoundly shop) {d : Definition} (isDefinition : d ∈ shop.definitions)
    (meets : m.Meets shop d) :
    ∃ w ∈ m.listing, w.statement = d.node.id ∧ entered? d.node.keyword d.key m.ledger = some w.entry := by
  have shared := (sound.mem_definitions isDefinition).2.1
  rcases meets with ⟨n, member, asks, answered⟩ | ⟨n, member, keyword, statement⟩
  · -- The entry of the answer belongs to one node, and soundness says whose that is.
    obtain ⟨⟨name, id⟩, answer⟩ := Option.isSome_iff_exists.1 answered
    obtain ⟨w, inListing, atId, wraps⟩ := soundly n member _ _ asks name id answer
    rw [answer?_of_mem sound isDefinition] at answer
    obtain ⟨e, found, same⟩ := Option.map_eq_some_iff.1 answer
    obtain ⟨inLedger, isKeyword, -⟩ := entered?_spec found
    obtain ⟨n', inListing', rfl⟩ := (kept.entry_mem_iff shared isKeyword).1 inLedger
    have sameNode : n' = w :=
      List.inj_on_of_nodup_map kept.ids_nodup inListing' inListing ((Prod.mk.inj same).2.trans atId.symm)
    exact ⟨w, inListing, wraps, sameNode ▸ found⟩
  · -- A node of the definition has its key, so its own entry is the one that is found.
    obtain ⟨d', isDefinition', atId, key, -⟩ := kept.definition sound member (keyword ▸ shared)
    have same : d' = d := sound.eq_of_id_eq isDefinition' isDefinition (atId.trans statement)
    have inLedger := (kept.entry_mem_iff shared keyword).2 ⟨n, member, rfl⟩
    have found := kept.steady.entered?_eq inLedger
    refine ⟨n, member, statement, ?_⟩
    rw [← same, key, same, ← keyword]
    exact found

theorem Module.Kept.keysDiffer_of_sharesSoundly (sound : shop.Sound) (kept : m.Kept shop)
    (soundly : m.SharesSoundly shop) : m.KeysDiffer shop := by
  intro d isDefinition d' isDefinition' meets meets' sameKeyword sameKey
  obtain ⟨w, inListing, wraps, found⟩ := kept.node_of_meets sound soundly isDefinition meets
  obtain ⟨w', inListing', wraps', found'⟩ := kept.node_of_meets sound soundly isDefinition' meets'
  rw [sameKeyword, sameKey, found'] at found
  have sameId : w'.id = w.id := congrArg LedgerEntry.node (Option.some.inj found)
  have same := List.inj_on_of_nodup_map kept.ids_nodup inListing' inListing sameId
  rw [← wraps, ← wraps', same]

theorem Module.Kept.sharesSoundly_of_keysDiffer (sound : shop.Sound) (kept : m.Kept shop)
    (differ : m.KeysDiffer shop) : m.SharesSoundly shop := by
  intro n member keyword link asks name id answer
  obtain ⟨d, found, answered⟩ := Option.bind_eq_some_iff.1 answer
  obtain ⟨isDefinition, rfl⟩ := sound.definition?_eq_some.1 found
  have isKeyword := asks.keyword sound found
  subst isKeyword
  have shared := (sound.mem_definitions isDefinition).2.1
  obtain ⟨e, entered, same⟩ := Option.map_eq_some_iff.1 answered
  obtain ⟨inLedger, sameKeyword, sameKey⟩ := entered?_spec entered
  obtain ⟨w, inListing, rfl⟩ := (kept.entry_mem_iff shared sameKeyword).1 inLedger
  have wKeyword : w.keyword = d.node.keyword := sameKeyword
  obtain ⟨d', isDefinition', atId, key, keyword'⟩ := kept.definition sound inListing (wKeyword ▸ shared)
  have meets : m.Meets shop d := .inl ⟨n, member, asks, by rw [answer]; rfl⟩
  have meets' : m.Meets shop d' := .inr ⟨w, inListing, keyword'.symm, atId.symm⟩
  refine ⟨w, inListing, (Prod.mk.inj same).2, ?_⟩
  rw [← atId]
  exact differ d' isDefinition' d isDefinition meets' meets (keyword'.trans wKeyword) (key.trans sameKey)

end Kept

/-- Some `uses` statement is answered with a node of another statement than its grouping. -/
def Module.misanswers (shop : Workshop) (m : Module) : Bool :=
  m.listing.any fun n => n.members.isSome && (shop.schema.statement? n.statement).any fun s =>
    (shop.usesOf s).any fun u => u.grouping.any fun link =>
      (shop.answer? m.ledger "grouping" link).any fun answer =>
        m.listing.all fun w => w.id != answer.2 || w.statement != link

theorem Module.not_sharesSoundly_of_misanswers {shop : Workshop} {m : Module}
    (misanswers : m.misanswers shop) : ¬ m.SharesSoundly shop := by
  intro soundly
  simp only [Module.misanswers, List.any_eq_true, Bool.and_eq_true, Option.any_eq_true] at misanswers
  obtain ⟨n, member, members, s, isOf, u, isUses, link, linked, ⟨name, id⟩, answer, other⟩ := misanswers
  obtain ⟨w, inListing, atId, wraps⟩ :=
    soundly n member "grouping" link (.uses isOf members isUses linked) name id answer
  have differs := List.all_eq_true.1 other w inListing
  simp [atId, wraps] at differs

/-- In the model of a loaded module, every node records the answers to its references, and all references
    are answered with what they refer to exactly if the definitions that the model has to do with are told
    apart by their keys. -/
theorem build_sharesSoundly_iff (texts : List String) (sources : List Source) (files : FileTree)
    (schema : Resolved)
    (resolved : ((Library.ofTexts texts).resolve sources files).result = .ok schema)
    (backend : Backend) (m : String × SchemaNode) (isModule : m ∈ schema.modules) :
    let shop := shopOf schema backend m.2
    let model := (Module.build schema backend m.2).1
    (∀ n ∈ model.listing, ∃ s, schema.statement? n.statement = some s ∧
        Records shop model.ledger s n) ∧
      (model.SharesSoundly shop ↔ model.KeysDiffer shop) := by
  have sound := (Library.sound_ofTexts texts).schema_sound resolved
  have shopSound : (shopOf schema backend m.2).Sound := ⟨sound, rfl⟩
  have kept := build_kept sound backend isModule
  refine ⟨?_, kept.keysDiffer_of_sharesSoundly shopSound, kept.sharesSoundly_of_keysDiffer shopSound⟩
  intro n member
  obtain ⟨s, known, atId, -, records⟩ := (kept.lawful n member).records
  exact ⟨s, by rw [atId]; exact sound.statement?_eq known, records⟩

/-- A module with two groupings `g`, each in a container `x`, and both used. -/
def twinGroupings : String :=
  "<module name='m' xmlns='urn:ietf:params:xml:ns:yang:yin:1'>" ++
  "<container name='x'><grouping name='g'/><uses name='g'/></container><container name='y'>" ++
  "<container name='x'><grouping name='g'/><uses name='g'/></container></container></module>"

/-- The two groupings have one key, and both are used as the first of them. -/
theorem build_sharesSoundly_iff_twinGroupings :
    ∃ schema m, ((Library.ofTexts [twinGroupings]).resolve [] ⟨[]⟩).result = .ok schema ∧
      m ∈ schema.modules ∧
      (let shop := shopOf schema (.root 0) m.2
       let model := (Module.build schema (.root 0) m.2).1
       ¬ model.SharesSoundly shop ∧ ¬ model.KeysDiffer shop ∧ model.ledgerOf "grouping" = [("x/g", 3)]) := by
  have outcome : (((Library.ofTexts [twinGroupings]).resolve [] ⟨[]⟩).result.toOption.map
      fun schema => schema.modules.map fun m =>
        let model := (Module.build schema (.root 0) m.2).1
        (model.misanswers (shopOf schema (.root 0) m.2), model.ledgerOf "grouping")) =
      some [(true, [("x/g", 3)])] := by
    decide +kernel
  obtain ⟨schema, m, resolved, isModule, model⟩ := exists_module outcome
  obtain ⟨misanswers, ledger⟩ := Prod.mk.inj model
  have iff := (build_sharesSoundly_iff _ _ _ schema resolved (.root 0) m isModule).2
  have unsound := Module.not_sharesSoundly_of_misanswers misanswers
  exact ⟨schema, m, resolved, isModule, unsound, fun differ => unsound (iff.2 differ), ledger⟩

end YangStubs.Model
