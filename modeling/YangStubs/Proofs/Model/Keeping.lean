import YangStubs.Proofs.Model.Coverage

/-! # References under the same name

A node keeps the groupings that it uses, and a union the typedefs among its members, by their names alone.  Of two
references in one node that are answered under the same name the later one stays; a reference is kept exactly if
the last answer under its name is its own.
-/

namespace YangStubs.Model

open YangStubs.Schema

variable {name : String} {d : Definition}

/-! ## Named values -/

section Named

variable {α : Type}

/-- The last value of a name. -/
def lastNamed? (name : String) (entries : List (String × α)) : Option α :=
  entries.reverse.lookup name

theorem lookup_putNamed (name other : String) (value : α) (l : List (String × α)) :
    (putNamed name value l).lookup other = if other == name then some value else l.lookup other := by
  induction l with
  | nil =>
    rw [putNamed, List.lookup_cons]
    split <;> simp_all
  | cons first rest ih =>
    obtain ⟨own, old⟩ := first
    rw [putNamed]
    split
    · rename_i isName
      rw [beq_iff_eq] at isName
      subst isName
      rw [List.lookup_cons, List.lookup_cons]
      cases other == own <;> rfl
    · rename_i notName
      rw [List.lookup_cons, ih, List.lookup_cons]
      cases isOwn : other == own with
      | false => rfl
      | true =>
        rw [beq_iff_eq] at isOwn
        subst isOwn
        simp only [if_neg notName]

theorem mem_names_putNamed {other : String} {value : α} {l : List (String × α)}
    (member : other ∈ (putNamed name value l).map (·.1)) : other = name ∨ other ∈ l.map (·.1) := by
  induction l with
  | nil => simpa [putNamed] using member
  | cons first rest ih =>
    rw [putNamed] at member
    split at member
    · simp only [List.map_cons, List.mem_cons] at member ⊢
      exact member.imp_right .inr
    · simp only [List.map_cons, List.mem_cons] at member ⊢
      rcases member with here | later
      · exact .inr (.inl here)
      · exact (ih later).imp_right .inr

theorem putNamed_nodup {l : List (String × α)} (nodup : (l.map (·.1)).Nodup) (name : String) (value : α) :
    ((putNamed name value l).map (·.1)).Nodup := by
  induction l with
  | nil => simp [putNamed]
  | cons first rest ih =>
    rw [List.map_cons, List.nodup_cons] at nodup
    rw [putNamed]
    split
    · rename_i isName
      rw [beq_iff_eq] at isName
      rw [List.map_cons, List.nodup_cons, ← isName]
      exact nodup
    · rename_i notName
      rw [List.map_cons, List.nodup_cons]
      refine ⟨fun member => ?_, ih nodup.2⟩
      exact (mem_names_putNamed member).elim (fun same => notName (beq_iff_eq.2 same)) nodup.1

theorem foldl_putNamed_nodup (entries : List (String × α)) :
    ∀ kept : List (String × α), (kept.map (·.1)).Nodup →
      ((entries.foldl (fun kept entry => putNamed entry.1 entry.2 kept) kept).map (·.1)).Nodup := by
  induction entries with
  | nil => exact fun kept nodup => nodup
  | cons entry rest ih => exact fun kept nodup => ih _ (putNamed_nodup nodup _ _)

theorem lookup_foldl_putNamed (name : String) (entries : List (String × α)) :
    ∀ kept : List (String × α),
      (entries.foldl (fun kept entry => putNamed entry.1 entry.2 kept) kept).lookup name =
        (lastNamed? name entries).or (kept.lookup name) := by
  induction entries with
  | nil => exact fun kept => by simp [lastNamed?]
  | cons entry rest ih =>
    intro kept
    rw [List.foldl_cons, ih, lookup_putNamed, lastNamed?, lastNamed?, List.reverse_cons, List.lookup_append,
      List.lookup_cons]
    -- a later value goes before this one, and this one before what was kept
    cases rest.reverse.lookup name <;> cases name == entry.1 <;> simp

theorem mem_lastOfEach {value : α} {entries : List (String × α)} :
    (name, value) ∈ lastOfEach entries ↔ lastNamed? name entries = some value := by
  have nodup : ((lastOfEach entries).map (·.1)).Nodup := foldl_putNamed_nodup entries [] List.nodup_nil
  have last : (lastOfEach entries).lookup name = lastNamed? name entries := by
    refine (lookup_foldl_putNamed name entries []).trans ?_
    rw [List.lookup_nil, Option.or_none]
  rw [← last]
  exact ⟨lookup_eq_some_of_mem nodup, mem_of_lookup_eq_some⟩

end Named

/-! ## References that are kept -/

/-- The groupings that a node uses, by name. -/
def Node.uses (n : Node) : List (String × Nat) :=
  (n.members.map (·.uses)).getD []

/-- Of the references in a node, the last one that is answered under the name of this one is answered the
    same. -/
def Prevails {α : Type} (answer : Statement → Option (String × α)) (references : List Statement)
    (reference : Statement) : Prop :=
  ∀ name value, answer reference = some (name, value) → lastNamed? name (references.filterMap answer) = some value

/-- The node that the ledger has for the grouping of a `uses` statement is among those that a node uses. -/
def Module.KeepsUses (shop : Workshop) (m : Module) (n : Node) (uses : Statement) : Prop :=
  ∃ d id, uses.grouping.bind shop.definition? = some d ∧ m.lookup? "grouping" d.key = some id ∧ id ∈ n.uses.map (·.2)

/-- The node that the ledger has for the typedef of a type is among the members of a union. -/
def Module.KeepsMember (shop : Workshop) (m : Module) (members : List (String × MemberType)) (type : Statement) :
    Prop :=
  ∃ d id, type.typedef.bind shop.definition? = some d ∧ m.lookup? "typedef" d.key = some id ∧
    .typedef id ∈ members.map (·.2)

section Kept

variable {shop : Workshop} {m : Module}

/-- Answers with the same node have the same name. -/
theorem Module.Kept.name_eq_of_answer (kept : m.Kept shop) {keyword : String} (shared : isShared keyword)
    {d' : Definition} {name' : String} {id : Nat} (answer : d.answer m.ledger keyword = some (name, id))
    (answer' : d'.answer m.ledger keyword = some (name', id)) : name = name' := by
  obtain ⟨e, entered, same⟩ := Option.map_eq_some_iff.1 answer
  obtain ⟨e', entered', same'⟩ := Option.map_eq_some_iff.1 answer'
  obtain ⟨inLedger, isKeyword, -⟩ := entered?_spec entered
  obtain ⟨inLedger', isKeyword', -⟩ := entered?_spec entered'
  obtain ⟨n, member, rfl⟩ := (kept.entry_mem_iff shared isKeyword).1 inLedger
  obtain ⟨n', member', rfl⟩ := (kept.entry_mem_iff shared isKeyword').1 inLedger'
  cases same
  obtain ⟨rfl, sameId⟩ := Prod.mk.inj same'
  rw [List.inj_on_of_nodup_map kept.ids_nodup member' member sameId]

theorem lookup?_of_answer {keyword : String} {id : Nat} (answer : d.answer m.ledger keyword = some (name, id)) :
    m.lookup? keyword d.key = some id := by
  obtain ⟨e, entered, same⟩ := Option.map_eq_some_iff.1 answer
  cases same
  rw [Module.lookup?, entered, Option.map_some]

theorem answer_of_lookup? {keyword : String} {id : Nat} (found : m.lookup? keyword d.key = some id) :
    ∃ name, d.answer m.ledger keyword = some (name, id) := by
  obtain ⟨e, entered, rfl⟩ := Option.map_eq_some_iff.1 found
  exact ⟨e.name, by rw [Definition.answer, entered, Option.map_some]⟩

theorem mem_of_mem_lastOfEach {α : Type} {value : α} {answer : Statement → Option (String × α)}
    {references : List Statement} (member : (name, value) ∈ lastOfEach (references.filterMap answer)) :
    ∃ r ∈ references, answer r = some (name, value) := by
  have last := mem_of_lookup_eq_some (mem_lastOfEach.1 member)
  exact List.mem_filterMap.1 (List.mem_reverse.1 last)

theorem Module.Kept.keepsUses_iff (kept : m.Kept shop) {n : Node} {s u : Statement}
    (records : Records shop m.ledger s n) (lists : Lists shop m.ledger s n)
    (served : (shop.backend.lookup? "grouping").isSome) (isUses : u ∈ shop.usesOf s)
    (linked : u.grouping.bind shop.definition? = some d) :
    m.KeepsUses shop n u ↔ n.members.isSome ∧ Prevails (shop.usedIn m.ledger) (shop.usesOf s) u := by
  have answered : shop.usedIn m.ledger u = d.answer m.ledger "grouping" := by
    rw [Workshop.usedIn, linked, Option.bind_some]
  constructor
  · rintro ⟨d', id, linked', found, listed⟩
    cases linked.symm.trans linked'
    obtain ⟨⟨name', _⟩, member, rfl⟩ := List.mem_map.1 listed
    unfold Node.uses at member
    cases isOpen : n.members with
    | none => simp [isOpen] at member
    | some members =>
      rw [isOpen, Option.map_some, Option.getD_some, records.uses members isOpen] at member
      refine ⟨rfl, fun name value answer => ?_⟩
      obtain ⟨own, answer'⟩ := answer_of_lookup? found
      cases (answered.symm.trans answer).symm.trans answer'
      -- The name that the node stands under is that of its entry.
      obtain ⟨u', -, kept'⟩ := mem_of_mem_lastOfEach member
      obtain ⟨d', -, answer''⟩ := Option.bind_eq_some_iff.1 kept'
      rw [kept.name_eq_of_answer (by decide) answer' answer'']
      exact mem_lastOfEach.1 member
  · rintro ⟨isOpen, prevails⟩
    obtain ⟨e, entered⟩ := Option.isSome_iff_exists.1 (lists.uses isOpen u isUses d linked served)
    have answer : d.answer m.ledger "grouping" = some (e.name, e.node) := by
      rw [Definition.answer, entered, Option.map_some]
    obtain ⟨members, isMembers⟩ := Option.isSome_iff_exists.1 isOpen
    have last := mem_lastOfEach.2 (prevails _ _ (answered.trans answer))
    rw [← records.uses members isMembers] at last
    refine ⟨d, e.node, linked, lookup?_of_answer answer, ?_⟩
    rw [Node.uses, isMembers]
    exact List.mem_map_of_mem last

theorem Module.Kept.keepsMember_iff (kept : m.Kept shop) {n : Node} {s t : Statement}
    (records : Records shop m.ledger s n) (lists : Lists shop m.ledger s n)
    (served : (shop.backend.lookup? "typedef").isSome) {members : List (String × MemberType)}
    (isUnion : n.kind = .union members) (isMember : t ∈ s.subsWith "type") (derived : isBuiltinType t.name = false)
    (linked : t.typedef.bind shop.definition? = some d) :
    m.KeepsMember shop members t ↔ Prevails (shop.memberIn m.ledger) (s.subsWith "type") t := by
  have answered : shop.memberIn m.ledger t =
      (d.answer m.ledger "typedef").map fun answer => (answer.1, .typedef answer.2) := by
    rw [Workshop.memberIn, derived, Workshop.typedefIn, linked, Option.bind_some]
    rfl
  constructor
  · rintro ⟨d', id, linked', found, listed⟩
    cases linked.symm.trans linked'
    obtain ⟨⟨name', _⟩, member, rfl⟩ := List.mem_map.1 listed
    rw [records.union members isUnion] at member
    intro name value answer
    obtain ⟨own, answer'⟩ := answer_of_lookup? found
    rw [answered, answer'] at answer
    cases answer
    obtain ⟨t', -, kept'⟩ := mem_of_mem_lastOfEach member
    unfold Workshop.memberIn at kept'
    split at kept'
    · cases kept'
    · obtain ⟨⟨other, id'⟩, isTypedef, same⟩ := Option.map_eq_some_iff.1 kept'
      cases same
      obtain ⟨d', -, answer''⟩ := Option.bind_eq_some_iff.1 isTypedef
      rw [kept.name_eq_of_answer (by decide) answer' answer'']
      exact mem_lastOfEach.1 member
  · intro prevails
    have listed := lists.members members isUnion t isMember derived
    obtain ⟨e, entered⟩ := Option.isSome_iff_exists.1 (listed d linked served)
    have answer : d.answer m.ledger "typedef" = some (e.name, e.node) := by
      rw [Definition.answer, entered, Option.map_some]
    have last := mem_lastOfEach.2 (prevails e.name (.typedef e.node) (by rw [answered, answer, Option.map_some]))
    rw [← records.union members isUnion] at last
    exact ⟨d, e.node, linked, lookup?_of_answer answer, List.mem_map_of_mem last⟩

end Kept

theorem usesOf_keyword {shop : Workshop} {s u : Statement} (isUses : u ∈ shop.usesOf s) : u.keyword = "uses" := by
  rcases List.mem_append.1 isUses with own | augmented
  · exact (mem_subsWith own).2
  · obtain ⟨augment, -, inAugment⟩ := List.mem_flatMap.1 augmented
    unfold Workshop.augmentUses at inAugment
    cases found : shop.schema.augments.find? (·.id == augment) with
    | none => simp [found] at inAugment
    | some a =>
      rw [found, Option.map_some, Option.getD_some] at inAugment
      exact (mem_subsWith inAugment).2

theorem Workshop.Sound.exists_definition_of_uses {shop : Workshop} (sound : shop.Sound) {u : Statement}
    (known : u ∈ shop.schema.all) (keyword : u.keyword = "uses") :
    ∃ d, u.grouping.bind shop.definition? = some d := by
  obtain ⟨s, inForest, isGrouping, linked⟩ := (sound.schema.refers u known).uses keyword
  have listed : s ∈ shop.definitions.map (·.node.statement) := by
    rw [sound.statements]
    exact List.mem_filter.2 ⟨inForest, by rw [isGrouping]; rfl⟩
  obtain ⟨d, member, rfl⟩ := List.mem_map.1 listed
  exact ⟨d, by rw [linked]; exact sound.definition?_eq_some.2 ⟨member, rfl⟩⟩

/-- In the model of a loaded module, a node keeps what it uses, and a union its members, exactly as far as no
    later reference in it is answered under the same name with something else. -/
theorem build_keeps_iff (texts : List String) (sources : List Source) (files : FileTree) (schema : Resolved)
    (resolved : ((Library.ofTexts texts).resolve sources files).result = .ok schema) (serial : Nat)
    (m : String × SchemaNode) (isModule : m ∈ schema.modules) :
    let shop := shopOf schema (.root serial) m.2
    let model := (Module.build schema (.root serial) m.2).1
    ∀ n ∈ model.listing, ∀ s, schema.statement? n.statement = some s →
      (∀ u ∈ shop.usesOf s, model.KeepsUses shop n u ↔
        n.members.isSome ∧ Prevails (shop.usedIn model.ledger) (shop.usesOf s) u) ∧
      ∀ members, n.kind = .union members → ∀ t ∈ s.subsWith "type", isBuiltinType t.name = false →
        (t.typedef.bind shop.definition?).isSome →
        (model.KeepsMember shop members t ↔ Prevails (shop.memberIn model.ledger) (s.subsWith "type") t) := by
  intro shop model n inListing s isOf
  have sound := (Library.sound_ofTexts texts).schema_sound resolved
  have shopSound : shop.Sound := ⟨sound, rfl⟩
  have kept := build_kept sound (.root serial) isModule
  obtain ⟨known, atId⟩ := Resolved.Sound.statement?_spec isOf
  obtain ⟨records, -, lists⟩ := lawful_of_statement sound (.root serial) isModule inListing known atId.symm
  constructor
  · intro u isUses
    obtain ⟨d, linked⟩ := shopSound.exists_definition_of_uses (usesOf_known shopSound known u isUses)
      (usesOf_keyword isUses)
    exact kept.keepsUses_iff records lists rfl isUses linked
  · intro members isUnion t isMember derived isLinked
    obtain ⟨d, linked⟩ := Option.isSome_iff_exists.1 isLinked
    exact kept.keepsMember_iff records lists rfl isUnion isMember derived linked

/-- Modules `a` and `b` with a grouping `g` each, and a module that uses both in one container. -/
def namesakes : List String :=
  let start (name : String) : String :=
    "<module name='" ++ name ++ "' xmlns='urn:ietf:params:xml:ns:yang:yin:1'><prefix value='" ++ name ++ "'/>"
  [start "m" ++ "<import module='a'><prefix value='a'/></import><import module='b'><prefix value='b'/></import>" ++
    "<container name='c'><uses name='a:g'/><uses name='b:g'/></container></module>",
   start "a" ++ "<grouping name='g'/></module>", start "b" ++ "<grouping name='g'/></module>"]

/-- A node and a `uses` statement of it that is answered, and under the same name another one after it. -/
def Module.loses (shop : Workshop) (m : Module) (name : String) (id last : Nat) (n : Node) : Bool :=
  n.uses == [(name, last)] && (shop.schema.statement? n.statement).any fun s =>
    (shop.usesOf s).any fun u => shop.usedIn m.ledger u == some (name, id) &&
      lastNamed? name ((shop.usesOf s).filterMap (shop.usedIn m.ledger)) == some last

/-- The grouping of the first module is not among those that the container uses. -/
theorem build_keeps_iff_namesakes :
    ∃ schema m, ((Library.ofTexts namesakes).resolve [] ⟨[]⟩).result = .ok schema ∧ m ∈ schema.modules ∧
      (let shop := shopOf schema (.root 0) m.2
       let model := (Module.build schema (.root 0) m.2).1
       model.ledgerOf "grouping" = [("a/g", 3), ("b/g", 4)] ∧
         ∃ n ∈ model.listing, n.uses = [("g", 4)] ∧ ∃ s, schema.statement? n.statement = some s ∧
           ∃ u ∈ shop.usesOf s, shop.usedIn model.ledger u = some ("g", 3) ∧ ¬ model.KeepsUses shop n u) := by
  have outcome : ((Library.ofTexts namesakes).resolve [] ⟨[]⟩).result.toOption.any (fun schema =>
      schema.modules.any fun m => m.1 == "m" &&
        let shop := shopOf schema (.root 0) m.2
        let model := (Module.build schema (.root 0) m.2).1
        model.ledgerOf "grouping" == [("a/g", 3), ("b/g", 4)] && model.listing.any (model.loses shop "g" 3 4)) =
      true := by
    decide +kernel
  obtain ⟨schema, resolved, found⟩ := exists_ok outcome
  simp only [List.any_eq_true, Bool.and_eq_true, beq_iff_eq, Module.loses, Option.any_eq_true] at found
  obtain ⟨m, isModule, -, ledger, n, inListing, uses, s, isOf, u, isUses, answer, last⟩ := found
  have iff := (build_keeps_iff _ _ _ schema resolved 0 m isModule n inListing s isOf).1 u isUses
  refine ⟨schema, m, resolved, isModule, ledger, n, inListing, uses, s, isOf, u, isUses, answer, fun keeps => ?_⟩
  have prevails := (iff.1 keeps).2 "g" 3 answer
  exact absurd (Option.some.inj (prevails.symm.trans last)) (by decide)

end YangStubs.Model
