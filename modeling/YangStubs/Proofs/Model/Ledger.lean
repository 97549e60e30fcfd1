import YangStubs.Proofs.Model.Definitions

/-! # What building adds

Building makes nodes, numbers them without gaps and enters them into the ledger.  `Grown` says what a part
of the work has added; parts that follow each other add up.  A shared definition has one entry for each
node, and no two entries have the same keyword and key.
-/

namespace YangStubs.Model

open YangStubs.Schema

/-! ## Finding entries -/

/-- What an entry is found by. -/
def LedgerEntry.address (e : LedgerEntry) : String × String :=
  (e.keyword, e.key)

/-- A ledger as building leaves it: no address twice, and only entries of keywords that the backend has a
    constructor for. -/
structure Steady (shop : Workshop) (ledger : List LedgerEntry) : Prop where
  distinct : (ledger.map (·.address)).Nodup
  served : ∀ e ∈ ledger, isShared e.keyword → (shop.backend.lookup? e.keyword).isSome

theorem steady_nil (shop : Workshop) : Steady shop [] :=
  ⟨List.nodup_nil, by simp⟩

theorem entered?_spec {keyword key : String} {ledger : List LedgerEntry} {e : LedgerEntry}
    (found : entered? keyword key ledger = some e) : e ∈ ledger ∧ e.keyword = keyword ∧ e.key = key := by
  have holds := List.find?_some found
  simp only [Bool.and_eq_true, beq_iff_eq] at holds
  exact ⟨List.mem_of_find?_eq_some found, holds⟩

theorem entered?_eq_none {keyword key : String} {ledger : List LedgerEntry} :
    entered? keyword key ledger = none ↔ (keyword, key) ∉ ledger.map (·.address) := by
  simp only [entered?, List.find?_eq_none, List.mem_map, LedgerEntry.address, Prod.mk.injEq,
    Bool.and_eq_true, beq_iff_eq, not_exists, not_and]

theorem entered?_append {keyword key : String} {ledger later : List LedgerEntry} {e : LedgerEntry}
    (found : entered? keyword key ledger = some e) :
    entered? keyword key (ledger ++ later) = some e := by
  rw [entered?, List.find?_append]
  rw [entered?] at found
  rw [found]
  rfl

/-- What has been found stays found. -/
theorem entered?_later {keyword key : String} {ledger final : List LedgerEntry} {e : LedgerEntry}
    (grown : ledger <+: final) (found : entered? keyword key ledger = some e) :
    entered? keyword key final = some e := by
  obtain ⟨later, rfl⟩ := grown
  exact entered?_append found

section

variable {shop : Workshop} {ledger : List LedgerEntry} (steady : Steady shop ledger) {e : LedgerEntry}
include steady

theorem Steady.entered?_eq (member : e ∈ ledger) : entered? e.keyword e.key ledger = some e := by
  cases found : entered? e.keyword e.key ledger with
  | none => exact absurd (List.mem_map_of_mem member) (entered?_eq_none.1 found)
  | some other =>
    obtain ⟨inLedger, keyword, key⟩ := entered?_spec found
    have sameAddress : other.address = e.address := by rw [LedgerEntry.address, keyword, key]; rfl
    rw [List.inj_on_of_nodup_map steady.distinct inLedger member sameAddress]

theorem Steady.add (absent : entered? e.keyword e.key ledger = none)
    (served : isShared e.keyword → (shop.backend.lookup? e.keyword).isSome) :
    Steady shop (ledger ++ [e]) where
  distinct := by
    rw [List.map_append, List.map_singleton]
    refine List.Nodup.append steady.distinct (List.nodup_singleton _) ?_
    exact List.disjoint_singleton.2 (entered?_eq_none.1 absent)
  served := by
    intro other member
    rcases List.mem_append.1 member with before | now
    · exact steady.served other before
    · rw [List.mem_singleton.1 now]
      exact served

end

/-! ## Answers to references -/

/-- What a reference to a definition is answered with, given the ledger. -/
def Definition.answer (ledger : List LedgerEntry) (keyword : String) (d : Definition) : Option (String × Nat) :=
  (entered? keyword d.key ledger).map fun e => (e.name, e.node)

namespace Workshop

/-- The `uses` statements that stand for a node of a statement: its own, and those of augments of it. -/
def usesOf (shop : Workshop) (s : Statement) : List Statement :=
  s.subsWith "uses" ++ ((schemaNode shop.schema s).children.filterMap (·.augment)).eraseDups.flatMap shop.augmentUses

/-- What a `uses` statement is answered with. -/
def usedIn (shop : Workshop) (ledger : List LedgerEntry) (uses : Statement) : Option (String × Nat) :=
  (uses.grouping.bind shop.definition?).bind (Definition.answer ledger "grouping")

/-- What a type that is not built in is answered with. -/
def typedefIn (shop : Workshop) (ledger : List LedgerEntry) (type : Statement) : Option (String × Nat) :=
  (type.typedef.bind shop.definition?).bind (Definition.answer ledger "typedef")

/-- What the member of a union is answered with. -/
def memberIn (shop : Workshop) (ledger : List LedgerEntry) (type : Statement) : Option (String × MemberType) :=
  if isBuiltinType type.name then some (type.name, .builtin (shop.dataType type.name))
  else (shop.typedefIn ledger type).map fun answer => (answer.1, .typedef answer.2)

end Workshop

/-- A node of a statement records the answers to the references in the statement. -/
structure Records (shop : Workshop) (ledger : List LedgerEntry) (s : Statement) (n : Node) : Prop where
  uses : ∀ m, n.members = some m → m.uses = lastOfEach ((shop.usesOf s).filterMap (shop.usedIn ledger))
  typing : ∀ t, n.typing = some t → ∃ type, s.sub? "type" = some type ∧
    t.typedef = if isBuiltinType type.name then none else (shop.typedefIn ledger type).map (·.2)
  union : ∀ members, n.kind = .union members →
    members = lastOfEach ((s.subsWith "type").filterMap (shop.memberIn ledger))

/-- The definition that a link leads to has an entry, if the backend has a constructor for it. -/
def Listed (shop : Workshop) (ledger : List LedgerEntry) (keyword : String) (link : Option Nat) : Prop :=
  ∀ d, link.bind shop.definition? = some d → (shop.backend.lookup? keyword).isSome →
    (entered? keyword d.key ledger).isSome

theorem Listed.later {shop : Workshop} {ledger final : List LedgerEntry} {keyword : String}
    {link : Option Nat} (listed : Listed shop ledger keyword link) (grown : ledger <+: final) :
    Listed shop final keyword link := by
  intro d found served
  obtain ⟨e, entered⟩ := Option.isSome_iff_exists.1 (listed d found served)
  exact Option.isSome_of_eq_some (entered?_later grown entered)

/-- The types in a statement that are not built in: its type, or the members of a union. -/
def derivedTypes (s : Statement) : List Statement :=
  (s.sub? "type").toList.flatMap fun type =>
    (if type.name = "union" then type.subsWith "type" else [type]).filter fun t => !isBuiltinType t.name

/-- All definitions that a node of a statement refers to are listed. -/
structure Lists (shop : Workshop) (ledger : List LedgerEntry) (s : Statement) (n : Node) : Prop where
  uses : n.members.isSome → ∀ u ∈ shop.usesOf s, Listed shop ledger "grouping" u.grouping
  types : n.typing.isSome → ∀ t ∈ derivedTypes s, Listed shop ledger "typedef" t.typedef
  members : ∀ members, n.kind = .union members → ∀ t ∈ s.subsWith "type", isBuiltinType t.name = false →
    Listed shop ledger "typedef" t.typedef

/-- The enumerations and unions that a node's type names are nodes right below it. -/
structure TypesBelow (n : Node) : Prop where
  enumeration : ∀ t, n.typing = some t → ∀ i, t.enumeration = some i →
    ∃ c ∈ n.owned, c.id = i ∧ ∃ enums, c.kind = .enumeration enums
  union : ∀ t, n.typing = some t → ∀ i, t.union = some i → ∃ c ∈ n.owned, c.id = i ∧ ∃ members, c.kind = .union members

theorem TypesBelow.of_untyped {n : Node} (untyped : n.typing = none) : TypesBelow n :=
  ⟨by simp [untyped], by simp [untyped]⟩

theorem TypesBelow.of_plain {n : Node} {t : Typing} (typing : n.typing = some t)
    (notEnumeration : t.enumeration = none) (notUnion : t.union = none) : TypesBelow n :=
  ⟨by simp [typing, notEnumeration], by simp [typing, notUnion]⟩

/-- The constructor of a keyword; what has none is made like a module, which only a module is. -/
def Workshop.constructorFor (shop : Workshop) (keyword : String) : Backend.Constructor :=
  (shop.backend.lookup? keyword).getD .module

/-- A node shows its statement: it has its name and home, and it is what the constructor makes of it, with the
    members or the type that there are. -/
structure Shows (shop : Workshop) (s : Statement) (n : Node) : Prop where
  name : n.name = s.name
  home : n.home = s.home
  types : TypesBelow n
  kind : s.keyword ≠ "type" → n.kind = kindOf (shop.constructorFor s.keyword) s
  opened : s.keyword ≠ "type" → partOf (shop.constructorFor s.keyword) = .members → n.members.isSome
  below : n.members.isSome → ∀ c ∈ (schemaNode shop.schema s).children,
    (shop.backend.lookup? c.keyword).isSome → ∃ made ∈ n.owned, made.statement = c.id
  augmented : n.members.isSome → (n.isAugmented = true ↔ ∃ c ∈ (schemaNode shop.schema s).children, c.augment.isSome)
  typed : s.keyword ≠ "type" → partOf (shop.constructorFor s.keyword) = .typing →
    ∀ type, s.sub? "type" = some type → ∃ t, n.typing = some t ∧
      (t.enumeration.isSome ∨ t.union.isSome ↔ type.name = "enumeration" ∨ type.name = "union")

/-- A node that says what its statement says.  A shared one has the key of its definition. -/
structure Lawful (shop : Workshop) (ledger : List LedgerEntry) (n : Node) : Prop where
  records : ∃ s ∈ shop.schema.all, n.statement = s.id ∧ n.keyword = s.keyword ∧ Records shop ledger s n
  shared : isShared n.keyword → ∃ d ∈ shop.definitions, d.node.id = n.statement ∧ d.key = n.key
  shows : ∃ s ∈ shop.schema.all, n.statement = s.id ∧ Shows shop s n
  lists : ∃ s ∈ shop.schema.all, n.statement = s.id ∧ Lists shop ledger s n

/-! ## Growth -/

namespace Node

theorem listing_eq (n : Node) : n.listing = n :: listingOfAll n.owned := by
  cases n; rfl

@[simp] theorem listingOfAll_nil : listingOfAll [] = [] := rfl

@[simp] theorem listingOfAll_cons (n : Node) (rest : List Node) :
    listingOfAll (n :: rest) = n.listing ++ listingOfAll rest := rfl

@[simp] theorem listingOfAll_append (left right : List Node) :
    listingOfAll (left ++ right) = listingOfAll left ++ listingOfAll right := by
  induction left with
  | nil => rfl
  | cons n rest ih => simp [ih]

/-- Nodes with definitions beside them, twice, are all nodes with all definitions beside them. -/
theorem perm_regrouped (own own' definitions definitions' : List Node) :
    ((own ++ listingOfAll definitions) ++ (own' ++ listingOfAll definitions')).Perm
      ((own ++ own') ++ listingOfAll (definitions ++ definitions')) := by
  rw [listingOfAll_append, List.append_assoc, List.append_assoc]
  apply List.Perm.append_left
  rw [← List.append_assoc, ← List.append_assoc]
  exact List.perm_append_comm.append_right _

/-- The entry of a node. -/
def entry (n : Node) : LedgerEntry :=
  ⟨n.keyword, n.key, n.name, n.id⟩

end Node

open Node (listingOfAll)

/-- From `p` to `q`, the nodes `nodes` are numbered and the entries `entries` added, one for each shared
    node. -/
structure Tally (shop : Workshop) (p : Progress) (entries : List LedgerEntry) (nodes : List Node)
    (q : Progress) : Prop where
  ledger : q.ledger = p.ledger ++ entries
  le : p.next ≤ q.next
  ids : (nodes.map (·.id)).Perm (List.range' p.next (q.next - p.next))
  shared : (entries.filter fun e => isShared e.keyword).Perm
    ((nodes.filter fun n => isShared n.keyword).map Node.entry)
  steady : Steady shop p.ledger → Steady shop q.ledger

namespace Tally

variable {shop : Workshop} {p q r : Progress} {entries entries' : List LedgerEntry}
  {nodes nodes' : List Node}

theorem idle (sameLedger : q.ledger = p.ledger) (sameNext : q.next = p.next) : Tally shop p [] [] q where
  ledger := by simp [sameLedger]
  le := Nat.le_of_eq sameNext.symm
  ids := by simp [sameNext]
  shared := List.Perm.refl _
  steady := fun steady => sameLedger ▸ steady

theorem trans (first : Tally shop p entries nodes q) (second : Tally shop q entries' nodes' r) :
    Tally shop p (entries ++ entries') (nodes ++ nodes') r where
  ledger := by rw [second.ledger, first.ledger, List.append_assoc]
  le := Nat.le_trans first.le second.le
  ids := by
    rw [List.map_append]
    refine (first.ids.append second.ids).trans ?_
    have whole : List.range' p.next (r.next - p.next) =
        List.range' p.next (q.next - p.next) ++ List.range' q.next (r.next - q.next) := by
      have lower := first.le
      have upper := second.le
      have split : r.next - p.next = (q.next - p.next) + (r.next - q.next) := by omega
      have middle : q.next = p.next + (q.next - p.next) := by omega
      rw [split, ← List.range'_append_1, ← middle]
    rw [whole]
  shared := by
    rw [List.filter_append, List.filter_append, List.map_append]
    exact first.shared.append second.shared
  steady := fun steady => second.steady (first.steady steady)

theorem perm (tally : Tally shop p entries nodes q) (same : nodes.Perm nodes') : Tally shop p entries nodes' q where
  ledger := tally.ledger
  le := tally.le
  ids := (same.map _).symm.trans tally.ids
  shared := tally.shared.trans ((same.filter _).map _)
  steady := tally.steady

end Tally

/-- The nodes are right, whatever is entered after `p`. -/
def AllLawful (shop : Workshop) (p : Progress) (nodes : List Node) : Prop :=
  ∀ final, p.ledger <+: final → Steady shop final → ∀ n ∈ nodes, Lawful shop final n

theorem AllLawful.mono {shop : Workshop} {p q : Progress} {nodes : List Node}
    (lawful : AllLawful shop p nodes) (grown : p.ledger <+: q.ledger) : AllLawful shop q nodes :=
  fun final later => lawful final (grown.trans later)

theorem AllLawful.append {shop : Workshop} {p : Progress} {nodes nodes' : List Node}
    (left : AllLawful shop p nodes) (right : AllLawful shop p nodes') :
    AllLawful shop p (nodes ++ nodes') :=
  fun final later steady n member =>
    (List.mem_append.1 member).elim (left final later steady n) (right final later steady n)

theorem AllLawful.perm {shop : Workshop} {p : Progress} {nodes nodes' : List Node}
    (lawful : AllLawful shop p nodes) (same : nodes.Perm nodes') : AllLawful shop p nodes' :=
  fun final later steady n member => lawful final later steady n (same.mem_iff.2 member)

/-- From `p` to `q`, the nodes `own` are made, and with them some definitions beside them. -/
def Grown (shop : Workshop) (p : Progress) (own : List Node) (q : Progress) : Prop :=
  ∃ entries definitions, q.definitions = p.definitions ++ definitions ∧
    Tally shop p entries (own ++ listingOfAll definitions) q ∧
    AllLawful shop q (own ++ listingOfAll definitions)

namespace Grown

variable {shop : Workshop} {p q r : Progress} {own own' : List Node}

theorem idle (sameLedger : q.ledger = p.ledger) (sameNext : q.next = p.next)
    (sameDefinitions : q.definitions = p.definitions) : Grown shop p [] q :=
  ⟨[], [], by simp [sameDefinitions], Tally.idle sameLedger sameNext, by simp [AllLawful]⟩

theorem refl (p : Progress) : Grown shop p [] p :=
  idle rfl rfl rfl

theorem ledger (grown : Grown shop p own q) : p.ledger <+: q.ledger := by
  obtain ⟨entries, definitions, -, tally, -⟩ := grown
  exact tally.ledger ▸ List.prefix_append _ _

theorem steady (grown : Grown shop p own q) (steady : Steady shop p.ledger) : Steady shop q.ledger := by
  obtain ⟨entries, definitions, -, tally, -⟩ := grown
  exact tally.steady steady

theorem trans (first : Grown shop p own q) (second : Grown shop q own' r) : Grown shop p (own ++ own') r := by
  have later := second.ledger
  obtain ⟨entries, definitions, atEnd, tally, lawful⟩ := first
  obtain ⟨entries', definitions', atEnd', tally', lawful'⟩ := second
  have reordered := Node.perm_regrouped own own' definitions definitions'
  refine ⟨entries ++ entries', definitions ++ definitions', ?_, (tally.trans tally').perm reordered,
    ((lawful.mono later).append lawful').perm reordered⟩
  rw [atEnd', atEnd, List.append_assoc]

/-- A node that is put beside the others. -/
theorem define {n : Node} (grown : Grown shop p n.listing q) :
    Grown shop p [] { q with definitions := q.definitions ++ [n] } := by
  obtain ⟨entries, definitions, atEnd, tally, lawful⟩ := grown
  have reordered : (n.listing ++ listingOfAll definitions).Perm ([] ++ listingOfAll (definitions ++ [n])) := by
    rw [Node.listingOfAll_append, List.nil_append, Node.listingOfAll_cons, Node.listingOfAll_nil, List.append_nil]
    exact List.perm_append_comm
  have moved := tally.perm reordered
  refine ⟨entries, definitions ++ [n], ?_, ?_, lawful.perm reordered⟩
  · simp only [atEnd, List.append_assoc]
  · exact ⟨moved.ledger, moved.le, moved.ids, moved.shared, moved.steady⟩

theorem entry_mem (grown : Grown shop p own q) {n : Node} (member : n ∈ own)
    (shared : isShared n.keyword) : n.entry ∈ q.ledger := by
  obtain ⟨entries, definitions, -, tally, -⟩ := grown
  have listed : n.entry ∈ (entries.filter fun e => isShared e.keyword) := by
    refine tally.shared.mem_iff.2 (List.mem_map_of_mem (List.mem_filter.2 ⟨?_, shared⟩))
    exact List.mem_append_left _ member
  rw [tally.ledger]
  exact List.mem_append_right _ (List.mem_filter.1 listed).1

end Grown

/-! ## Making one node -/

/-- A node before anything is made below it. -/
def freshNode (shop : Workshop) (parent : Option Place) (kind : Kind) (statement : Statement) (id : Nat) : Node :=
  { id
    statement := statement.id
    parent := parent.map (·.id)
    keyword := statement.keyword
    name := statement.name
    home := statement.home
    key := keyOf shop parent statement
    description := descriptionOf statement
    config := configOf statement
    isAugmented := false
    kind
    members := none
    typing := none
    owned := [] }

/-- From `p` to `q`, a node gets its number and perhaps an entry. -/
structure Created (p : Progress) (node : Node) (q : Progress) : Prop where
  id : node.id = p.next
  next : q.next = p.next + 1
  definitions : q.definitions = p.definitions
  ledger : q.ledger = p.ledger ∨ q.ledger = p.ledger ++ [node.entry] ∧ entered? node.keyword node.key p.ledger = none

theorem register_run (node : Node) (p : Progress) :
    let q := ((register node).run p).2
    q.next = p.next ∧ q.definitions = p.definitions ∧ q.derived = p.derived ∧
      q.ledger = if (entered? node.keyword node.key p.ledger).isSome then p.ledger else p.ledger ++ [node.entry] := by
  simp only [register, run_bind]
  have current : ((get : Builder Progress).run p) = (p, p) := rfl
  rw [current]
  cases entered? node.keyword node.key p.ledger <;> exact ⟨rfl, rfl, rfl, rfl⟩

theorem create_run (shop : Workshop) (parent : Option Place) (kind : Kind) (statement : Statement)
    (p : Progress) :
    (create shop parent kind statement).run p =
      (let node := freshNode shop parent kind statement p.next
       let q := { p with next := p.next + 1 }
       if parent.isSome && !isUnlisted statement.keyword then (node, ((register node).run q).2)
       else (node, q)) := by
  simp only [create, run_bind]
  split <;> rfl

theorem create_created (shop : Workshop) (parent : Option Place) (kind : Kind) (statement : Statement)
    (p : Progress) :
    ((create shop parent kind statement).run p).1 = freshNode shop parent kind statement p.next ∧
      Created p ((create shop parent kind statement).run p).1 ((create shop parent kind statement).run p).2 := by
  rw [create_run]
  simp only
  split
  · refine ⟨rfl, ?_⟩
    obtain ⟨next, definitions, -, ledger⟩ := register_run (freshNode shop parent kind statement p.next)
      { p with next := p.next + 1 }
    refine ⟨rfl, next, definitions, ?_⟩
    rw [ledger]
    split
    · exact .inl rfl
    · rename_i absent
      exact .inr ⟨rfl, by simpa using absent⟩
  · exact ⟨rfl, rfl, rfl, rfl, .inl rfl⟩

/-- A node of a keyword that is listed gets an entry if there is none of its address. -/
theorem create_listed (shop : Workshop) (place : Place) (kind : Kind) {statement : Statement}
    (listed : isUnlisted statement.keyword = false) {p : Progress}
    (absent : entered? statement.keyword (keyOf shop (some place) statement) p.ledger = none) :
    ((create shop (some place) kind statement).run p).2.ledger =
      p.ledger ++ [(freshNode shop (some place) kind statement p.next).entry] := by
  rw [create_run]
  simp only [Option.isSome_some, listed, Bool.not_false, Bool.and_self, if_true]
  rw [(register_run _ _).2.2.2]
  have none : (entered? (freshNode shop (some place) kind statement p.next).keyword
      (freshNode shop (some place) kind statement p.next).key p.ledger).isSome = false := by
    rw [Option.isSome_eq_false_iff]
    simpa [freshNode] using absent
  simp [none]

/-- A node that has been finished, with the nodes made below it. -/
theorem Created.finish {shop : Workshop} {p q r : Progress} {node n : Node} {own : List Node}
    (created : Created p node q) (below : Grown shop q own r) (same : n.entry = node.entry)
    (entered : isShared node.keyword → q.ledger = p.ledger ++ [node.entry])
    (served : isShared node.keyword → (shop.backend.lookup? node.keyword).isSome)
    (lawful : ∀ final, r.ledger <+: final → Steady shop final → Lawful shop final n) :
    Grown shop p (n :: own) r := by
  obtain ⟨entries, definitions, atEnd, tally, lawfulBelow⟩ := below
  have sameId : n.id = node.id := congrArg LedgerEntry.node same
  have sameKeyword : n.keyword = node.keyword := congrArg LedgerEntry.keyword same
  obtain ⟨entry, first⟩ : ∃ entry, Tally shop p entry [n] q := by
    have ids : ([n].map (·.id)).Perm (List.range' p.next (q.next - p.next)) := by
      rw [created.next, Nat.add_sub_cancel_left, List.map_singleton, sameId, created.id]
      exact List.Perm.refl _
    have le : p.next ≤ q.next := by rw [created.next]; omega
    rcases created.ledger with unchanged | ⟨added, absent⟩
    · -- Only a shared node is sure to be entered, so this one is not.
      have notShared : isShared n.keyword = false := by
        cases shared : isShared n.keyword with
        | false => rfl
        | true =>
          have longer := entered (sameKeyword ▸ shared)
          rw [unchanged] at longer
          simp at longer
      refine ⟨[], by rw [unchanged, List.append_nil], le, ids, ?_, fun steady => unchanged ▸ steady⟩
      simp [notShared]
    · refine ⟨[node.entry], added, le, ids, ?_, fun steady => added ▸ steady.add absent served⟩
      have sameEntryKeyword : node.entry.keyword = n.keyword := sameKeyword.symm
      simp only [List.filter_cons, sameEntryKeyword, List.filter_nil]
      split
      · rw [List.map_singleton, same]
      · exact List.Perm.refl _
  refine ⟨entry ++ entries, definitions, by rw [atEnd, created.definitions], first.trans tally, ?_⟩
  intro final grown steady m member
  rcases List.mem_cons.1 member with rfl | member
  · exact lawful final grown steady
  · exact lawfulBelow final grown steady m member

end YangStubs.Model
