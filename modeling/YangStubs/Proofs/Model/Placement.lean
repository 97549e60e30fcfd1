import YangStubs.Proofs.Model.Coverage

/-! # Where nodes are put

Nodes are made in the middle of making other nodes: the groupings, typedefs and leafref targets that a
statement refers to come before it is finished.  Wherever a node is made, it is put below the node that it
was made for, or below the module if it is shared, and it is entered under its key unless another node has
the key already.  `Seats` says this for a part of the work, and parts that follow each other add up.
-/

namespace YangStubs.Model

open YangStubs.Schema
open Node (listingOfAll)

/-! ## Nodes in their places -/

/-- A node right below a place.  The key of a shared node does not depend on the place. -/
structure Node.Below (place : Place) (n : Node) : Prop where
  parent : n.parent = some place.id
  key : isShared n.keyword = false → n.key = place.key ++ "/" ++ n.name

/-- A node of a schema node. -/
structure Node.IsOf (x : SchemaNode) (n : Node) : Prop where
  statement : n.statement = x.id
  keyword : n.keyword = x.keyword
  name : n.name = x.name

/-- The schema nodes that the backend has a constructor for. -/
def Workshop.served (shop : Workshop) (children : List SchemaNode) : List SchemaNode :=
  children.filter fun c => (shop.backend.lookup? c.keyword).isSome

/-- Nodes of a keyword have members.  Modules are made without a constructor of their own, too. -/
def Workshop.Opens (shop : Workshop) (keyword : String) : Prop :=
  partOf (shop.constructorFor keyword) = .members ∧ (keyword = "module" ∨ (shop.backend.lookup? keyword).isSome)

/-- The members of a node are the nodes of the schema nodes below its own, in their order. -/
structure Node.Holds (shop : Workshop) (x : SchemaNode) (n : Node) (m : Members) : Prop where
  proper : Proper shop.schema x
  opens : shop.Opens x.keyword
  children : m.children = firstOfEach (n.owned.map fun c => (c.name, c.id))
  areOf : List.Forall₂ Node.IsOf (shop.served x.children) n.owned
  untyped : n.typing = none

/-- A node in its place: the nodes that it owns are below it and come after it. -/
structure Node.Seated (shop : Workshop) (n : Node) : Prop where
  below : ∀ c ∈ n.owned, c.Below n.place ∧ isShared c.keyword = false ∧ n.id < c.id
  members : ∀ m, n.members = some m → ∃ x, n.IsOf x ∧ n.Holds shop x m

/-- Whether a node has to be found in the ledger. -/
def Node.isListed (n : Node) : Bool :=
  n.parent.isSome && !isUnlisted n.keyword

/-- All entries are of nodes that have been numbered. -/
def Progress.Numbered (p : Progress) : Prop :=
  ∀ e ∈ p.ledger, e.node < p.next

/-- From `p` to `q`, the nodes `nodes` are put into their places and the entries `entries` are added: each is
    that of a listed node, and each listed node has one of its address that is not later. -/
structure Filing (shop : Workshop) (p : Progress) (entries : List LedgerEntry) (nodes : List Node)
    (q : Progress) : Prop where
  ledger : q.ledger = p.ledger ++ entries
  le : p.next ≤ q.next
  ids : ∀ n ∈ nodes, p.next ≤ n.id ∧ n.id < q.next
  seated : ∀ n ∈ nodes, n.Seated shop
  entered : ∀ e ∈ entries, ∃ n ∈ nodes, n.entry = e ∧ n.isListed
  first : p.Numbered → ∀ n ∈ nodes, n.isListed → ∃ e ∈ q.ledger, e.address = n.entry.address ∧ e.node ≤ n.id

namespace Filing

variable {shop : Workshop} {p q r : Progress} {entries entries' : List LedgerEntry}
  {nodes nodes' : List Node}

theorem idle (sameLedger : q.ledger = p.ledger) (sameNext : q.next = p.next) : Filing shop p [] [] q where
  ledger := by simp [sameLedger]
  le := Nat.le_of_eq sameNext.symm
  ids := by simp
  seated := by simp
  entered := by simp
  first := by simp

theorem numbered (filing : Filing shop p entries nodes q) (numbered : p.Numbered) : q.Numbered := by
  intro e inLedger
  rw [filing.ledger, List.mem_append] at inLedger
  cases inLedger with
  | inl before => exact Nat.lt_of_lt_of_le (numbered e before) filing.le
  | inr now =>
    obtain ⟨n, member, rfl, -⟩ := filing.entered e now
    exact (filing.ids n member).2

theorem trans (first : Filing shop p entries nodes q) (second : Filing shop q entries' nodes' r) :
    Filing shop p (entries ++ entries') (nodes ++ nodes') r where
  ledger := by rw [second.ledger, first.ledger, List.append_assoc]
  le := Nat.le_trans first.le second.le
  ids := by
    have lower := first.le
    have upper := second.le
    intro n member
    cases List.mem_append.1 member with
    | inl before =>
      have bounds := first.ids n before
      omega
    | inr after =>
      have bounds := second.ids n after
      omega
  seated := List.forall_mem_append.2 ⟨first.seated, second.seated⟩
  entered := by
    intro e member
    cases List.mem_append.1 member with
    | inl before =>
      obtain ⟨n, isNode, isEntry⟩ := first.entered e before
      exact ⟨n, List.mem_append_left _ isNode, isEntry⟩
    | inr after =>
      obtain ⟨n, isNode, isEntry⟩ := second.entered e after
      exact ⟨n, List.mem_append_right _ isNode, isEntry⟩
  first := by
    intro numbered n member isListed
    cases List.mem_append.1 member with
    | inl before =>
      -- What has been found stays in the ledger.
      obtain ⟨e, inLedger, isFirst⟩ := first.first numbered n before isListed
      exact ⟨e, second.ledger ▸ List.mem_append_left _ inLedger, isFirst⟩
    | inr after => exact second.first (first.numbered numbered) n after isListed

theorem perm (filing : Filing shop p entries nodes q) (same : nodes.Perm nodes') : Filing shop p entries nodes' q where
  ledger := filing.ledger
  le := filing.le
  ids := fun n member => filing.ids n (same.mem_iff.2 member)
  seated := fun n member => filing.seated n (same.mem_iff.2 member)
  entered := by
    intro e member
    obtain ⟨n, isNode, isEntry⟩ := filing.entered e member
    exact ⟨n, same.mem_iff.1 isNode, isEntry⟩
  first := fun numbered n member => filing.first numbered n (same.mem_iff.2 member)

end Filing

/-- From `p` to `q`, the nodes `own` are put into their places, and some definitions below the module. -/
def Seats (shop : Workshop) (p : Progress) (own : List Node) (q : Progress) : Prop :=
  ∃ entries definitions, q.definitions = p.definitions ++ definitions ∧
    (∀ d ∈ definitions, d.Below shop.top ∧ isShared d.keyword) ∧
    Filing shop p entries (own ++ listingOfAll definitions) q

namespace Seats

variable {shop : Workshop} {p q r : Progress} {own own' : List Node}

theorem idle (sameLedger : q.ledger = p.ledger) (sameNext : q.next = p.next)
    (sameDefinitions : q.definitions = p.definitions) : Seats shop p [] q :=
  ⟨[], [], by simp [sameDefinitions], by simp, Filing.idle sameLedger sameNext⟩

theorem refl (p : Progress) : Seats shop p [] p :=
  idle rfl rfl rfl

theorem trans (first : Seats shop p own q) (second : Seats shop q own' r) : Seats shop p (own ++ own') r := by
  obtain ⟨entries, definitions, atEnd, atTop, filing⟩ := first
  obtain ⟨entries', definitions', atEnd', atTop', filing'⟩ := second
  refine ⟨entries ++ entries', definitions ++ definitions', ?_,
    List.forall_mem_append.2 ⟨atTop, atTop'⟩, (filing.trans filing').perm (Node.perm_regrouped own own' _ _)⟩
  rw [atEnd', atEnd, List.append_assoc]

/-- A shared node below the module is put beside the others. -/
theorem define {n : Node} (seats : Seats shop p n.listing q) (atTop : n.Below shop.top)
    (shared : isShared n.keyword) :
    Seats shop p [] { q with definitions := q.definitions ++ [n] } := by
  obtain ⟨entries, definitions, atEnd, others, filing⟩ := seats
  have reordered : (n.listing ++ listingOfAll definitions).Perm ([] ++ listingOfAll (definitions ++ [n])) := by
    simpa using List.perm_append_comm
  have moved := filing.perm reordered
  refine ⟨entries, definitions ++ [n], by simp [atEnd], ?_, ?_⟩
  · intro d member
    cases List.mem_append.1 member with
    | inl before => exact others d before
    | inr now =>
      rw [List.mem_singleton.1 now]
      exact ⟨atTop, shared⟩
  · exact ⟨moved.ledger, moved.le, moved.ids, moved.seated, moved.entered, moved.first⟩

end Seats

/-! ## Making one node -/

/-- What one run leaves, with what holds afterwards of the answer and of what has grown. -/
abbrev Leaves {α : Type} (x : Builder α) (p : Progress) (post : α → Progress → Prop) : Prop :=
  Agrees x x p post

/-- From `p` to `q`, a node gets its number, and its entry unless there is one of its address. -/
structure Numbers (p : Progress) (node : Node) (q : Progress) : Prop where
  id : node.id = p.next
  next : q.next = p.next + 1
  definitions : q.definitions = p.definitions
  derived : q.derived = p.derived
  ledger : q.ledger = p.ledger ∧ (node.isListed → ∃ e ∈ p.ledger, e.address = node.entry.address) ∨
    q.ledger = p.ledger ++ [node.entry] ∧ node.isListed

theorem create_numbers (shop : Workshop) (parent : Option Place) (kind : Kind) (s : Statement)
    (p : Progress) :
    Leaves (create shop parent kind s) p fun node q =>
      node = freshNode shop parent kind s p.next ∧ Numbers p node q := by
  apply Agrees.same
  have listed : (freshNode shop parent kind s p.next).isListed = (parent.isSome && !isUnlisted s.keyword) := by
    cases parent <;> rfl
  rw [create_run]
  simp only [← listed]
  cases isListed : (freshNode shop parent kind s p.next).isListed with
  | false => exact ⟨rfl, rfl, rfl, rfl, rfl, .inl ⟨rfl, by simp [isListed]⟩⟩
  | true =>
    obtain ⟨next, definitions, derived, ledger⟩ := register_run (freshNode shop parent kind s p.next)
      { p with next := p.next + 1 }
    refine ⟨rfl, rfl, next, definitions, derived, ?_⟩
    simp only [if_true]
    rw [ledger]
    cases found : entered? (freshNode shop parent kind s p.next).keyword
        (freshNode shop parent kind s p.next).key p.ledger with
    | none => exact .inr ⟨by simp, isListed⟩
    | some e =>
      obtain ⟨inLedger, keyword, key⟩ := entered?_spec found
      exact .inl ⟨by simp, fun _ => ⟨e, inLedger, Prod.ext keyword key⟩⟩

/-- A node that is finished stands in its place, with the nodes made below it. -/
theorem Numbers.finish {shop : Workshop} {p q r : Progress} {node n : Node}
    (numbers : Numbers p node q) (below : Seats shop q (listingOfAll n.owned) r)
    (entry : n.entry = node.entry) (parent : n.parent = node.parent)
    (owned : ∀ c ∈ n.owned, c.Below node.place ∧ isShared c.keyword = false)
    (members : ∀ m, n.members = some m → ∃ x, n.IsOf x ∧ n.Holds shop x m) :
    Seats shop p n.listing r := by
  obtain ⟨entries, definitions, atEnd, atTop, filing⟩ := below
  have sameId : n.id = node.id := congrArg LedgerEntry.node entry
  have sameKey : n.key = node.key := congrArg LedgerEntry.key entry
  have sameKeyword : n.keyword = node.keyword := congrArg LedgerEntry.keyword entry
  have sameListed : n.isListed = node.isListed := by rw [Node.isListed, Node.isListed, parent, sameKeyword]
  have samePlace : n.place = node.place := by rw [Node.place, Node.place, sameId, sameKey]
  have nextId : q.next = n.id + 1 := by rw [numbers.next, sameId, numbers.id]
  have seated : n.Seated shop := by
    refine ⟨fun c isOwned => ?_, members⟩
    obtain ⟨isBelow, notShared⟩ := owned c isOwned
    have later := (filing.ids c (List.mem_append_left _ (mem_listingOfAll_of_mem isOwned))).1
    exact ⟨samePlace ▸ isBelow, notShared, by omega⟩
  obtain ⟨entered, own⟩ : ∃ entered, Filing shop p entered [n] q := by
    have le : p.next ≤ q.next := by rw [numbers.next]; omega
    have ids : ∀ m ∈ [n], p.next ≤ m.id ∧ m.id < q.next := by
      simp [nextId, sameId, numbers.id]
    cases numbers.ledger with
    | inl unchanged =>
      refine ⟨[], by simp [unchanged.1], le, ids, by simpa using seated, by simp, ?_⟩
      intro numbered m member isListed
      rw [List.mem_singleton.1 member] at isListed ⊢
      obtain ⟨e, inLedger, address⟩ := unchanged.2 (sameListed ▸ isListed)
      have earlier := numbered e inLedger
      have number := numbers.id
      exact ⟨e, unchanged.1 ▸ inLedger, entry ▸ address, by omega⟩
    | inr added =>
      refine ⟨[node.entry], added.1, le, ids, by simpa using seated, ?_, ?_⟩
      · simpa [entry, sameListed] using added.2
      · intro _ m member _
        rw [List.mem_singleton.1 member]
        exact ⟨node.entry, by simp [added.1], by rw [entry], Nat.le_of_eq sameId.symm⟩
  refine ⟨entered ++ entries, definitions, by rw [atEnd, numbers.definitions], atTop, ?_⟩
  rw [Node.listing_eq]
  exact own.trans filing

/-! ## Making what a node refers to -/

/-- A node made of a schema node below a place, with all that is below it. -/
structure MadeAt (shop : Workshop) (p : Progress) (parent : Option Place) (x : SchemaNode) (n : Node)
    (q : Progress) : Prop where
  seats : Seats shop p n.listing q
  isOf : n.IsOf x
  id : n.id = p.next
  key : n.key = keyOf shop parent x.statement
  parent : n.parent = parent.map (·.id)

theorem MadeAt.below {shop : Workshop} {p q : Progress} {place : Place} {x : SchemaNode} {n : Node}
    (made : MadeAt shop p (some place) x n q) : n.Below place := by
  refine ⟨made.parent, fun notShared => ?_⟩
  have isOfKeyword : isShared x.statement.keyword = false := by
    rw [made.isOf.keyword] at notShared
    exact notShared
  rw [made.key, made.isOf.name]
  simp only [keyOf, isOfKeyword]
  rfl

/-- A maker that puts the nodes it makes below the place. -/
def MakesBelow (shop : Workshop) (make : Maker) : Prop :=
  ∀ busy keyword x place p, keyword = x.keyword → Proper shop.schema x →
    Leaves (make busy keyword x place) p fun made q =>
      (∀ n, made = some n → MadeAt shop p (some place) x n q) ∧ (made = none → Seats shop p [] q)

/-! ## Making definitions -/

/-- A relation that does not see reports and adds up along runs. -/
structure Lasting (rel : Progress → Progress → Prop) : Prop where
  idle : ∀ {p q : Progress}, q.ledger = p.ledger → q.next = p.next → q.definitions = p.definitions →
    q.derived = p.derived → rel p q
  trans : ∀ {p q r : Progress}, rel p q → rel q r → rel p r

theorem seats_lasting (shop : Workshop) : Lasting fun p q => Seats shop p [] q :=
  ⟨fun ledger next definitions _ => Seats.idle ledger next definitions, Seats.trans⟩

/-- Every run keeps to the relation. -/
abbrev Keeps {α : Type} (rel : Progress → Progress → Prop) (x : Builder α) : Prop :=
  ∀ p, Leaves x p fun _ q => rel p q

/-- Making a definition of the keyword keeps to the relation. -/
def Defines (shop : Workshop) (make : Maker) (busy : List Nat) (rel : Progress → Progress → Prop)
    (keyword : String) : Prop :=
  ∀ d ∈ shop.definitions, keyword = d.node.keyword → Keeps rel (makeDefinition shop make busy keyword d)

section Lasting

variable {rel : Progress → Progress → Prop} (lasting : Lasting rel) {shop : Workshop} {make : Maker}
  {busy : List Nat}
include lasting

theorem Lasting.refl (p : Progress) : rel p p :=
  lasting.idle rfl rfl rfl rfl

theorem Lasting.pure {α : Type} (a : α) : Keeps rel (pure a : Builder α) := fun p =>
  .pure (lasting.refl p)

theorem Lasting.bind {α β : Type} {x : Builder α} {f : α → Builder β} (first : Keeps rel x)
    (second : ∀ a, Keeps rel (f a)) : Keeps rel (x >>= f) := fun p =>
  (first p).bind fun a q before => (second a q).mono fun _ _ after => lasting.trans before after

theorem report_lasts (level : Level) (origin : Origin) (message : String) : Keeps rel (report level origin message) :=
  fun _ => .same (lasting.idle rfl rfl rfl rfl)

theorem refer_lasts {keyword : String} (defines : Defines shop make busy rel keyword) {d : Definition}
    (member : d ∈ shop.definitions) (isKeyword : keyword = d.node.keyword) :
    Keeps rel (refer shop make busy keyword d) := by
  intro p
  unfold refer
  refine (Agrees.get p).bind ?_
  rintro s q ⟨rfl, rfl⟩
  cases entered? keyword d.key p.ledger with
  | some e => exact lasting.pure _ p
  | none => exact lasting.bind (defines d member isKeyword) (fun _ => lasting.pure _) p

theorem groupingsOf_lasts (sound : shop.Sound) (defines : Defines shop make busy rel "grouping")
    (uses : List Statement) (known : ∀ u ∈ uses, u ∈ shop.schema.all) :
    Keeps rel (groupingsOf shop make busy uses) := by
  induction uses with
  | nil => exact lasting.pure _
  | cons u rest ih =>
    obtain ⟨here, others⟩ := List.forall_mem_cons.1 known
    rw [groupingsOf_cons]
    refine lasting.bind ?_ fun _ => lasting.bind (ih others) fun _ => lasting.pure _
    unfold usedGrouping
    cases linked : u.grouping.bind shop.definition? with
    | none => exact lasting.pure _
    | some d =>
      obtain ⟨member, keyword⟩ := sound.grouping_of_uses here linked
      exact refer_lasts lasting defines member keyword.symm

/-- Where the notes of typedefs are not seen, either. -/
theorem typedefOf_lasts (sound : shop.Sound) (defines : Defines shop make busy rel "typedef")
    (blind : ∀ {p q : Progress}, q.ledger = p.ledger → q.next = p.next → q.definitions = p.definitions → rel p q)
    (key : String) (type : Statement) (known : type ∈ shop.schema.all) :
    Keeps rel (typedefOf shop make busy key type) := by
  unfold typedefOf
  cases linked : type.typedef.bind shop.definition? with
  | none => exact lasting.bind (report_lasts lasting _ _ _) fun _ => lasting.pure _
  | some d =>
    obtain ⟨member, keyword⟩ := sound.typedef_of_type known linked
    refine lasting.bind (refer_lasts lasting defines member keyword.symm) ?_
    rintro (- | ⟨name, node⟩)
    · exact lasting.pure _
    · refine lasting.bind (fun p => (noteTypedef_agrees d.node.name d.key node p).mono ?_) fun _ => lasting.pure _
      exact fun _ q noted => blind noted.ledger noted.next noted.definitions

theorem unionMembers_lasts
    (typedefs : ∀ key, ∀ t ∈ shop.schema.all, Keeps rel (typedefOf shop make busy key t)) (key : String)
    (types : List Statement) (known : ∀ t ∈ types, t ∈ shop.schema.all) :
    Keeps rel (unionMembers shop make busy key types) := by
  induction types with
  | nil => exact lasting.pure _
  | cons t rest ih =>
    obtain ⟨here, others⟩ := List.forall_mem_cons.1 known
    rw [unionMembers_cons]
    refine lasting.bind ?_ fun _ => lasting.bind (ih others) fun _ => lasting.pure _
    unfold unionMember
    split
    · exact lasting.pure _
    · exact lasting.bind (typedefs key t here) fun _ => lasting.pure _

theorem makeAbsent_lasts (sound : shop.Sound) {keyword : String} (defines : Defines shop make [] rel keyword)
    {s : Statement} (known : s ∈ shop.schema.all) (isKeyword : s.keyword = keyword) :
    Keeps rel (makeAbsent shop make keyword s) := by
  unfold makeAbsent
  cases found : shop.definition? s.id with
  | none => exact lasting.pure _
  | some d =>
    obtain ⟨member, same⟩ := sound.keyword_of_link known found
    have sameKeyword := (same.trans isKeyword).symm
    intro p
    refine (Agrees.get p).bind ?_
    rintro s' q ⟨rfl, rfl⟩
    split
    · exact lasting.bind (report_lasts lasting _ _ _)
        (fun _ q => (defines d member sameKeyword q).map _ fun _ _ holds => holds) p
    · exact lasting.pure _ p

theorem makeUnreferenced_lasts (sound : shop.Sound) {keyword : String} (defines : Defines shop make [] rel keyword)
    (statements : List Statement) (spec : ∀ s ∈ statements, s ∈ shop.schema.all ∧ s.keyword = keyword) :
    Keeps rel (makeUnreferenced shop make keyword statements) := by
  induction statements with
  | nil => exact lasting.pure _
  | cons s rest ih =>
    obtain ⟨⟨known, isKeyword⟩, others⟩ := List.forall_mem_cons.1 spec
    rw [makeUnreferenced_cons]
    exact lasting.bind (makeAbsent_lasts lasting sound defines known isKeyword) fun _ => ih others

end Lasting

section Steps

variable {shop : Workshop} {make : Maker}

/-- Nodes made below a place, none of them shared. -/
structure SeatsBelow (shop : Workshop) (p : Progress) (place : Place) (nodes : List Node)
    (q : Progress) : Prop where
  seats : Seats shop p (listingOfAll nodes) q
  below : ∀ c ∈ nodes, c.Below place ∧ isShared c.keyword = false

theorem SeatsBelow.nil {place : Place} {p q : Progress} (seats : Seats shop p [] q) : SeatsBelow shop p place [] q :=
  ⟨seats, by simp⟩

theorem SeatsBelow.append {place : Place} {p q r : Progress} {nodes nodes' : List Node}
    (first : SeatsBelow shop p place nodes q) (second : SeatsBelow shop q place nodes' r) :
    SeatsBelow shop p place (nodes ++ nodes') r :=
  ⟨by rw [Node.listingOfAll_append]; exact first.seats.trans second.seats,
    List.forall_mem_append.2 ⟨first.below, second.below⟩⟩

theorem MadeAt.seatsBelow {place : Place} {p q : Progress} {x : SchemaNode} {n : Node}
    (made : MadeAt shop p (some place) x n q) (notShared : isShared x.keyword = false) :
    SeatsBelow shop p place [n] q := by
  refine ⟨by simpa using made.seats, fun c member => ?_⟩
  rw [List.mem_singleton.1 member]
  exact ⟨made.below, made.isOf.keyword ▸ notShared⟩

theorem MakesBelow.seatsBelow (makes : MakesBelow shop make) (busy : List Nat) {keyword : String}
    {x : SchemaNode} (place : Place) (p : Progress) (isKeyword : keyword = x.keyword)
    (proper : Proper shop.schema x) (notShared : isShared keyword = false) :
    Leaves (make busy keyword x place) p fun made q => SeatsBelow shop p place made.toList q := by
  refine (makes busy keyword x place p isKeyword proper).mono ?_
  rintro (- | n) q ⟨some, none⟩
  · exact .nil (none rfl)
  · exact (some n rfl).seatsBelow (isKeyword ▸ notShared)

theorem Numbers.finish_type {p q r : Progress} {place : Place} {type : Statement} {kind : Kind}
    {n : Node} (keyword : type.keyword = "type")
    (numbers : Numbers p (freshNode shop (some place) kind type p.next) q)
    (below : SeatsBelow shop q (freshNode shop (some place) kind type p.next).place n.owned r)
    (entry : n.entry = (freshNode shop (some place) kind type p.next).entry)
    (parent : n.parent = some place.id) (closed : n.members = none) :
    SeatsBelow shop p place [n] r := by
  have notShared : isShared n.keyword = false := by
    rw [show n.keyword = type.keyword from congrArg LedgerEntry.keyword entry, keyword]
    decide
  have seats := numbers.finish below.seats entry parent below.below (by simp [closed])
  refine ⟨by simpa using seats, fun c member => ?_⟩
  rw [List.mem_singleton.1 member]
  refine ⟨⟨parent, fun _ => ?_⟩, notShared⟩
  rw [show n.key = _ from congrArg LedgerEntry.key entry, show n.name = type.name from congrArg LedgerEntry.name entry]
  simp only [Node.entry, freshNode, keyOf, keyword]
  rfl

/-- A node that has been given a type: all else that it had is as before. -/
structure Retyped (shop : Workshop) (p : Progress) (node n : Node) (q : Progress) : Prop where
  below : SeatsBelow shop p node.place n.owned q
  entry : n.entry = node.entry
  statement : n.statement = node.statement
  parent : n.parent = node.parent
  members : n.members = node.members

section

variable (sound : shop.Sound) (makes : MakesBelow shop make) (busy : List Nat)
include sound makes busy

theorem makeDefinition_seats (keyword : String) : Defines shop make busy (fun p q => Seats shop p [] q) keyword := by
  intro d member isKeyword p
  obtain ⟨-, shared, proper⟩ := sound.mem_definitions member
  unfold makeDefinition
  refine (makes busy keyword d.node shop.top p isKeyword proper).bind ?_
  rintro (- | n) q ⟨some, none⟩
  · exact .pure (none rfl)
  · have made := some n rfl
    refine (define_agrees n q).bind ?_
    rintro - r rfl
    exact .pure (made.seats.define made.below (made.isOf.keyword ▸ shared))

theorem typedefOf_seats (key : String) :
    ∀ type ∈ shop.schema.all, Keeps (fun p q => Seats shop p [] q) (typedefOf shop make busy key type) :=
  typedefOf_lasts (seats_lasting shop) sound (makeDefinition_seats sound makes busy "typedef") Seats.idle key

theorem makeEnums_seats (place : Place) (values : List Statement) :
    ∀ p, (∀ v ∈ values, v ∈ shop.schema.all ∧ v.keyword = "enum") →
      Leaves (makeEnums make busy place values) p fun nodes q => SeatsBelow shop p place nodes q := by
  induction values with
  | nil => exact fun p _ => .pure (.nil (Seats.refl p))
  | cons v rest ih =>
    intro p spec
    obtain ⟨known, keyword⟩ := spec v List.mem_cons_self
    have proper := proper_enum sound.schema known keyword
    unfold makeEnums
    refine (makes.seatsBelow busy place p keyword.symm proper (by decide)).bind fun made q first => ?_
    refine (ih q fun w inRest => spec w (List.mem_cons_of_mem _ inRest)).bind ?_
    exact fun others r second => .pure (first.append second)

section

variable (place : Place) {type : Statement} (known : type ∈ shop.schema.all) (keyword : type.keyword = "type")
  (p : Progress)
include place known keyword p

theorem makeEnumeration_seats :
    Leaves (makeEnumeration shop make busy place type) p fun n q => SeatsBelow shop p place [n] q := by
  unfold makeEnumeration
  refine (create_numbers shop (some place) (.enumeration []) type p).bind ?_
  rintro node q ⟨rfl, numbers⟩
  refine (makeEnums_seats sound makes busy _ _ q (subsWith_known known "enum")).bind fun nodes r below => .pure ?_
  exact numbers.finish_type keyword below rfl rfl rfl

theorem makeUnion_seats : Leaves (makeUnion shop make busy place type) p fun n q => SeatsBelow shop p place [n] q := by
  unfold makeUnion
  refine (create_numbers shop (some place) (.union []) type p).bind ?_
  rintro node q ⟨rfl, numbers⟩
  have members := fun key => unionMembers_lasts (seats_lasting shop) (typedefOf_seats sound makes busy) key _
    fun t member => (subsWith_known known "type" t member).1
  refine (members _ q).bind fun members r seats => .pure ?_
  exact numbers.finish_type keyword (.nil seats) rfl rfl rfl

end

theorem makeReference_seats (place : Place) (type : Statement) (p : Progress) :
    Leaves (makeReference shop make busy place type) p fun made q => SeatsBelow shop p place made.toList q := by
  unfold makeReference
  cases found : (shop.schema.targets.lookup type.id).bind shop.schema.statement? with
  | none => exact .pure (.nil (Seats.refl p))
  | some target =>
    obtain ⟨known, isLeaf⟩ := target_spec sound found
    have keyword : target.keyword = (schemaNode shop.schema target).keyword := by
      rw [SchemaNode.keyword, schemaNode_statement sound.schema known]
    by_cases isBusy : busy.contains target.id = true
    · simp only [isBusy, if_true]
      exact (report_lasts (seats_lasting shop) _ _ _ p).bind fun _ q seats => .pure (.nil seats)
    · simp only [isBusy, Bool.false_eq_true, if_false]
      exact makes.seatsBelow _ place p keyword (proper_schemaNode sound.schema known)
        (isShared_of_isLeafKeyword isLeaf)

variable {node : Node} (bare : node.owned = [])
include bare

theorem makeType_retypes {s type : Statement} (known : s ∈ shop.schema.all) (isType : s.sub? "type" = some type)
    (p : Progress) : Leaves (makeType shop make busy node s type) p (Retyped shop p node) := by
  obtain ⟨sub, keyword⟩ := sub?_spec isType
  have typeKnown := Resolved.Sound.subs_known known sub
  unfold makeType
  by_cases builtin : isBuiltinType type.name = true
  · rw [if_pos builtin]
    by_cases isEnumeration : type.name = "enumeration"
    · simp only [isEnumeration]
      refine (makeEnumeration_seats sound makes busy node.place typeKnown keyword p).bind ?_
      exact fun n q below => .pure ⟨below, rfl, rfl, rfl, rfl⟩
    by_cases isUnion : type.name = "union"
    · simp only [isUnion]
      refine (makeUnion_seats sound makes busy node.place typeKnown keyword p).bind ?_
      exact fun n q below => .pure ⟨below, rfl, rfl, rfl, rfl⟩
    by_cases isLeafref : type.name = "leafref"
    · simp only [isLeafref]
      refine (makeReference_seats sound makes busy node.place type p).bind ?_
      exact fun made q below => .pure ⟨below, rfl, rfl, rfl, rfl⟩
    · simp only
      exact .pure ⟨by rw [bare]; exact .nil (Seats.refl p), rfl, rfl, rfl, rfl⟩
  · rw [if_neg builtin]
    refine (typedefOf_seats sound makes busy node.key type typeKnown p).bind ?_
    exact fun typedef q seats => .pure ⟨by rw [bare]; exact .nil seats, rfl, rfl, rfl, rfl⟩

theorem makeTyping_retypes {s : Statement} (known : s ∈ shop.schema.all) (p : Progress) :
    Leaves (makeTyping shop make busy node s) p (Retyped shop p node) := by
  unfold makeTyping
  cases isType : s.sub? "type" with
  | none => exact .pure ⟨by rw [bare]; exact .nil (Seats.refl p), rfl, rfl, rfl, rfl⟩
  | some type => exact makeType_retypes sound makes busy bare known isType p

end

/-! ## Making members -/

theorem Numbers.finish_node {p q r : Progress} {parent : Option Place} {x : SchemaNode} {kind : Kind}
    {n : Node} (numbers : Numbers p (freshNode shop parent kind x.statement p.next) q)
    (below : SeatsBelow shop q (freshNode shop parent kind x.statement p.next).place n.owned r)
    (entry : n.entry = (freshNode shop parent kind x.statement p.next).entry)
    (statement : n.statement = x.id) (isParent : n.parent = parent.map (·.id))
    (members : ∀ m, n.members = some m → n.Holds shop x m) :
    MadeAt shop p parent x n r := by
  have isOf : n.IsOf x :=
    ⟨statement, congrArg LedgerEntry.keyword entry, congrArg LedgerEntry.name entry⟩
  have seats := numbers.finish below.seats entry isParent below.below fun m isMembers =>
    ⟨x, isOf, members m isMembers⟩
  exact ⟨seats, isOf, congrArg LedgerEntry.node entry, congrArg LedgerEntry.key entry, isParent⟩

mutual
theorem construct_madeAt (sound : shop.Sound) (makes : MakesBelow shop make) (busy : List Nat) :
    ∀ (x : SchemaNode) (parent : Option Place) (p : Progress), Proper shop.schema x →
      x.keyword = "module" ∨ (shop.backend.lookup? x.keyword).isSome →
      Leaves (construct shop make busy parent (shop.constructorFor x.keyword) x) p
        fun n q => MadeAt shop p parent x n q
  | ⟨statement, children, augment⟩, parent, p, proper, isMade => by
    have known : statement ∈ shop.schema.all := proper.known
    rw [construct_eq]
    refine (create_numbers shop parent _ statement p).bind ?_
    rintro node q ⟨rfl, numbers⟩
    cases part : partOf (shop.constructorFor (SchemaNode.keyword ⟨statement, children, augment⟩)) with
    | nothing =>
      refine .pure (numbers.finish_node ?_ rfl rfl rfl (by rintro m ⟨⟩))
      exact .nil (Seats.refl q)
    | typing =>
      refine (makeTyping_retypes sound makes busy rfl known q).mono fun n r retyped => ?_
      refine numbers.finish_node retyped.below retyped.entry retyped.statement retyped.parent ?_
      intro m isMembers
      rw [retyped.members] at isMembers
      cases isMembers
    | members =>
      simp only [makeMembers]
      refine (constructAll_seats sound makes busy children _ q ?_).bind ?_
      · cases proper with
        | intro _ _ tree below => exact fun c isChild => ⟨below c isChild, tree c isChild⟩
      rintro owned r ⟨below, areOf⟩
      have defines := makeDefinition_seats sound makes busy "grouping"
      have uses := memberUses_known sound proper
      refine (groupingsOf_lasts (seats_lasting shop) sound defines _ uses r).bind fun used r' seats => .pure ?_
      refine numbers.finish_node ⟨by simpa using below.seats.trans seats, below.below⟩ rfl rfl rfl ?_
      rintro m ⟨⟩
      exact ⟨proper, ⟨part, isMade⟩, rfl, areOf, rfl⟩

/-- The nodes of the schema nodes below a place are put there in their order. -/
theorem constructAll_seats (sound : shop.Sound) (makes : MakesBelow shop make) (busy : List Nat) :
    ∀ (children : List SchemaNode) (place : Place) (p : Progress),
      (∀ c ∈ children, Proper shop.schema c ∧ isTreeKeyword c.keyword) →
      Leaves (constructAll shop make busy place children) p fun nodes q =>
        SeatsBelow shop p place nodes q ∧ List.Forall₂ Node.IsOf (shop.served children) nodes
  | [], _, p, _ => by
    simp only [constructAll]
    exact .pure ⟨.nil (Seats.refl p), .nil⟩
  | child :: rest, place, p, spec => by
    obtain ⟨proper, tree⟩ := spec child List.mem_cons_self
    rw [constructAll_cons]
    have here : Leaves (constructOne shop make busy place child) p fun nodes q =>
        SeatsBelow shop p place nodes q ∧ List.Forall₂ Node.IsOf (shop.served [child]) nodes := by
      unfold constructOne
      cases found : shop.backend.lookup? child.keyword with
      | none =>
        refine (report_lasts (seats_lasting shop) _ _ _ p).bind fun _ q seats => .pure ⟨.nil seats, ?_⟩
        simp [Workshop.served, found]
      | some constructor =>
        have constructed := construct_madeAt sound makes busy child (some place) p proper (.inr (by simp [found]))
        rw [Workshop.constructorFor, found] at constructed
        refine constructed.bind fun n q made => .pure ?_
        exact ⟨made.seatsBelow (not_isShared_of_isTreeKeyword tree), by simpa [Workshop.served, found] using made.isOf⟩
    refine here.bind ?_
    rintro made q ⟨first, isOf⟩
    refine (constructAll_seats sound makes busy rest place q
      fun c inRest => spec c (List.mem_cons_of_mem _ inRest)).bind ?_
    rintro others r ⟨second, areOf⟩
    refine .pure ⟨first.append second, ?_⟩
    rw [Workshop.served, ← List.singleton_append, List.filter_append]
    exact List.rel_append isOf areOf
end

/-- Makers with any bound on jumps put nodes below their places. -/
theorem makeWithin_makesBelow (sound : shop.Sound) : ∀ bound, MakesBelow shop (makeWithin shop bound)
  | 0 => by
    intro busy keyword x place p isKeyword proper
    exact .pure ⟨nofun, fun _ => Seats.refl p⟩
  | bound + 1 => by
    intro busy keyword x place p isKeyword proper
    subst isKeyword
    unfold makeWithin
    cases found : shop.backend.lookup? x.keyword with
    | none => exact (report_lasts (seats_lasting shop) _ _ _ p).bind fun _ q seats => .pure ⟨nofun, fun _ => seats⟩
    | some constructor =>
      have constructed := construct_madeAt sound (makeWithin_makesBelow sound bound) busy x (some place) p
        proper (.inr (by simp [found]))
      rw [Workshop.constructorFor, found] at constructed
      refine constructed.map some fun n q made => ⟨?_, nofun⟩
      rintro n' ⟨⟩
      exact made

end Steps

end YangStubs.Model
