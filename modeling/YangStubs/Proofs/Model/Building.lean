import YangStubs.Proofs.Model.Ledger

/-! # Building, step by step

What each step of building adds, and that the bound on jumps is never reached: with another maker in place
of the last one, every step does the same.  Each jump costs less than what is left: a definition that is
made is no longer to be made, a leafref target is being made, and an enum is written inside its type.
-/

namespace YangStubs.Model

open YangStubs.Schema
open YangStubs.Schema.Statement (withinAll)
open YangStubs.Schema.SchemaNode (placed placedAll)
open Node (listingOfAll)

variable {p q : Progress} {s type : Statement} {busy : List Nat}

/-! ## Steps that do the same -/

/-- Two steps do the same from `p` on, with what holds afterwards of the answer and of what has grown. -/
def Agrees {α : Type} (x y : Builder α) (p : Progress) (post : α → Progress → Prop) : Prop :=
  x.run p = y.run p ∧ post (x.run p).1 (x.run p).2

namespace Agrees

variable {α β : Type} {p : Progress}

theorem same {x : Builder α} {post : α → Progress → Prop} (holds : post (x.run p).1 (x.run p).2) : Agrees x x p post :=
  ⟨rfl, holds⟩

theorem pure {a : α} {post : α → Progress → Prop} (holds : post a p) : Agrees (Pure.pure a) (Pure.pure a) p post :=
  same holds

theorem bind {x y : Builder α} {f g : α → Builder β} {mid : α → Progress → Prop}
    {post : β → Progress → Prop} (first : Agrees x y p mid)
    (next : ∀ a q, mid a q → Agrees (f a) (g a) q post) : Agrees (x >>= f) (y >>= g) p post := by
  obtain ⟨equal, holds⟩ := first
  obtain ⟨equal', holds'⟩ := next _ _ holds
  refine ⟨?_, ?_⟩
  · rw [run_bind, run_bind, ← equal, equal']
  · rw [run_bind]
    exact holds'

theorem mono {x y : Builder α} {post post' : α → Progress → Prop} (agrees : Agrees x y p post)
    (weaker : ∀ a q, post a q → post' a q) : Agrees x y p post' :=
  ⟨agrees.1, weaker _ _ agrees.2⟩

theorem and {x y : Builder α} {post post' : α → Progress → Prop} (first : Agrees x y p post)
    (second : Agrees x y p post') : Agrees x y p fun a q => post a q ∧ post' a q :=
  ⟨first.1, first.2, second.2⟩

theorem get (p : Progress) : Agrees (MonadState.get : Builder Progress) MonadState.get p fun s q => p = s ∧ p = q :=
  same ⟨rfl, rfl⟩

theorem map {x y : Builder α} (f : α → β) {mid : α → Progress → Prop} {post : β → Progress → Prop}
    (agrees : Agrees x y p mid) (holds : ∀ a q, mid a q → post (f a) q) :
    Agrees (f <$> x) (f <$> y) p post :=
  agrees.bind fun a q h => pure (holds a q h)

end Agrees

/-! ## What is left to do -/

namespace Workshop

/-- How many definitions are not entered. -/
def unentered (shop : Workshop) (ledger : List LedgerEntry) : Nat :=
  (shop.definitions.filter fun d => (entered? d.node.keyword d.key ledger).isNone).length

/-- How many statements may become the target of a leafref inside the targets that are being made. -/
def free (shop : Workshop) (busy : List Nat) : Nat :=
  (shop.schema.all.filter fun s => !isShared s.keyword && !busy.contains s.id).length

/-- More than the size of any statement. -/
def width (shop : Workshop) : Nat :=
  shop.schema.all.length + 1

/-- What may still be spent on jumps, with so many definitions to be made and in a statement of that
    size. -/
def cost (shop : Workshop) (toMake : Nat) (busy : List Nat) (size : Nat) : Nat :=
  (toMake + shop.free busy) * shop.width + size

end Workshop

section

variable {shop : Workshop}

theorem unentered_le {ledger ledger' : List LedgerEntry} (grown : ledger <+: ledger') :
    shop.unentered ledger' ≤ shop.unentered ledger := by
  refine List.Sublist.length_le (List.monotone_filter_right _ fun d absent => ?_)
  cases found : entered? d.node.keyword d.key ledger with
  | none => rfl
  | some e => simp [entered?_later grown found] at absent

theorem unentered_lt {ledger ledger' : List LedgerEntry} (grown : ledger <+: ledger') {d : Definition}
    (member : d ∈ shop.definitions) (absent : entered? d.node.keyword d.key ledger = none)
    (entered : (entered? d.node.keyword d.key ledger').isSome) :
    shop.unentered ledger' < shop.unentered ledger := by
  refine length_filter_lt (fun d' _ absent' => ?_) member (by simp [absent])
    (by simpa [Option.isSome_iff_ne_none] using entered)
  cases found : entered? d'.node.keyword d'.key ledger with
  | none => rfl
  | some e => simp [entered?_later grown found] at absent'

theorem free_lt (known : s ∈ shop.schema.all) (notShared : isShared s.keyword = false)
    (notBusy : busy.contains s.id = false) : shop.free (s.id :: busy) < shop.free busy := by
  refine length_filter_lt (fun t _ kept => ?_) known (by rw [notShared, notBusy]; rfl) (by simp)
  simp only [List.contains_cons, Bool.and_eq_true, Bool.not_eq_true', Bool.or_eq_false_iff] at kept ⊢
  exact ⟨kept.1, kept.2.2⟩

/-- Definitions and targets together are no more than statements. -/
theorem unentered_add_free_le (sound : shop.Sound) (busy : List Nat) (ledger : List LedgerEntry) :
    shop.unentered ledger + shop.free busy ≤ shop.schema.all.length := by
  have definitions : shop.unentered ledger ≤ (shop.schema.all.filter fun s => isShared s.keyword).length := by
    have counted := congrArg List.length sound.statements
    rw [List.length_map] at counted
    calc shop.unentered ledger ≤ shop.definitions.length := List.length_filter_le _ _
      _ = ((withinAll shop.schema.forest).filter fun s => isShared s.keyword).length := counted
      _ ≤ _ := by
        rw [Resolved.all, List.filter_append, List.length_append]
        exact Nat.le_add_right _ _
  have targets : shop.free busy ≤ (shop.schema.all.filter fun s => !isShared s.keyword).length := by
    refine List.Sublist.length_le (List.monotone_filter_right _ fun s kept => ?_)
    exact (Bool.and_eq_true _ _ ▸ kept).1
  have both := List.length_eq_length_filter_add (l := shop.schema.all) fun s => isShared s.keyword
  omega

theorem cost_lt {toMake toMake' : Nat} {busy' : List Nat} (size : Nat)
    (fewer : toMake' + shop.free busy' < toMake + shop.free busy) :
    shop.cost toMake' busy' shop.schema.all.length < shop.cost toMake busy size := by
  have product := Nat.mul_le_mul_right shop.width fewer
  rw [Nat.succ_mul] at product
  unfold Workshop.cost
  have width : shop.width = shop.schema.all.length + 1 := rfl
  omega

theorem cost_mono {toMake toMake' : Nat} (busy : List Nat) {size size' : Nat} (fewer : toMake' ≤ toMake)
    (smaller : size' ≤ size) : shop.cost toMake' busy size' ≤ shop.cost toMake busy size :=
  Nat.add_le_add (Nat.mul_le_mul_right _ (Nat.add_le_add_right fewer _)) smaller

end

/-! ## Makers -/

/-- The definitions that are left to be made once a node of that keyword is being made. -/
def Workshop.toMake (shop : Workshop) (ledger : List LedgerEntry) (keyword : String) : Nat :=
  if isShared keyword then shop.unentered ledger - 1 else shop.unentered ledger

/-- A schema node that a node can be made of: if it is a definition, one that has not been made. -/
structure Makeable (shop : Workshop) (p : Progress) (x : SchemaNode) (size : Nat) : Prop where
  proper : Proper shop.schema x
  sizes : ∀ s ∈ x.placed, s.size ≤ size
  absent : isShared x.keyword → ∃ d ∈ shop.definitions, d.node = x ∧ entered? x.keyword d.key p.ledger = none

/-- A node made of a schema node, with all that is below it. -/
structure MadeOf (shop : Workshop) (p : Progress) (x : SchemaNode) (n : Node) (q : Progress) : Prop where
  grown : Grown shop p n.listing q
  statement : n.statement = x.id
  keyword : n.keyword = x.keyword
  name : n.name = x.name

/-- What a maker answers: a node, or nothing if the backend has no constructor for the keyword. -/
structure Served (shop : Workshop) (p : Progress) (x : SchemaNode) (made : Option Node) (q : Progress) :
    Prop where
  grown : Grown shop p (listingOfAll made.toList) q
  none : made = none → shop.backend.lookup? x.keyword = none ∧ q.ledger = p.ledger
  some : ∀ n, made = some n → MadeOf shop p x n q

/-- Makers that do the same as long as the cost of a jump stays below the budget. -/
def Serves (shop : Workshop) (make make' : Maker) (budget : Nat) : Prop :=
  ∀ busy place keyword p x size, keyword = x.keyword → Steady shop p.ledger → Makeable shop p x size →
    shop.cost (shop.toMake p.ledger keyword) busy size < budget →
    Agrees (make busy keyword x place) (make' busy keyword x place) p (Served shop p x)

mutual
theorem Proper.placed_known {schema : Resolved} :
    ∀ x : SchemaNode, Proper schema x → ∀ s ∈ x.placed, s ∈ schema.all
  | ⟨_, children, _⟩, .intro known _ _ below, s, member => by
    simp only [placed, List.mem_cons] at member
    rcases member with rfl | member
    · exact known
    · exact placedAll_known children below s member

theorem placedAll_known {schema : Resolved} :
    ∀ l : List SchemaNode, (∀ x ∈ l, Proper schema x) → ∀ s ∈ placedAll l, s ∈ schema.all
  | [], _, _, member => by simp at member
  | x :: rest, proper, s, member => by
    simp only [SchemaNode.placedAll_cons, List.mem_append] at member
    rcases member with here | others
    · exact Proper.placed_known x (proper x List.mem_cons_self) s here
    · exact placedAll_known rest (fun y inRest => proper y (List.mem_cons_of_mem _ inRest)) s others
end

theorem Grown.lawful {shop : Workshop} {own : List Node} (grown : Grown shop p own q) (steady : Steady shop q.ledger)
    {n : Node} (member : n ∈ own) : Lawful shop q.ledger n := by
  obtain ⟨entries, definitions, -, -, lawful⟩ := grown
  exact lawful q.ledger (List.prefix_refl _) steady n (List.mem_append_left _ member)

/-- What is at hand before making something in a statement of that size: the ledger is steady, and the budget is
    enough. -/
structure Ready (shop : Workshop) (budget : Nat) (busy : List Nat) (size : Nat) (p : Progress) : Prop where
  steady : Steady shop p.ledger
  affordable : shop.cost (shop.unentered p.ledger) busy size ≤ budget

theorem Ready.later {shop : Workshop} {budget size : Nat} {busy : List Nat} {p q : Progress} {own : List Node}
    (ready : Ready shop budget busy size p) (grown : Grown shop p own q) : Ready shop budget busy size q :=
  ⟨grown.steady ready.steady,
    Nat.le_trans (cost_mono busy (unentered_le grown.ledger) (Nat.le_refl _)) ready.affordable⟩

theorem Ready.mono {shop : Workshop} {budget size size' : Nat} (ready : Ready shop budget busy size p)
    (smaller : size' ≤ size) : Ready shop budget busy size' p :=
  ⟨ready.steady, Nat.le_trans (cost_mono busy (Nat.le_refl _) smaller) ready.affordable⟩

theorem Workshop.Sound.eq_of_id_eq {shop : Workshop} (sound : shop.Sound) {d d' : Definition}
    (member : d ∈ shop.definitions) (member' : d' ∈ shop.definitions) (same : d.node.id = d'.node.id) :
    d = d' :=
  List.inj_on_of_nodup_map sound.definitions_nodup member member' same

/-- The node of a definition that has been made is found under the key of the definition. -/
theorem MadeOf.entered {shop : Workshop} (sound : shop.Sound) {d : Definition} {n : Node}
    (made : MadeOf shop p d.node n q) (member : d ∈ shop.definitions) (steady : Steady shop p.ledger) :
    entered? d.node.keyword d.key q.ledger = some ⟨d.node.keyword, d.key, d.node.name, n.id⟩ := by
  have steady' := made.grown.steady steady
  have inListing : n ∈ n.listing := by rw [Node.listing_eq]; exact List.mem_cons_self
  have shared : isShared n.keyword := made.keyword ▸ (sound.mem_definitions member).2.1
  obtain ⟨d', member', atId, key⟩ := (made.grown.lawful steady' inListing).shared shared
  have same : d' = d := sound.eq_of_id_eq member' member (atId.trans made.statement)
  have found := steady'.entered?_eq (made.grown.entry_mem inListing shared)
  rw [same] at key
  simpa [Node.entry, made.keyword, ← key, made.name] using found

/-! ## References -/

/-- What is answered stays right, whatever is entered later. -/
def Answers {α : Type} (shop : Workshop) (q : Progress) (answer : α) (of : List LedgerEntry → α) : Prop :=
  ∀ final, q.ledger <+: final → Steady shop final → answer = of final

/-- One answer before others. -/
theorem Answers.cons {α β : Type} {shop : Workshop} {q r : Progress}
    {of : List LedgerEntry → α → Option β} {a : α} {rest : List α} {answer : Option β} {others : List β}
    (here : Answers shop q answer fun final => of final a)
    (after : Answers shop r others fun final => rest.filterMap (of final))
    (grown : q.ledger <+: r.ledger) :
    Answers shop r (answer.toList ++ others) fun final => (a :: rest).filterMap (of final) := by
  intro final later steady
  have first : answer = of final a := here final (grown.trans later) steady
  have second : others = rest.filterMap (of final) := after final later steady
  simp only [first, second, List.filterMap_cons]
  cases of final a <;> rfl

theorem report_agrees (shop : Workshop) (level : Level) (origin : Origin) (message : String) (p : Progress) :
    Agrees (report level origin message) (report level origin message) p fun _ q =>
      Grown shop p [] q ∧ q.ledger = p.ledger :=
  .same ⟨Grown.idle rfl rfl rfl, rfl⟩

/-- A node is put beside the others. -/
theorem define_agrees (n : Node) (p : Progress) :
    let step : Builder PUnit := modify fun s => { s with definitions := s.definitions ++ [n] }
    Agrees step step p fun _ q => q = { p with definitions := p.definitions ++ [n] } :=
  .same rfl

/-- From `p` to `q`, a typedef is noted unless one of its name is. -/
structure Noted (name : String) (node : Nat) (p q : Progress) : Prop where
  ledger : q.ledger = p.ledger
  next : q.next = p.next
  definitions : q.definitions = p.definitions
  derived : ∃ noted, q.derived = p.derived ++ noted ∧ (∃ d ∈ q.derived, d.name = name) ∧
    ∀ d ∈ noted, d.node = node ∧ ∀ d' ∈ p.derived, d'.name ≠ d.name

theorem noteTypedef_agrees (name key : String) (node : Nat) (p : Progress) :
    Agrees (noteTypedef name key node) (noteTypedef name key node) p fun _ q => Noted name node p q := by
  apply Agrees.same
  simp only [noteTypedef, run_bind]
  have current : ((get : Builder Progress).run p) = (p, p) := rfl
  rw [current]
  cases found : p.derived.find? (·.name == name) with
  | none =>
    exact ⟨rfl, rfl, rfl, [⟨name, key, node⟩], rfl, ⟨_, List.mem_concat_self, rfl⟩, by simpa using found⟩
  | some first =>
    have isNoted : ∃ d ∈ p.derived, d.name = name :=
      ⟨first, List.mem_of_find?_eq_some found, by simpa using List.find?_some found⟩
    simp only
    split <;> exact ⟨rfl, rfl, rfl, [], (List.append_nil _).symm, isNoted, by simp⟩

section Steps

variable {shop : Workshop} {make make' : Maker} {budget : Nat}

section

variable (sound : shop.Sound) (serves : Serves shop make make' budget) {busy : List Nat} {keyword : String}
  {d : Definition} (member : d ∈ shop.definitions) (isKeyword : keyword = d.node.keyword) {p : Progress}
  (ready : Ready shop budget busy 0 p)
include sound serves member isKeyword ready

theorem makeDefinition_agrees (absent : entered? keyword d.key p.ledger = none) :
    Agrees (makeDefinition shop make busy keyword d) (makeDefinition shop make' busy keyword d) p
      fun made q => Grown shop p [] q ∧
        (made = none → shop.backend.lookup? keyword = none ∧ q.ledger = p.ledger) ∧
        ∀ id, made = some id → entered? keyword d.key q.ledger = some ⟨keyword, d.key, d.node.name, id⟩ := by
  subst isKeyword
  obtain ⟨known, shared, proper⟩ := sound.mem_definitions member
  have makeable : Makeable shop p d.node shop.schema.all.length :=
    ⟨proper, fun s inside => Resolved.Sound.size_le (proper.placed_known d.node s inside),
      fun _ => ⟨d, member, rfl, absent⟩⟩
  have positive : 0 < shop.unentered p.ledger :=
    List.length_pos_of_mem (List.mem_filter.2 ⟨member, by simp [absent]⟩)
  have cheaper : shop.cost (shop.toMake p.ledger d.node.keyword) busy shop.schema.all.length < budget := by
    refine Nat.lt_of_lt_of_le (cost_lt 0 ?_) ready.affordable
    rw [Workshop.toMake, if_pos shared]
    omega
  unfold makeDefinition
  refine (serves busy shop.top d.node.keyword p d.node _ rfl ready.steady makeable cheaper).bind ?_
  rintro (- | n) q served
  · exact .pure ⟨served.grown, fun _ => served.none rfl, by simp⟩
  · have made := served.some n rfl
    refine (define_agrees n q).bind ?_
    rintro - r rfl
    refine .pure ⟨made.grown.define, nofun, ?_⟩
    rintro id same
    cases same
    exact made.entered sound member ready.steady

theorem refer_agrees :
    Agrees (refer shop make busy keyword d) (refer shop make' busy keyword d) p
      fun answer q => Grown shop p [] q ∧
        (Answers shop q answer fun final => d.answer final keyword) ∧
        ((shop.backend.lookup? keyword).isSome → (entered? keyword d.key q.ledger).isSome) := by
  unfold refer
  refine (Agrees.get p).bind ?_
  rintro s q ⟨rfl, rfl⟩
  cases found : entered? keyword d.key p.ledger with
  | some e =>
    refine .pure ⟨Grown.refl _, fun final grown _ => ?_, fun _ => Option.isSome_of_eq_some found⟩
    simp [Definition.answer, entered?_later grown found]
  | none =>
    refine (makeDefinition_agrees sound serves member isKeyword ready found).bind ?_
    rintro made q ⟨grown, none, some⟩
    cases made with
    | none =>
      have unserved := (none rfl).1
      refine .pure ⟨grown, fun final later steady' => ?_, by simp [unserved]⟩
      cases entered : entered? keyword d.key final with
      | none => simp [Definition.answer, entered]
      | some e =>
        -- The ledger has no entries of a keyword without a constructor.
        obtain ⟨inLedger, sameKeyword, -⟩ := entered?_spec entered
        have served := steady'.served e inLedger
          (by rw [sameKeyword, isKeyword]; exact (sound.mem_definitions member).2.1)
        rw [sameKeyword, unserved] at served
        cases served
    | some id =>
      refine .pure ⟨grown, fun final later steady' => ?_, fun _ => Option.isSome_of_eq_some (some id rfl)⟩
      simp [Definition.answer, entered?_later later (some id rfl)]

end

/-- The grouping that one `uses` statement refers to. -/
def usedGrouping (shop : Workshop) (make : Maker) (busy : List Nat) (u : Statement) :
    Builder (Option (String × Nat)) :=
  match u.grouping.bind shop.definition? with
  | some grouping => refer shop make busy "grouping" grouping
  | none => pure none

theorem groupingsOf_cons (make : Maker) (busy : List Nat) (u : Statement) (rest : List Statement) :
    groupingsOf shop make busy (u :: rest) = do
      let used ← usedGrouping shop make busy u
      let others ← groupingsOf shop make busy rest
      return used.toList ++ others := by
  simp only [groupingsOf, usedGrouping]
  cases u.grouping.bind shop.definition? <;> rfl

theorem mem_subsWith {t : Statement} {keyword : String} (member : t ∈ s.subsWith keyword) :
    t ∈ s.subs ∧ t.keyword = keyword := by
  simpa [Statement.subsWith] using member

theorem subsWith_known {schema : Resolved} (known : s ∈ schema.all) (keyword : String) :
    ∀ t ∈ s.subsWith keyword, t ∈ schema.all ∧ t.keyword = keyword := fun _ member =>
  ⟨Resolved.Sound.subs_known known (mem_subsWith member).1, (mem_subsWith member).2⟩

theorem size_lt_of_mem_subs {t : Statement} (sub : t ∈ s.subs) : t.size < s.size := by
  have smaller := Statement.size_le_of_mem_withinAll (Statement.mem_withinAll_of_mem sub)
  rw [Statement.size_eq s]
  omega

theorem create_agrees (shop : Workshop) (parent : Option Place) (kind : Kind) (s : Statement)
    (p : Progress) :
    Agrees (create shop parent kind s) (create shop parent kind s) p fun node q =>
      node = freshNode shop parent kind s p.next ∧ Created p node q ∧
        (parent.isSome → isUnlisted s.keyword = false → entered? node.keyword node.key p.ledger = none →
          q.ledger = p.ledger ++ [node.entry]) := by
  obtain ⟨isFresh, created⟩ := create_created shop parent kind s p
  refine .same ⟨isFresh, created, fun isSome listed absent => ?_⟩
  obtain ⟨place, rfl⟩ := Option.isSome_iff_exists.1 isSome
  rw [isFresh] at absent ⊢
  exact create_listed shop place kind listed absent

theorem Created.ledger_grown {node : Node} (created : Created p node q) : p.ledger <+: q.ledger := by
  rcases created.ledger with same | ⟨added, -⟩
  · exact same ▸ List.prefix_refl _
  · exact added ▸ List.prefix_append _ _

theorem Created.steady {node : Node} (created : Created p node q)
    (served : isShared node.keyword → (shop.backend.lookup? node.keyword).isSome) (steady : Steady shop p.ledger) :
    Steady shop q.ledger := by
  rcases created.ledger with same | ⟨added, absent⟩
  · exact same ▸ steady
  · exact added ▸ steady.add absent served

theorem Created.ready_type {place : Place} {kind : Kind} {size : Nat}
    (created : Created p (freshNode shop (some place) kind type p.next) q) (notShared : ¬ isShared type.keyword)
    (ready : Ready shop budget busy size p) : Ready shop budget busy size q :=
  ⟨created.steady (fun shared => absurd shared notShared) ready.steady,
    Nat.le_trans (cost_mono busy (unentered_le created.ledger_grown) (Nat.le_refl _)) ready.affordable⟩

theorem Shows.of_type {n : Node} (keyword : type.keyword = "type") (name : n.name = type.name)
    (home : n.home = type.home) (untyped : n.typing = none) (closed : n.members = none) : Shows shop type n :=
  ⟨name, home, .of_untyped untyped, fun other => absurd keyword other, fun other => absurd keyword other,
    by simp [closed], by simp [closed], fun other => absurd keyword other⟩

/-- The member of a union that one type is. -/
def unionMember (shop : Workshop) (make : Maker) (busy : List Nat) (key : String) (type : Statement) :
    Builder (Option (String × MemberType)) :=
  if isBuiltinType type.name then
    pure (some (type.name, MemberType.builtin (shop.dataType type.name)))
  else do
    let typedef ← typedefOf shop make busy key type
    pure (typedef.map fun (name, node) => (name, MemberType.typedef node))

theorem unionMembers_cons (make : Maker) (busy : List Nat) (key : String) (type : Statement)
    (rest : List Statement) :
    unionMembers shop make busy key (type :: rest) = do
      let member ← unionMember shop make busy key type
      let others ← unionMembers shop make busy key rest
      return member.toList ++ others := by
  simp only [unionMembers, unionMember]
  split <;> rfl

theorem isShared_of_isLeafKeyword {keyword : String} (isLeaf : isLeafKeyword keyword) : isShared keyword = false := by
  simp only [isLeafKeyword, Bool.or_eq_true, beq_iff_eq] at isLeaf
  rcases isLeaf with rfl | rfl <;> decide

theorem target_spec (sound : shop.Sound) {target : Statement}
    (found : (shop.schema.targets.lookup type.id).bind shop.schema.statement? = some target) :
    target ∈ shop.schema.all ∧ isLeafKeyword target.keyword := by
  obtain ⟨id, listed, isTarget⟩ := Option.bind_eq_some_iff.1 found
  obtain ⟨s, known, rfl, isLeaf⟩ := sound.schema.targets _ (mem_of_lookup_eq_some listed)
  rw [sound.schema.statement?_eq known] at isTarget
  exact Option.some.inj isTarget ▸ ⟨known, isLeaf⟩

/-- A node that has been given a type, with the nodes made for it. -/
structure Typed (shop : Workshop) (p : Progress) (s : Statement) (node n : Node) (q : Progress) :
    Prop where
  grown : Grown shop p (listingOfAll n.owned) q
  entry : n.entry = node.entry
  statement : n.statement = node.statement
  members : n.members = node.members
  kind : n.kind = node.kind
  home : n.home = node.home
  types : TypesBelow n
  typed : ∀ type, s.sub? "type" = some type → ∃ t, n.typing = some t ∧
    (t.enumeration.isSome ∨ t.union.isSome ↔ type.name = "enumeration" ∨ type.name = "union")
  typing : ∀ final, q.ledger <+: final → Steady shop final → ∀ t, n.typing = some t →
    ∃ type, s.sub? "type" = some type ∧
      t.typedef = if isBuiltinType type.name then none else (shop.typedefIn final type).map (·.2)
  listed : ∀ t ∈ derivedTypes s, Listed shop q.ledger "typedef" t.typedef

theorem Typed.of_builtin {node : Node} {typing : Typing}
    {owned : List Node} (isType : s.sub? "type" = some type) (builtin : isBuiltinType type.name = true)
    (grown : Grown shop p (listingOfAll owned) q) (noTypedef : typing.typedef = none)
    (types : TypesBelow { node with typing := some typing, owned })
    (defines : typing.enumeration.isSome ∨ typing.union.isSome ↔ type.name = "enumeration" ∨ type.name = "union")
    (listed : type.name = "union" → ∀ t ∈ type.subsWith "type", isBuiltinType t.name = false →
      Listed shop q.ledger "typedef" t.typedef) :
    Typed shop p s node { node with typing := some typing, owned } q := by
  refine ⟨grown, rfl, rfl, rfl, rfl, rfl, types, ?_, ?_, ?_⟩
  · intro type' isType'
    obtain rfl := Option.some.inj (isType.symm.trans isType')
    exact ⟨typing, rfl, defines⟩
  · rintro final later steady t same
    cases same
    exact ⟨type, isType, by rw [noTypedef, if_pos builtin]⟩
  · intro t member
    rw [derivedTypes, isType, Option.toList_some, List.flatMap_singleton, List.mem_filter] at member
    obtain ⟨isMember, derived⟩ := member
    by_cases isUnion : type.name = "union"
    · rw [if_pos isUnion] at isMember
      exact listed isUnion t isMember (by simpa using derived)
    · rw [if_neg isUnion, List.mem_singleton] at isMember
      rw [isMember, builtin] at derived
      cases derived

theorem sub?_spec {t : Statement} {keyword : String} (found : s.sub? keyword = some t) :
    t ∈ s.subs ∧ t.keyword = keyword :=
  ⟨List.mem_of_find?_eq_some found, by simpa using List.find?_some found⟩

section

variable (sound : shop.Sound) (serves : Serves shop make make' budget) {busy : List Nat}
include sound serves

theorem usedGrouping_agrees {u : Statement} (known : u ∈ shop.schema.all) (ready : Ready shop budget busy 0 p) :
    Agrees (usedGrouping shop make busy u) (usedGrouping shop make' busy u) p
      fun answer q => Grown shop p [] q ∧
        (Answers shop q answer fun final => shop.usedIn final u) ∧
        Listed shop q.ledger "grouping" u.grouping := by
  unfold usedGrouping
  cases linked : u.grouping.bind shop.definition? with
  | none =>
    exact .pure ⟨Grown.refl _, fun final _ _ => by simp [Workshop.usedIn, linked], by simp [Listed, linked]⟩
  | some d =>
    obtain ⟨member, keyword⟩ := sound.grouping_of_uses known linked
    refine (refer_agrees sound serves member keyword.symm ready).mono ?_
    rintro answer q ⟨grown, answers, entered⟩
    refine ⟨grown, fun final later steady' => ?_, by simpa [Listed, linked] using entered⟩
    rw [answers final later steady']
    simp [Workshop.usedIn, linked]

theorem groupingsOf_agrees (uses : List Statement) :
    ∀ {p : Progress}, (∀ u ∈ uses, u ∈ shop.schema.all) → Ready shop budget busy 0 p →
      Agrees (groupingsOf shop make busy uses) (groupingsOf shop make' busy uses) p
        fun answers q => Grown shop p [] q ∧
          (Answers shop q answers fun final => uses.filterMap (shop.usedIn final)) ∧
          ∀ u ∈ uses, Listed shop q.ledger "grouping" u.grouping := by
  induction uses with
  | nil => exact fun _ _ => .pure ⟨Grown.refl _, fun _ _ _ => rfl, by simp⟩
  | cons u rest ih =>
    intro p known ready
    rw [groupingsOf_cons, groupingsOf_cons]
    refine (usedGrouping_agrees sound serves (known u List.mem_cons_self) ready).bind ?_
    rintro used q ⟨grown, answers, listed⟩
    refine (ih (fun v inRest => known v (List.mem_cons_of_mem _ inRest)) (ready.later grown)).bind ?_
    rintro others r ⟨grown', answers', listed'⟩
    exact .pure ⟨grown.trans grown', answers.cons answers' grown'.ledger,
      List.forall_mem_cons.2 ⟨listed.later grown'.ledger, listed'⟩⟩

theorem typedefOf_agrees (key : String) (known : type ∈ shop.schema.all) (ready : Ready shop budget busy 0 p) :
    Agrees (typedefOf shop make busy key type) (typedefOf shop make' busy key type) p
      fun answer q => Grown shop p [] q ∧
        (Answers shop q answer fun final => shop.typedefIn final type) ∧
        Listed shop q.ledger "typedef" type.typedef := by
  unfold typedefOf
  cases linked : type.typedef.bind shop.definition? with
  | none =>
    refine (report_agrees shop _ _ _ p).bind fun _ q grown => .pure ⟨grown.1, fun final _ _ => ?_, by simp [Listed, linked]⟩
    simp [Workshop.typedefIn, linked]
  | some d =>
    obtain ⟨member, keyword⟩ := sound.typedef_of_type known linked
    refine (refer_agrees sound serves member keyword.symm ready).bind ?_
    rintro (- | ⟨name, node⟩) q ⟨grown, answers, entered⟩
    · refine .pure ⟨grown, fun final later steady' => ?_, by simpa [Listed, linked] using entered⟩
      rw [answers final later steady']
      simp [Workshop.typedefIn, linked]
    · have noted := (noteTypedef_agrees d.node.name d.key node q).mono fun _ r noted =>
        (Grown.idle noted.ledger noted.next noted.definitions : Grown shop q [] r)
      have listed : Listed shop q.ledger "typedef" type.typedef := by simpa [Listed, linked] using entered
      refine noted.bind fun _ r grown' =>
        .pure ⟨grown.trans grown', fun final later steady' => ?_, listed.later grown'.ledger⟩
      rw [answers final (grown'.ledger.trans later) steady']
      simp [Workshop.typedefIn, linked]

theorem makeEnums_agrees (place : Place) {size : Nat} (values : List Statement) :
    ∀ {p : Progress},
      (∀ v ∈ values, v ∈ shop.schema.all ∧ v.keyword = "enum" ∧ v.size < size) → Ready shop budget busy size p →
      Agrees (makeEnums make busy place values) (makeEnums make' busy place values) p
        fun nodes q => Grown shop p (listingOfAll nodes) q := by
  induction values with
  | nil => exact fun _ _ => .pure (Grown.refl _)
  | cons v rest ih =>
    intro p spec ready
    obtain ⟨known, keyword, smaller⟩ := spec v List.mem_cons_self
    have proper : Proper shop.schema ⟨v, [], none⟩ :=
      proper_enum sound.schema known keyword
    have makeable : Makeable shop p ⟨v, [], none⟩ v.size := by
      refine ⟨proper, ?_, fun shared => ?_⟩
      · simp [SchemaNode.placed_eq]
      · rw [SchemaNode.keyword, keyword] at shared
        exact absurd shared (by decide)
    have cheaper : shop.cost (shop.toMake p.ledger "enum") busy v.size < budget := by
      have notShared : shop.toMake p.ledger "enum" = shop.unentered p.ledger := rfl
      rw [notShared]
      exact Nat.lt_of_lt_of_le (Nat.add_lt_add_left smaller _) ready.affordable
    unfold makeEnums
    refine (serves busy place "enum" p ⟨v, [], none⟩ v.size keyword.symm ready.steady makeable cheaper).bind ?_
    rintro made q ⟨grown, -, -⟩
    refine (ih (fun w inRest => spec w (List.mem_cons_of_mem _ inRest)) (ready.later grown)).bind ?_
    intro others r grown'
    refine .pure ?_
    rw [Node.listingOfAll_append]
    exact grown.trans grown'

theorem makeEnumeration_agrees (place : Place) (known : type ∈ shop.schema.all) (keyword : type.keyword = "type")
    (ready : Ready shop budget busy type.size p) :
    Agrees (makeEnumeration shop make busy place type) (makeEnumeration shop make' busy place type) p
      fun n q => Grown shop p n.listing q ∧ ∃ enums, n.kind = .enumeration enums := by
  unfold makeEnumeration
  refine (create_agrees shop (some place) (.enumeration []) type p).bind ?_
  rintro node q ⟨rfl, created, -⟩
  have notShared : ¬ isShared type.keyword := by rw [keyword]; decide
  have enums : ∀ v ∈ type.subsWith "enum", v ∈ shop.schema.all ∧ v.keyword = "enum" ∧ v.size < type.size := by
    intro v member
    obtain ⟨sub, isEnum⟩ := mem_subsWith member
    exact ⟨Resolved.Sound.subs_known known sub, isEnum, size_lt_of_mem_subs sub⟩
  refine (makeEnums_agrees sound serves _ _ enums (created.ready_type notShared ready)).bind ?_
  intro nodes r grown
  refine .pure ⟨?_, _, rfl⟩
  rw [Node.listing_eq]
  refine created.finish grown rfl (fun shared => absurd shared notShared)
    (fun shared => absurd shared notShared) fun final later steady' => ?_
  exact ⟨⟨type, known, rfl, rfl, nofun, nofun, nofun⟩, fun shared => absurd shared notShared,
    ⟨type, known, rfl, .of_type keyword rfl rfl rfl rfl⟩, ⟨type, known, rfl, nofun, nofun, nofun⟩⟩

theorem unionMember_agrees (key : String) (known : type ∈ shop.schema.all) (ready : Ready shop budget busy 0 p) :
    Agrees (unionMember shop make busy key type) (unionMember shop make' busy key type) p
      fun member q => Grown shop p [] q ∧
        (Answers shop q member fun final => shop.memberIn final type) ∧
        (isBuiltinType type.name = false → Listed shop q.ledger "typedef" type.typedef) := by
  unfold unionMember
  by_cases builtin : isBuiltinType type.name = true
  · rw [if_pos builtin, if_pos builtin]
    exact .pure ⟨Grown.refl _, fun final _ _ => by simp [Workshop.memberIn, builtin], by simp [builtin]⟩
  · rw [if_neg builtin, if_neg builtin]
    refine (typedefOf_agrees sound serves key known ready).bind ?_
    rintro typedef q ⟨grown, answers, listed⟩
    refine .pure ⟨grown, fun final later steady' => ?_, fun _ => listed⟩
    rw [answers final later steady']
    simp [Workshop.memberIn, builtin]

theorem unionMembers_agrees (key : String) (types : List Statement) :
    ∀ {p : Progress}, (∀ t ∈ types, t ∈ shop.schema.all) → Ready shop budget busy 0 p →
      Agrees (unionMembers shop make busy key types) (unionMembers shop make' busy key types) p
        fun members q => Grown shop p [] q ∧
          (Answers shop q members fun final => types.filterMap (shop.memberIn final)) ∧
          ∀ t ∈ types, isBuiltinType t.name = false → Listed shop q.ledger "typedef" t.typedef := by
  induction types with
  | nil => exact fun _ _ => .pure ⟨Grown.refl _, fun _ _ _ => rfl, by simp⟩
  | cons t rest ih =>
    intro p known ready
    rw [unionMembers_cons, unionMembers_cons]
    refine (unionMember_agrees sound serves key (known t List.mem_cons_self) ready).bind ?_
    rintro member q ⟨grown, answers, listed⟩
    refine (ih (fun u inRest => known u (List.mem_cons_of_mem _ inRest)) (ready.later grown)).bind ?_
    rintro others r ⟨grown', answers', listed'⟩
    exact .pure ⟨grown.trans grown', answers.cons answers' grown'.ledger,
      List.forall_mem_cons.2 ⟨fun derived => (listed derived).later grown'.ledger, listed'⟩⟩

theorem makeUnion_agrees (place : Place) (known : type ∈ shop.schema.all) (keyword : type.keyword = "type")
    (ready : Ready shop budget busy 0 p) :
    Agrees (makeUnion shop make busy place type) (makeUnion shop make' busy place type) p
      fun n q => Grown shop p n.listing q ∧ (∃ members, n.kind = .union members) ∧
        ∀ t ∈ type.subsWith "type", isBuiltinType t.name = false → Listed shop q.ledger "typedef" t.typedef := by
  unfold makeUnion
  refine (create_agrees shop (some place) (.union []) type p).bind ?_
  rintro node q ⟨rfl, created, -⟩
  have notShared : ¬ isShared type.keyword := by rw [keyword]; decide
  refine (unionMembers_agrees sound serves _ _ (fun t member => (subsWith_known known "type" t member).1)
    (created.ready_type notShared ready)).bind ?_
  rintro members r ⟨grown, answers, listed⟩
  refine .pure ⟨?_, ⟨_, rfl⟩, listed⟩
  rw [Node.listing_eq]
  refine created.finish grown rfl (fun shared => absurd shared notShared)
    (fun shared => absurd shared notShared) fun final later steady' => ?_
  refine ⟨⟨type, known, rfl, rfl, nofun, nofun, ?_⟩, fun shared => absurd shared notShared,
    ⟨type, known, rfl, .of_type keyword rfl rfl rfl rfl⟩, ⟨type, known, rfl, nofun, nofun, ?_⟩⟩
  · rintro recorded same
    cases same
    rw [answers final later steady']
  · exact fun _ _ t isMember derived => (listed t isMember derived).later later

theorem makeReference_agrees (place : Place) (type : Statement) (ready : Ready shop budget busy 0 p) :
    Agrees (makeReference shop make busy place type) (makeReference shop make' busy place type) p
      fun made q => Grown shop p (listingOfAll made.toList) q := by
  unfold makeReference
  cases found : (shop.schema.targets.lookup type.id).bind shop.schema.statement? with
  | none => exact .pure (Grown.refl _)
  | some target =>
    obtain ⟨known, isLeaf⟩ := target_spec sound found
    have notShared := isShared_of_isLeafKeyword isLeaf
    by_cases isBusy : busy.contains target.id = true
    · simp only [isBusy, if_true]
      exact (report_agrees shop _ _ _ p).bind fun _ q grown => .pure grown.1
    · simp only [isBusy, Bool.false_eq_true, if_false]
      -- The jump is paid for by the target, which is busy from now on.
      have proper := proper_schemaNode sound.schema known
      have keyword : target.keyword = (schemaNode shop.schema target).keyword := by
        rw [SchemaNode.keyword, schemaNode_statement sound.schema known]
      have makeable : Makeable shop p (schemaNode shop.schema target) shop.schema.all.length := by
        refine ⟨proper, fun s inside => Resolved.Sound.size_le (proper.placed_known _ s inside), ?_⟩
        rw [← keyword, notShared]
        exact nofun
      have cheaper : shop.cost (shop.toMake p.ledger target.keyword) (target.id :: busy)
          shop.schema.all.length < budget := by
        refine Nat.lt_of_lt_of_le (cost_lt 0 ?_) ready.affordable
        rw [Workshop.toMake, notShared]
        exact Nat.add_lt_add_left (free_lt known notShared (by simpa using isBusy)) _
      exact (serves _ place _ p _ _ keyword ready.steady makeable cheaper).mono fun _ _ served => served.grown

variable {node : Node} (bare : node.owned = [])
include bare

theorem makeType_agrees (known : s ∈ shop.schema.all) (isType : s.sub? "type" = some type)
    (ready : Ready shop budget busy s.size p) :
    Agrees (makeType shop make busy node s type) (makeType shop make' busy node s type) p (Typed shop p s node) := by
  obtain ⟨sub, keyword⟩ := sub?_spec isType
  have typeKnown := Resolved.Sound.subs_known known sub
  have readyType := ready.mono (Nat.le_of_lt (size_lt_of_mem_subs sub))
  have readyJump := ready.mono (Nat.zero_le _)
  unfold makeType
  by_cases builtin : isBuiltinType type.name = true
  · rw [if_pos builtin, if_pos builtin]
    by_cases isEnumeration : type.name = "enumeration"
    · simp only [isEnumeration]
      refine (makeEnumeration_agrees sound serves node.place typeKnown keyword readyType).bind ?_
      rintro n q ⟨grown, isKind⟩
      refine .pure (.of_builtin isType builtin (by simpa using grown) rfl ⟨?_, by rintro t ⟨⟩; nofun⟩
        (by simp [isEnumeration]) (by simp [isEnumeration]))
      rintro t ⟨⟩ i ⟨⟩
      exact ⟨n, List.mem_singleton_self n, rfl, isKind⟩
    by_cases isUnion : type.name = "union"
    · simp only [isUnion]
      refine (makeUnion_agrees sound serves node.place typeKnown keyword readyJump).bind ?_
      rintro n q ⟨grown, isKind, listed⟩
      refine .pure (.of_builtin isType builtin (by simpa using grown) rfl ⟨by rintro t ⟨⟩; nofun, ?_⟩
        (by simp [isUnion]) fun _ => listed)
      rintro t ⟨⟩ i ⟨⟩
      exact ⟨n, List.mem_singleton_self n, rfl, isKind⟩
    by_cases isLeafref : type.name = "leafref"
    · simp only [isLeafref]
      refine (makeReference_agrees sound serves node.place type readyJump).bind ?_
      intro made q grown
      exact .pure (.of_builtin isType builtin grown rfl (.of_plain rfl rfl rfl) (by simp [isLeafref])
        (by simp [isLeafref]))
    · simp only
      have nothing : Grown shop p (listingOfAll node.owned) p := by simpa [bare] using Grown.refl p
      exact .pure (.of_builtin isType builtin nothing rfl (.of_plain rfl rfl rfl)
        (by simp [isEnumeration, isUnion]) fun other => absurd other isUnion)
  · rw [if_neg builtin, if_neg builtin]
    refine (typedefOf_agrees sound serves node.key typeKnown readyJump).bind ?_
    rintro typedef q ⟨grown, answers, listed⟩
    refine .pure ⟨by simpa [bare] using grown, rfl, rfl, rfl, rfl, rfl, .of_plain rfl rfl rfl, ?_, ?_, ?_⟩
    · intro type' isType'
      obtain rfl := Option.some.inj (isType.symm.trans isType')
      refine ⟨_, rfl, nofun, fun isInline => absurd ?_ builtin⟩
      cases isInline with
      | inl isEnumeration => rw [isEnumeration]; decide
      | inr isUnion => rw [isUnion]; decide
    · rintro final later steady' t same
      cases same
      exact ⟨type, isType, by rw [answers final later steady', if_neg builtin]⟩
    · intro t member
      have notUnion : type.name ≠ "union" := by
        intro isUnion
        rw [isUnion] at builtin
        exact builtin (by decide)
      rw [derivedTypes, isType, Option.toList_some, List.flatMap_singleton, List.mem_filter,
        if_neg notUnion, List.mem_singleton] at member
      rw [member.1]
      exact listed

theorem makeTyping_agrees (untyped : node.typing = none) (known : s ∈ shop.schema.all)
    (ready : Ready shop budget busy s.size p) :
    Agrees (makeTyping shop make busy node s) (makeTyping shop make' busy node s) p (Typed shop p s node) := by
  unfold makeTyping
  cases isType : s.sub? "type" with
  | none =>
    exact .pure ⟨by simpa [bare] using Grown.refl p, rfl, rfl, rfl, rfl, rfl,
      .of_untyped untyped, by simp [isType], by simp [untyped], by simp [derivedTypes, isType]⟩
  | some type => exact makeType_agrees sound serves bare known isType ready

end

/-! ## Nodes with all that is below them -/

theorem kindOf_ne_union (constructor : Backend.Constructor) (s : Statement)
    (members : List (String × MemberType)) : kindOf constructor s ≠ .union members := by
  cases constructor <;> exact nofun

theorem augmentUses_known (sound : shop.Sound) {augment : Nat} {u : Statement}
    (member : u ∈ shop.augmentUses augment) : u ∈ shop.schema.all := by
  unfold Workshop.augmentUses at member
  cases found : shop.schema.augments.find? (·.id == augment) with
  | none => simp [found] at member
  | some a =>
    simp only [found, Option.map_some, Option.getD_some] at member
    have listed : a.statement ∈ augmentsOfForest shop.schema.forest := by
      rw [← sound.schema.augments]
      exact List.mem_map_of_mem (List.mem_of_find?_eq_some found)
    refine Resolved.Sound.subs_known (s := a.statement) ?_ (mem_subsWith member).1
    exact List.mem_append_left _ ((augmentsOfForest_sublist _).subset listed)

theorem usesOf_known (sound : shop.Sound) (known : s ∈ shop.schema.all) :
    ∀ u ∈ shop.usesOf s, u ∈ shop.schema.all := by
  intro u member
  rcases List.mem_append.1 member with own | augmented
  · exact Resolved.Sound.subs_known known (mem_subsWith own).1
  · obtain ⟨augment, -, inAugment⟩ := List.mem_flatMap.1 augmented
    exact augmentUses_known sound inAugment

theorem memberUses_known (sound : shop.Sound) {x : SchemaNode} (proper : Proper shop.schema x) :
    ∀ u ∈ x.statement.subsWith "uses" ++ (x.children.filterMap (·.augment)).eraseDups.flatMap shop.augmentUses,
      u ∈ shop.schema.all := by
  have all := usesOf_known sound proper.known
  rwa [Workshop.usesOf, proper.own] at all

theorem isUnlisted_of_isShared {keyword : String} (shared : isShared keyword) : isUnlisted keyword = false := by
  rcases isShared_iff.1 shared with rfl | rfl <;> decide

theorem keyOf_definition (sound : shop.Sound) {d : Definition} (member : d ∈ shop.definitions)
    (place : Place) : keyOf shop (some place) d.node.statement = d.key := by
  have shared : isShared d.node.statement.keyword := (sound.mem_definitions member).2.1
  have found : shop.definition? d.node.statement.id = some d :=
    sound.definition?_eq_some.2 ⟨member, rfl⟩
  simp only [keyOf, shared, if_true, found, Option.map_some, Option.getD_some]
  rfl

/-- A schema node of which a node has been created, with nothing below it yet. -/
structure Begun (shop : Workshop) (p : Progress) (x : SchemaNode) (node : Node) (q : Progress) :
    Prop where
  created : Created p node q
  statement : node.statement = x.id
  keyword : node.keyword = x.keyword
  name : node.name = x.name
  home : node.home = x.statement.home
  bare : node.owned = [] ∧ node.members = none ∧ node.typing = none
  kind : node.kind = kindOf (shop.constructorFor x.keyword) x.statement
  steady : Steady shop q.ledger
  entered : isShared x.keyword → q.ledger = p.ledger ++ [node.entry]
  served : isShared x.keyword → (shop.backend.lookup? x.keyword).isSome
  shared : isShared x.keyword → ∃ d ∈ shop.definitions, d.node = x ∧ d.key = node.key
  fewer : shop.unentered q.ledger ≤ shop.toMake p.ledger x.keyword

theorem create_begun (sound : shop.Sound) {constructor : Backend.Constructor} {x : SchemaNode}
    (isOwn : constructor = shop.constructorFor x.keyword) {parent : Option Place} {size : Nat}
    (steady : Steady shop p.ledger) (makeable : Makeable shop p x size) (placed : isShared x.keyword → parent.isSome)
    (served : isShared x.keyword → (shop.backend.lookup? x.keyword).isSome) :
    Agrees (create shop parent (kindOf constructor x.statement) x.statement)
      (create shop parent (kindOf constructor x.statement) x.statement) p (Begun shop p x) := by
  refine (create_agrees shop parent (kindOf constructor x.statement) x.statement p).mono ?_
  rintro node q ⟨rfl, created, listed⟩
  have shared : isShared x.keyword → ∃ d ∈ shop.definitions, d.node = x ∧
      d.key = keyOf shop parent x.statement ∧ entered? x.keyword d.key p.ledger = none := by
    intro shared
    obtain ⟨d, member, rfl, absent⟩ := makeable.absent shared
    obtain ⟨place, rfl⟩ := Option.isSome_iff_exists.1 (placed shared)
    exact ⟨d, member, rfl, (keyOf_definition sound member place).symm, absent⟩
  have entered : isShared x.keyword → q.ledger = p.ledger ++
      [(freshNode shop parent (kindOf constructor x.statement) x.statement p.next).entry] := by
    intro isShared
    obtain ⟨d, member, -, key, absent⟩ := shared isShared
    exact listed (placed isShared) (isUnlisted_of_isShared isShared) (by rw [key] at absent; exact absent)
  refine ⟨created, rfl, rfl, rfl, rfl, ⟨rfl, rfl, rfl⟩, by rw [← isOwn]; rfl,
    created.steady served steady, entered, served, ?_, ?_⟩
  · intro isShared
    obtain ⟨d, member, same, key, -⟩ := shared isShared
    exact ⟨d, member, same, key⟩
  · unfold Workshop.toMake
    split
    · rename_i isShared
      obtain ⟨d, member, rfl, key, absent⟩ := shared isShared
      have found : (entered? d.node.keyword d.key q.ledger).isSome := by
        have own := (created.steady served steady).entered?_eq
          (entered isShared ▸ List.mem_append_right _ (List.mem_singleton_self _))
        rw [key]
        exact Option.isSome_of_eq_some own
      have fewer := unentered_lt created.ledger_grown member absent found
      omega
    · exact unentered_le created.ledger_grown

theorem Begun.ne_union {x : SchemaNode} {node : Node} (begun : Begun shop p x node q)
    (members : List (String × MemberType)) : node.kind ≠ .union members := by
  rw [begun.kind]
  exact kindOf_ne_union _ x.statement members

/-- A node is finished when all below it is made, its answers are recorded and it shows its statement. -/
theorem Begun.finish {p q r : Progress} {x : SchemaNode} {node n : Node}
    (known : x.statement ∈ shop.schema.all) (begun : Begun shop p x node q)
    (below : Grown shop q (listingOfAll n.owned) r) (entry : n.entry = node.entry)
    (statement : n.statement = node.statement)
    (records : ∀ final, r.ledger <+: final → Steady shop final → Records shop final x.statement n)
    (shows : Shows shop x.statement n)
    (lists : ∀ final, r.ledger <+: final → Lists shop final x.statement n) : MadeOf shop p x n r := by
  have keyword : n.keyword = x.keyword := (congrArg LedgerEntry.keyword entry).trans begun.keyword
  refine ⟨?_, statement.trans begun.statement, keyword, (congrArg LedgerEntry.name entry).trans begun.name⟩
  rw [Node.listing_eq]
  refine begun.created.finish below entry (begun.keyword ▸ begun.entered)
    (begun.keyword ▸ begun.served) fun final later steady => ?_
  have atId := statement.trans begun.statement
  refine ⟨⟨x.statement, known, atId, keyword, records final later steady⟩, ?_,
    ⟨x.statement, known, atId, shows⟩, ⟨x.statement, known, atId, lists final later⟩⟩
  intro shared
  obtain ⟨d, member, same, key⟩ := begun.shared (keyword ▸ shared)
  refine ⟨d, member, ?_, key.trans (congrArg LedgerEntry.key entry).symm⟩
  rw [statement, begun.statement, same]

/-- The node of one schema node below a place, if the backend has a constructor for it. -/
def constructOne (shop : Workshop) (make : Maker) (busy : List Nat) (place : Place)
    (child : SchemaNode) : Builder (List Node) :=
  match shop.backend.lookup? child.keyword with
  | some constructor => do
    let node ← construct shop make busy (some place) constructor child
    pure [node]
  | none => do
    reportNoConstructor child.keyword child.name
    pure []

/-- The schema nodes for which there is a constructor have nodes. -/
def AllMade (shop : Workshop) (children : List SchemaNode) (nodes : List Node) : Prop :=
  ∀ c ∈ children, (shop.backend.lookup? c.keyword).isSome → ∃ n ∈ nodes, n.statement = c.id

/-- What one schema node below a place gives, given what constructing it does. -/
theorem constructOne_agrees {place : Place} {child : SchemaNode}
    (constructed : Agrees
      (construct shop make busy (some place) (shop.constructorFor child.keyword) child)
      (construct shop make' busy (some place) (shop.constructorFor child.keyword) child) p
      (MadeOf shop p child)) :
    Agrees (constructOne shop make busy place child) (constructOne shop make' busy place child) p
      fun nodes q => Grown shop p (listingOfAll nodes) q ∧ AllMade shop [child] nodes := by
  unfold constructOne
  cases found : shop.backend.lookup? child.keyword with
  | none =>
    exact (report_agrees shop _ _ _ p).bind fun _ q grown => .pure ⟨grown.1, by simp [AllMade, found]⟩
  | some constructor =>
    rw [Workshop.constructorFor, found] at constructed
    refine constructed.bind fun n q made => .pure ⟨by simpa using made.grown, ?_⟩
    rintro c member -
    rw [List.mem_singleton.1 member]
    exact ⟨n, List.mem_singleton_self n, made.statement⟩

theorem constructAll_cons (make : Maker) (busy : List Nat) (place : Place) (child : SchemaNode)
    (rest : List SchemaNode) :
    constructAll shop make busy place (child :: rest) = do
      let made ← constructOne shop make busy place child
      let others ← constructAll shop make busy place rest
      return made ++ others := by
  simp only [constructAll, constructOne]
  cases shop.backend.lookup? child.keyword <;> rfl

/-- Makes the members of a node of a schema node. -/
def makeMembers (shop : Workshop) (make : Maker) (busy : List Nat) (x : SchemaNode) (node : Node) : Builder Node := do
  let owned ← constructAll shop make busy node.place x.children
  let augments := (x.children.filterMap (·.augment)).eraseDups
  let uses ← groupingsOf shop make busy
    (x.statement.subsWith "uses" ++ augments.flatMap shop.augmentUses)
  return { node with
    isAugmented := !augments.isEmpty
    members := some ⟨firstOfEach (owned.map fun n => (n.name, n.id)), lastOfEach uses⟩
    owned }

theorem construct_eq (make : Maker) (busy : List Nat) (parent : Option Place)
    (constructor : Backend.Constructor) (x : SchemaNode) :
    construct shop make busy parent constructor x =
      (create shop parent (kindOf constructor x.statement) x.statement >>= fun node =>
        match partOf constructor with
        | .nothing => pure node
        | .typing => makeTyping shop make busy node x.statement
        | .members => makeMembers shop make busy x node) := by
  cases x
  simp only [construct]
  cases partOf constructor <;> rfl

theorem hasAugments_iff (children : List SchemaNode) :
    (!(children.filterMap (·.augment)).eraseDups.isEmpty) = true ↔ ∃ c ∈ children, c.augment.isSome := by
  rw [Bool.not_eq_true', List.isEmpty_eq_false_iff_exists_mem]
  simp only [List.mem_eraseDups, List.mem_filterMap, Option.isSome_iff_exists]
  exact ⟨fun ⟨i, c, inList, marked⟩ => ⟨c, inList, i, marked⟩, fun ⟨c, inList, i, marked⟩ => ⟨i, c, inList, marked⟩⟩

/-- What making the members of a node does, given what making the nodes below it does. -/
theorem makeMembers_agrees (sound : shop.Sound) (serves : Serves shop make make' budget)
    {x : SchemaNode} (proper : Proper shop.schema x) {node : Node}
    (part : partOf (shop.constructorFor x.keyword) = .members) (begun : Begun shop p x node q)
    (ready : Ready shop budget busy 0 q)
    (below : Agrees (constructAll shop make busy node.place x.children)
      (constructAll shop make' busy node.place x.children) q
      fun nodes r => Grown shop q (listingOfAll nodes) r ∧ AllMade shop x.children nodes) :
    Agrees (makeMembers shop make busy x node) (makeMembers shop make' busy x node) q (MadeOf shop p x) := by
  have known := proper.known
  have allUses : shop.usesOf x.statement = x.statement.subsWith "uses" ++
      ((x.children.filterMap (·.augment)).eraseDups).flatMap shop.augmentUses := by
    rw [Workshop.usesOf, proper.own]
  unfold makeMembers
  refine below.bind ?_
  rintro owned r ⟨grown, allMade⟩
  simp only [← allUses]
  refine (groupingsOf_agrees sound serves _ (usesOf_known sound known) (ready.later grown)).bind ?_
  rintro uses r' ⟨grown', answers, listed⟩
  refine .pure (begun.finish known (by simpa using grown.trans grown') rfl rfl ?_ ?_ ?_)
  · intro final later steady
    refine ⟨?_, by simp [begun.bare.2.2], fun members isUnion => absurd isUnion (begun.ne_union members)⟩
    rintro m same
    cases same
    rw [answers final later steady]
  · refine ⟨begun.name, begun.home, .of_untyped begun.bare.2.2, fun _ => begun.kind, fun _ _ => rfl,
      ?_, ?_, ?_⟩
    · intro _ c isChild served
      rw [proper.own] at isChild
      exact allMade c isChild served
    · intro _
      rw [proper.own]
      exact hasAugments_iff x.children
    · exact fun _ isTyping => absurd (part.symm.trans isTyping) nofun
  · exact fun final later =>
      ⟨fun _ u isUses => (listed u isUses).later later, by simp [begun.bare.2.2],
        fun members isUnion => absurd isUnion (begun.ne_union members)⟩

mutual
theorem construct_agrees (sound : shop.Sound) (serves : Serves shop make make' budget)
    {busy : List Nat} {size : Nat} :
    ∀ (x : SchemaNode) (parent : Option Place) {p : Progress},
      Steady shop p.ledger → Makeable shop p x size → (isShared x.keyword → parent.isSome) →
      (isShared x.keyword → (shop.backend.lookup? x.keyword).isSome) →
      shop.cost (shop.toMake p.ledger x.keyword) busy size ≤ budget →
      Agrees (construct shop make busy parent (shop.constructorFor x.keyword) x)
        (construct shop make' busy parent (shop.constructorFor x.keyword) x) p (MadeOf shop p x)
  | ⟨statement, children, augment⟩, parent, p, steady, makeable, placed, served, affordable => by
    have known := makeable.proper.known
    rw [construct_eq, construct_eq]
    refine (create_begun sound rfl steady makeable placed served).bind fun node q begun => ?_
    -- A shared node is in the ledger before anything below it is made, so the cost has gone down by one
    -- definition; any other node has cost nothing yet.
    have ready : Ready shop budget busy size q :=
      ⟨begun.steady, Nat.le_trans (cost_mono busy begun.fewer (Nat.le_refl _)) affordable⟩
    cases part : partOf (shop.constructorFor (SchemaNode.keyword ⟨statement, children, augment⟩)) with
    | nothing =>
      refine .pure (begun.finish known (by simpa [begun.bare.1] using Grown.refl q) rfl rfl ?_ ?_ ?_)
      · intro final later steady'
        exact ⟨by simp [begun.bare.2.1], by simp [begun.bare.2.2],
          fun members isUnion => absurd isUnion (begun.ne_union members)⟩
      · exact ⟨begun.name, begun.home, .of_untyped begun.bare.2.2, fun _ => begun.kind,
          fun _ isMembers => absurd (part.symm.trans isMembers) nofun, by simp [begun.bare.2.1],
          by simp [begun.bare.2.1], fun _ isTyping => absurd (part.symm.trans isTyping) nofun⟩
      · exact fun final later => ⟨by simp [begun.bare.2.1], by simp [begun.bare.2.2],
          fun members isUnion => absurd isUnion (begun.ne_union members)⟩
    | typing =>
      have fits : statement.size ≤ size := makeable.sizes statement List.mem_cons_self
      refine (makeTyping_agrees sound serves begun.bare.1 begun.bare.2.2 known (ready.mono fits)).mono ?_
      intro n r typed
      refine begun.finish known typed.grown typed.entry typed.statement (fun final later steady' => ?_) ?_ ?_
      · refine ⟨by simp [typed.members, begun.bare.2.1], typed.typing final later steady', ?_⟩
        intro members isUnion
        exact absurd (typed.kind.symm.trans isUnion) (begun.ne_union members)
      · exact ⟨(congrArg LedgerEntry.name typed.entry).trans begun.name, typed.home.trans begun.home,
          typed.types, fun _ => typed.kind.trans begun.kind,
          fun _ isMembers => absurd (part.symm.trans isMembers) nofun,
          by simp [typed.members, begun.bare.2.1], by simp [typed.members, begun.bare.2.1],
          fun _ _ => typed.typed⟩
      · exact fun final later => ⟨by simp [typed.members, begun.bare.2.1],
          fun _ t member => (typed.listed t member).later later,
          fun members isUnion => absurd (typed.kind.symm.trans isUnion) (begun.ne_union members)⟩
    | members =>
      refine makeMembers_agrees sound serves makeable.proper part begun (ready.mono (Nat.zero_le _)) ?_
      refine constructAll_agrees sound serves children node.place ready ?_ ?_
      · cases makeable.proper with
        | intro _ _ tree below => exact fun c isChild => ⟨below c isChild, tree c isChild⟩
      · exact fun s member => makeable.sizes s (List.mem_cons_of_mem _ member)

/-- Making the nodes below a place does the same with both makers. -/
theorem constructAll_agrees (sound : shop.Sound) (serves : Serves shop make make' budget)
    {busy : List Nat} {size : Nat} :
    ∀ (children : List SchemaNode) (place : Place) {p : Progress}, Ready shop budget busy size p →
      (∀ c ∈ children, Proper shop.schema c ∧ isTreeKeyword c.keyword) →
      (∀ s ∈ placedAll children, s.size ≤ size) →
      Agrees (constructAll shop make busy place children) (constructAll shop make' busy place children) p
        fun nodes q => Grown shop p (listingOfAll nodes) q ∧ AllMade shop children nodes
  | [], _, p, _, _, _ => by
    simp only [constructAll]
    exact .pure ⟨Grown.refl p, fun c member => absurd member List.not_mem_nil⟩
  | child :: rest, place, p, ready, spec, sizes => by
    obtain ⟨proper, tree⟩ := spec child List.mem_cons_self
    have notShared := not_isShared_of_isTreeKeyword tree
    rw [constructAll_cons, constructAll_cons]
    have makeable : Makeable shop p child size :=
      ⟨proper, fun s member => sizes s (List.mem_append_left _ member), by simp [notShared]⟩
    have affordChild : shop.cost (shop.toMake p.ledger child.keyword) busy size ≤ budget := by
      rw [Workshop.toMake, notShared]
      exact ready.affordable
    refine (constructOne_agrees (construct_agrees sound serves child (some place) ready.steady makeable
      (by simp) (by simp [notShared]) affordChild)).bind ?_
    rintro made q ⟨grown, hasChild⟩
    refine (constructAll_agrees sound serves rest place (ready.later grown)
      (fun c inRest => spec c (List.mem_cons_of_mem _ inRest))
      (fun s member => sizes s (List.mem_append_right _ member))).bind ?_
    rintro others r ⟨grown', hasRest⟩
    refine .pure ⟨?_, fun c member served => ?_⟩
    · rw [Node.listingOfAll_append]
      exact grown.trans grown'
    · cases List.mem_cons.1 member with
      | inl isChild =>
        obtain ⟨n, isMade, same⟩ := hasChild c (List.mem_singleton.2 isChild) served
        exact ⟨n, List.mem_append_left _ isMade, same⟩
      | inr inRest =>
        obtain ⟨n, isMade, same⟩ := hasRest c inRest served
        exact ⟨n, List.mem_append_right _ isMade, same⟩
end

end Steps

/-! ## Jumps inside one another -/

/-- Makes nodes, with another maker for the jumps. -/
def makeStep (shop : Workshop) (make : Maker) : Maker := fun busy keyword node place => do
  match shop.backend.lookup? keyword with
  | none =>
    reportNoConstructor keyword node.name
    return none
  | some constructor => some <$> construct shop make busy (some place) constructor node

/-- Makes nodes with so many jumps inside one another, and with the last maker for those that go deeper. -/
def makeFrom (shop : Workshop) (last : Maker) : Nat → Maker
  | 0 => last
  | bound + 1 => makeStep shop (makeFrom shop last bound)

theorem makeStep_serves {shop : Workshop} (sound : shop.Sound) {make make' : Maker} {budget : Nat}
    (serves : Serves shop make make' budget) :
    Serves shop (makeStep shop make) (makeStep shop make') (budget + 1) := by
  intro busy place keyword p x size isKeyword steady makeable cheaper
  subst isKeyword
  unfold makeStep
  cases found : shop.backend.lookup? x.keyword with
  | none =>
    refine (report_agrees shop _ _ _ p).bind fun _ q same => .pure ?_
    exact ⟨same.1, fun _ => ⟨found, same.2⟩, by simp⟩
  | some constructor =>
    have isOwn : shop.constructorFor x.keyword = constructor := by rw [Workshop.constructorFor, found]; rfl
    refine (isOwn ▸ construct_agrees sound serves x (some place) steady makeable (by simp)
      (by simp [found]) (Nat.le_of_lt_succ cheaper)).map some fun n q made => ?_
    exact ⟨by simpa using made.grown, nofun, fun m same => Option.some.inj same ▸ made⟩

/-- The last maker is never asked, as long as the cost stays below the bound. -/
theorem makeFrom_serves {shop : Workshop} (sound : shop.Sound) (last : Maker) :
    ∀ bound, Serves shop (makeFrom shop last bound) (makeWithin shop bound) bound
  | 0 => fun _ _ _ _ _ _ _ _ _ cheaper => absurd cheaper (Nat.not_lt_zero _)
  | bound + 1 => makeStep_serves sound (makeFrom_serves sound last bound)

end YangStubs.Model
