import YangStubs.Proofs.Model.Arena

/-! # The order of derived types

A typedef gets its number when it is first referred to, and it is noted when it is finished.  What it refers to
itself is finished before, so that numbers in the notes go down where a typedef is finished while another one is
being made.  `Notes` says what a part of the work notes, and parts that follow each other add up.
-/

namespace YangStubs.Model

open YangStubs.Schema

/-! ## Notes of typedefs -/

/-- A typedef with that number is entered. -/
def Progress.Knows (p : Progress) (id : Nat) : Prop :=
  ∃ e ∈ p.ledger, e.keyword = "typedef" ∧ e.node = id

/-- A typedef noted under another name than it is entered under: it answers for one with the same key. -/
def DerivedType.Substitutes (ledger : List LedgerEntry) (d : DerivedType) : Prop :=
  ∃ e ∈ ledger, e.keyword = "typedef" ∧ e.node = d.node ∧ e.name ≠ d.name

/-- From `p` to `q`, the typedefs `new` are noted and the definitions `done` are finished.  When it is late,
    typedefs are made that nothing refers to, so that they are not noted. -/
structure Notes (late : Nat → Prop) (p : Progress) (new : List DerivedType) (done : List Nat) (q : Progress) : Prop where
  derived : q.derived = p.derived ++ new
  definitions : q.definitions.map (·.id) = p.definitions.map (·.id) ++ done
  le : p.next ≤ q.next
  ledger : p.ledger ⊆ q.ledger
  entries : ∀ e ∈ q.ledger, e ∈ p.ledger ∨ (p.next ≤ e.node ∧ e.node < q.next) ∧
    (e.keyword = "typedef" → late e.node ∨ e.node ∈ done ∧ ∃ d ∈ q.derived, d.name = e.name)
  names : ∀ d ∈ new, ∀ d' ∈ p.derived, d'.name ≠ d.name
  nodes : ∀ d ∈ new, p.Knows d.node ∨ (p.next ≤ d.node ∧ d.node < q.next) ∧ (late d.node ∨ d.node ∈ done)
  order : new.Pairwise fun x y => y.node < x.node → p.Knows y.node ∨ late y.node ∨
    [x.node, y.node].Sublist done ∨ y.Substitutes q.ledger

namespace Notes

variable {late : Nat → Prop} {p q r : Progress} {new new' : List DerivedType} {done done' : List Nat}

theorem numbered (notes : Notes late p new done q) (numbered : p.Numbered) : q.Numbered := by
  intro e inLedger
  have le := notes.le
  rcases notes.entries e inLedger with before | ⟨bounds, -⟩
  · have := numbered e before
    omega
  · exact bounds.2

theorem nodes_lt (notes : Notes late p new done q) (numbered : p.Numbered) : ∀ d ∈ new, d.node < q.next := by
  intro d isNew
  rcases notes.nodes d isNew with ⟨e, inLedger, -, atNode⟩ | ⟨bounds, -⟩
  · exact atNode ▸ Nat.lt_of_lt_of_le (numbered e inLedger) notes.le
  · exact bounds.2

theorem trans (numbered : p.Numbered) (first : Notes late p new done q) (second : Notes late q new' done' r) :
    Notes late p (new ++ new') (done ++ done') r := by
  have lower := first.le
  have upper := second.le
  -- A typedef that was entered on the way was noted then, so that a later note has another name.
  have known : ∀ y ∈ new', q.Knows y.node → p.Knows y.node ∨
      p.next ≤ y.node ∧ y.node < q.next ∧ (late y.node ∨ y.node ∈ done ∧ y.Substitutes r.ledger) := by
    rintro y isNew ⟨e, inLedger, keyword, atNode⟩
    rcases first.entries e inLedger with before | ⟨bounds, entered⟩
    · exact .inl ⟨e, before, keyword, atNode⟩
    · refine .inr ⟨atNode ▸ bounds.1, atNode ▸ bounds.2, (entered keyword).imp (atNode ▸ ·) ?_⟩
      rintro ⟨finished, d, isNoted, sameName⟩
      exact ⟨atNode ▸ finished, e, second.ledger inLedger, keyword, atNode, sameName ▸ second.names y isNew d isNoted⟩
  constructor
  · rw [second.derived, first.derived, List.append_assoc]
  · rw [second.definitions, first.definitions, List.append_assoc]
  · omega
  · exact List.Subset.trans first.ledger second.ledger
  · intro e inLedger
    have derived := second.derived
    grind [second.entries e inLedger, first.entries e]
  · have derived := first.derived
    grind [first.names, second.names]
  · grind [first.nodes, second.nodes]
  · have earlier : ∀ x y : Nat, [x, y].Sublist done → [x, y].Sublist (done ++ done') := fun x y within =>
      within.trans (List.sublist_append_left _ _)
    have later : ∀ x y : Nat, [x, y].Sublist done' → [x, y].Sublist (done ++ done') := fun x y within =>
      within.trans (List.sublist_append_right _ _)
    have stays : ∀ y : DerivedType, y.Substitutes q.ledger → y.Substitutes r.ledger := fun y ⟨e, inLedger, same⟩ =>
      ⟨e, second.ledger inLedger, same⟩
    refine List.pairwise_append.2 ⟨first.order.imp ?_, second.order.imp_of_mem ?_, fun x isX y isY => ?_⟩
    · grind
    · grind
    · have lt := first.nodes_lt numbered x isX
      grind [second.nodes y isY]

theorem idle (ledger : q.ledger = p.ledger) (next : q.next = p.next) (definitions : q.definitions = p.definitions)
    (derived : q.derived = p.derived) : Notes late p [] [] q := by
  constructor <;> simp [ledger, next, definitions, derived]
  exact fun e inLedger => .inl inLedger

end Notes

theorem Numbers.entries {p q : Progress} {node : Node} (numbers : Numbers p node q) :
    p.ledger ⊆ q.ledger ∧ ∀ e ∈ q.ledger, e ∈ p.ledger ∨ e = node.entry := by
  rcases numbers.ledger with ⟨same, -⟩ | ⟨added, -⟩
  · simp +contextual [same]
  · simp [added]

theorem Numbers.numbered {p q : Progress} {node : Node} (numbers : Numbers p node q) (numbered : p.Numbered) :
    q.Numbered := by
  intro e inLedger
  have id := numbers.id
  have next := numbers.next
  rcases numbers.entries.2 e inLedger with before | rfl
  · have := numbered e before
    omega
  · simp only [Node.entry]
    omega

namespace Notes

variable {late : Nat → Prop} {p q r s : Progress} {new noted : List DerivedType} {done : List Nat} {node : Node}

theorem of_numbers (numbers : Numbers p node q) (notShared : isShared node.keyword = false) : Notes late p [] [] q := by
  obtain ⟨ledger, entries⟩ := numbers.entries
  have id := numbers.id
  have next := numbers.next
  refine ⟨?_, ?_, by omega, ledger, fun e inLedger => (entries e inLedger).imp_right ?_, ?_, ?_, ?_⟩
  · simp [numbers.derived]
  · simp [numbers.definitions]
  · rintro rfl
    refine ⟨?_, fun keyword => absurd notShared ?_⟩
    · simp only [Node.entry]
      omega
    · rw [show node.keyword = _ from keyword]
      decide
  all_goals simp

/-- A typedef that is being made, or has been, is noted. -/
theorem of_found {id : Nat} {name : String} (knows : p.Knows id) (noting : Noted name id p q) :
    ∃ new, Notes late p new [] q := by
  obtain ⟨ledger, next, definitions, new, derived, -, own⟩ := noting
  refine ⟨new, derived, by simp [definitions], Nat.le_of_eq next.symm, by simp [ledger], ?_,
    fun d isNew => (own d isNew).2, ?_, ?_⟩
  · exact fun e inLedger => .inl (ledger ▸ inLedger)
  · exact fun d isNew => .inl ((own d isNew).1 ▸ knows)
  · exact List.pairwise_of_forall_mem_list fun x isX y isY _ => .inl ((own y isY).1 ▸ knows)

theorem mono {late' : Nat → Prop} (weaker : ∀ i, late i → late' i) (notes : Notes late p new done q) :
    Notes late' p new done q where
  __ := notes
  entries e inLedger := (notes.entries e inLedger).imp_right (.imp_right fun entered keyword =>
    (entered keyword).imp_left (weaker _))
  nodes d isNew := (notes.nodes d isNew).imp_right (.imp_right (.imp_left (weaker _)))
  order := notes.order.imp fun reason less => (reason less).imp_right (.imp_left (weaker _))

end Notes

/-! ## Making nodes -/

/-- From `p` to `q`, typedefs are noted.  If any number is late, so are all that are still to be given. -/
def Ranks (late : Nat → Prop) (p q : Progress) : Prop :=
  p.Numbered → (∀ i j, late i → p.next ≤ j → late j) → ∃ new done, Notes late p new done q

theorem ranks_lasting (late : Nat → Prop) : Lasting (Ranks late) where
  idle ledger next definitions derived _ _ := ⟨[], [], .idle ledger next definitions derived⟩
  trans := by
    intro p q r first second numbered settled
    obtain ⟨new, done, notes⟩ := first numbered settled
    obtain ⟨new', done', notes'⟩ := second (notes.numbered numbered) fun i j isLate le =>
      settled i j isLate (Nat.le_trans notes.le le)
    exact ⟨_, _, notes.trans numbered notes'⟩

/-- What is noted while a definition is made is finished before it, or it is the definition itself. -/
theorem Ranks.finish {late : Nat → Prop} {p q r s : Progress} {node n : Node} {noted : List DerivedType}
    (numbers : Numbers p node q) (ranks : Ranks late q r) (sameId : n.id = node.id) (ledger : s.ledger = r.ledger)
    (next : s.next = r.next) (definitions : s.definitions = r.definitions ++ [n])
    (derived : s.derived = r.derived ++ noted)
    (own : ∀ d ∈ noted, d.node = node.id ∧ ∀ d' ∈ r.derived, d'.name ≠ d.name)
    (isNoted : node.keyword = "typedef" → (∃ i, late i) ∨ ∃ d ∈ s.derived, d.name = node.name) : Ranks late p s := by
  intro numbered settled
  have id := numbers.id
  have nextId := numbers.next
  obtain ⟨new, done, notes⟩ := ranks (numbers.numbered numbered) fun i j isLate le => settled i j isLate (by omega)
  have le := notes.le
  have isLate : ∀ i, late i → late node.id := fun i isLate => settled i node.id isLate (Nat.le_of_eq id.symm)
  obtain ⟨before, entries⟩ := numbers.entries
  have known : ∀ i, q.Knows i → p.Knows i ∨ i = node.id := by
    rintro i ⟨e, inLedger, keyword, atNode⟩
    rcases entries e inLedger with before | rfl
    · exact .inl ⟨e, before, keyword, atNode⟩
    · exact .inr atNode.symm
  have inside : ∀ x ∈ new, node.id < x.node → late node.id ∨ [x.node, node.id].Sublist (done ++ [node.id]) := by
    intro x isX later
    rcases notes.nodes x isX with ⟨e, inLedger, -, atNode⟩ | ⟨-, finished⟩
    · have lt := numbers.numbered numbered e inLedger
      omega
    · exact finished.imp (isLate _) fun isDone => (List.singleton_sublist.2 isDone).append (List.Sublist.refl _)
  refine ⟨new ++ noted, done ++ [node.id], ?_⟩
  constructor
  · rw [derived, notes.derived, numbers.derived, List.append_assoc]
  · simp [definitions, notes.definitions, numbers.definitions, sameId]
  · omega
  · rw [ledger]
    exact List.Subset.trans before notes.ledger
  · rw [ledger]
    intro e inLedger
    rcases notes.entries e inLedger with inside | ⟨bounds, entered⟩
    · refine (entries e inside).imp_right ?_
      rintro rfl
      simp only [Node.entry]
      grind
    · grind
  · have := notes.derived
    have := numbers.derived
    grind [notes.names]
  · grind [notes.nodes]
  · have earlier : ∀ x y : Nat, [x, y].Sublist done → [x, y].Sublist (done ++ [node.id]) := fun x y within =>
      within.trans (List.sublist_append_left _ _)
    rw [ledger]
    refine List.pairwise_append.2 ⟨notes.order.imp_of_mem ?_, ?_, fun x isX y isY => ?_⟩
    · grind
    · exact List.pairwise_of_forall_mem_list fun x isX y isY => by grind
    · grind

/-- From `p` to `q`, a node of a schema node is made, and gets its number before anything below it. -/
def Begins (late : Nat → Prop) (x : SchemaNode) (p q : Progress) : Prop :=
  ∃ node r, Numbers p node r ∧ node.keyword = x.keyword ∧ node.name = x.name ∧ Ranks late r q

/-- A maker that notes typedefs. -/
def MakesRanking (shop : Workshop) (late : Nat → Prop) (make : Maker) : Prop :=
  ∀ busy keyword x place p, keyword = x.keyword → Proper shop.schema x →
    Leaves (make busy keyword x place) p fun made q => made.elim (Ranks late p q) fun _ => Begins late x p q

section Steps

variable {shop : Workshop} {late : Nat → Prop} {make : Maker}

theorem Begins.ranks {x : SchemaNode} {p q : Progress} (begins : Begins late x p q)
    (notShared : isShared x.keyword = false) : Ranks late p q := by
  obtain ⟨node, r, numbers, keyword, -, ranks⟩ := begins
  exact (ranks_lasting late).trans (fun _ _ => ⟨[], [], .of_numbers numbers (keyword ▸ notShared)⟩) ranks

theorem create_ranks (parent : Option Place) (kind : Kind) {s : Statement} (notShared : isShared s.keyword = false) :
    Keeps (Ranks late) (create shop parent kind s) := fun p =>
  (create_numbers shop parent kind s p).mono fun _ _ created _ _ =>
    ⟨[], [], .of_numbers created.2 (created.1 ▸ notShared)⟩

theorem MakesRanking.keeps (ranking : MakesRanking shop late make) (busy : List Nat) {keyword : String}
    {x : SchemaNode} (place : Place) (isKeyword : keyword = x.keyword) (proper : Proper shop.schema x)
    (notShared : isShared keyword = false) : Keeps (Ranks late) (make busy keyword x place) := fun p =>
  (ranking busy keyword x place p isKeyword proper).mono fun
    | none, _, ranks => ranks
    | some _, _, begins => begins.ranks (isKeyword ▸ notShared)

variable (sound : shop.Sound) (ranking : MakesRanking shop late make) (busy : List Nat)
include sound ranking busy

theorem makeEnums_ranks (place : Place) (values : List Statement)
    (spec : ∀ v ∈ values, v ∈ shop.schema.all ∧ v.keyword = "enum") :
    Keeps (Ranks late) (makeEnums make busy place values) := by
  have lasting := ranks_lasting late
  induction values with
  | nil => exact lasting.pure _
  | cons v rest ih =>
    obtain ⟨⟨known, keyword⟩, others⟩ := List.forall_mem_cons.1 spec
    unfold makeEnums
    have proper := proper_enum sound.schema known keyword
    exact lasting.bind (ranking.keeps busy place keyword.symm proper (by decide)) fun _ =>
      lasting.bind (ih others) fun _ => lasting.pure _

theorem makeReference_ranks (place : Place) (type : Statement) :
    Keeps (Ranks late) (makeReference shop make busy place type) := by
  have lasting := ranks_lasting late
  unfold makeReference
  cases found : (shop.schema.targets.lookup type.id).bind shop.schema.statement? with
  | none => exact lasting.pure _
  | some target =>
    obtain ⟨known, isLeaf⟩ := target_spec sound found
    simp only
    split
    · exact lasting.bind (report_lasts lasting _ _ _) fun _ => lasting.pure _
    · refine ranking.keeps _ place ?_ (proper_schemaNode sound.schema known) (isShared_of_isLeafKeyword isLeaf)
      rw [SchemaNode.keyword, schemaNode_statement sound.schema known]

variable (makes : MakesBelow shop make)
include makes

/-- A definition that is made may be noted, and a typedef has to be unless it is late. -/
theorem makeDefinition_finishes {keyword : String} {d : Definition} (member : d ∈ shop.definitions)
    (isKeyword : keyword = d.node.keyword) (p : Progress) :
    Leaves (makeDefinition shop make busy keyword d) p fun made q =>
      (made = none ∨ (keyword = "typedef" → ∃ i, late i) → Ranks late p q) ∧
        ∀ id, made = some id → ∀ r, Noted d.node.name id q r → Ranks late p r := by
  obtain ⟨-, -, proper⟩ := sound.mem_definitions member
  unfold makeDefinition
  refine ((makes busy keyword d.node shop.top p isKeyword proper).and
    (ranking busy keyword d.node shop.top p isKeyword proper)).bind ?_
  rintro (- | n) q ⟨⟨isMade, -⟩, made⟩
  · exact .pure ⟨fun _ => made, nofun⟩
  · refine (define_agrees n q).bind ?_
    rintro - r rfl
    obtain ⟨node, before, numbers, sameKeyword, sameName, ranks⟩ := made
    have id : n.id = node.id := (isMade n rfl).id.trans numbers.id.symm
    refine .pure ⟨?_, ?_⟩
    · rintro (isNone | free)
      · cases isNone
      · exact ranks.finish numbers id rfl rfl rfl (List.append_nil _).symm (by simp) fun isTypedef =>
          .inl (free (isKeyword.trans (sameKeyword.symm.trans isTypedef)))
    · rintro - ⟨⟩ r ⟨ledger, next, definitions, noted, derived, isNoted, own⟩
      exact ranks.finish numbers id ledger next definitions derived (id ▸ own) fun _ => .inr (sameName ▸ isNoted)

theorem makeDefinition_ranks {keyword : String} (free : keyword = "typedef" → ∃ i, late i) :
    Defines shop make busy (Ranks late) keyword := fun _ member isKeyword p =>
  (makeDefinition_finishes sound ranking busy makes member isKeyword p).mono fun _ _ finishes => finishes.1 (.inr free)

theorem typedefOf_ranks (key : String) :
    ∀ type ∈ shop.schema.all, Keeps (Ranks late) (typedefOf shop make busy key type) := by
  intro type known p
  unfold typedefOf
  cases linked : type.typedef.bind shop.definition? with
  | none =>
    exact (ranks_lasting late).bind (report_lasts (ranks_lasting late) _ _ _) (fun _ => (ranks_lasting late).pure _) p
  | some d =>
    obtain ⟨member, keyword⟩ := sound.typedef_of_type known linked
    have referred : Leaves (refer shop make busy "typedef" d) p fun answer q => (answer = none → Ranks late p q) ∧
        ∀ a, answer = some a → ∀ r, Noted d.node.name a.2 q r → Ranks late p r := by
      unfold refer
      refine (Agrees.get p).bind ?_
      rintro s q ⟨rfl, rfl⟩
      cases found : entered? "typedef" d.key p.ledger with
      | some e =>
        refine .pure ⟨nofun, ?_⟩
        rintro a ⟨⟩ r noted _ _
        obtain ⟨inLedger, isTypedef, -⟩ := entered?_spec found
        obtain ⟨new, notes⟩ := Notes.of_found ⟨e, inLedger, isTypedef, rfl⟩ noted
        exact ⟨new, [], notes⟩
      | none =>
        refine (makeDefinition_finishes sound ranking busy makes member keyword.symm p).bind ?_
        rintro (- | id) q ⟨idle, note⟩
        · exact .pure ⟨fun _ => idle (.inl rfl), nofun⟩
        · refine .pure ⟨nofun, ?_⟩
          rintro a ⟨⟩
          exact note id rfl
    refine referred.bind ?_
    rintro (- | ⟨name, id⟩) q ⟨idle, note⟩
    · exact .pure (idle rfl)
    · exact (noteTypedef_agrees d.node.name d.key id q).bind fun _ r noted => .pure (note (name, id) rfl r noted)

theorem makeTyping_ranks (node : Node) {s : Statement} (known : s ∈ shop.schema.all) :
    Keeps (Ranks late) (makeTyping shop make busy node s) := by
  have lasting := ranks_lasting late
  have typedefs := typedefOf_ranks sound ranking busy makes
  unfold makeTyping
  cases isType : s.sub? "type" with
  | none => exact lasting.pure _
  | some type =>
    obtain ⟨sub, keyword⟩ := sub?_spec isType
    have typeKnown := Resolved.Sound.subs_known known sub
    have created : ∀ place kind, Keeps (Ranks late) (create shop place kind type) := fun place kind =>
      create_ranks place kind (by rw [keyword]; decide)
    simp only [makeType]
    split
    · split
      · refine lasting.bind (lasting.bind (created _ _) fun _ => lasting.bind ?_ fun _ => lasting.pure _) fun _ =>
          lasting.pure _
        exact makeEnums_ranks sound ranking busy _ _ (subsWith_known typeKnown "enum")
      · refine lasting.bind (lasting.bind (created _ _) fun _ => lasting.bind ?_ fun _ => lasting.pure _) fun _ =>
          lasting.pure _
        exact unionMembers_lasts lasting typedefs _ _ fun t member => (subsWith_known typeKnown "type" t member).1
      · exact lasting.bind (makeReference_ranks sound ranking busy _ type) fun _ => lasting.pure _
      · exact lasting.pure _
    · exact lasting.bind (typedefs _ type typeKnown) fun _ => lasting.pure _

end Steps

section Construct

variable {shop : Workshop} {late : Nat → Prop} {make : Maker}

mutual
theorem construct_begins (sound : shop.Sound) (ranking : MakesRanking shop late make) (busy : List Nat)
    (makes : MakesBelow shop make) : ∀ (x : SchemaNode) (parent : Option Place) (constructor : Backend.Constructor)
      (p : Progress), Proper shop.schema x →
      Leaves (construct shop make busy parent constructor x) p fun _ q => Begins late x p q
  | ⟨statement, children, augment⟩, parent, constructor, p, proper => by
    have lasting := ranks_lasting late
    rw [construct_eq]
    refine (create_numbers shop parent _ statement p).bind ?_
    rintro node q ⟨rfl, numbers⟩
    refine Agrees.mono ?_ fun _ r ranks => ⟨_, q, numbers, rfl, rfl, ranks⟩
    cases partOf constructor with
    | nothing => exact lasting.pure _ q
    | typing => exact makeTyping_ranks sound ranking busy makes _ proper.known q
    | members =>
      have groupings := groupingsOf_lasts lasting sound (makeDefinition_ranks sound ranking busy makes nofun) _
        (memberUses_known sound proper)
      refine lasting.bind (constructAll_ranks sound ranking busy makes children _ ?_)
        (fun _ => lasting.bind groupings fun _ => lasting.pure _) q
      cases proper with
      | intro _ _ tree below => exact fun c isChild => ⟨below c isChild, tree c isChild⟩

theorem constructAll_ranks (sound : shop.Sound) (ranking : MakesRanking shop late make) (busy : List Nat)
    (makes : MakesBelow shop make) : ∀ (children : List SchemaNode) (place : Place),
      (∀ c ∈ children, Proper shop.schema c ∧ isTreeKeyword c.keyword) →
      Keeps (Ranks late) (constructAll shop make busy place children)
  | [], _, _ => by
    simp only [constructAll]
    exact (ranks_lasting late).pure _
  | child :: rest, place, spec => by
    have lasting := ranks_lasting late
    obtain ⟨⟨proper, tree⟩, others⟩ := List.forall_mem_cons.1 spec
    have later := constructAll_ranks sound ranking busy makes rest place others
    rw [constructAll_cons]
    refine lasting.bind ?_ fun _ => lasting.bind later fun _ => lasting.pure _
    unfold constructOne
    cases shop.backend.lookup? child.keyword with
    | none => exact lasting.bind (report_lasts lasting _ _ _) fun _ => lasting.pure _
    | some constructor =>
      refine lasting.bind (fun p => ?_) fun _ => lasting.pure _
      exact (construct_begins sound ranking busy makes child (some place) constructor p proper).mono
        fun _ _ begins => begins.ranks (not_isShared_of_isTreeKeyword tree)
end

theorem makeWithin_ranking (sound : shop.Sound) (late : Nat → Prop) :
    ∀ bound, MakesRanking shop late (makeWithin shop bound)
  | 0 => fun _ _ _ _ p _ _ => (ranks_lasting late).pure none p
  | bound + 1 => by
    intro busy keyword x place p isKeyword proper
    unfold makeWithin
    cases shop.backend.lookup? keyword with
    | none => exact (report_lasts (ranks_lasting late) _ _ _ p).bind fun _ q ranks => .pure ranks
    | some constructor =>
      exact (construct_begins sound (makeWithin_ranking sound late bound) busy (makeWithin_makesBelow sound bound) x
        (some place) constructor p proper).map some fun _ _ begins => begins

/-- Typedefs are late when they are made after the tree of the module. -/
theorem buildRoot_notes (sound : shop.Sound) {tree : SchemaNode} (proper : Proper shop.schema tree)
    (isModule : tree.keyword = "module") (bound : Nat) {p : Progress} (numbered : p.Numbered) :
    Leaves (buildRoot shop (makeWithin shop bound) tree) p fun root q =>
      ∃ start, (∀ n ∈ root.listing, n.id < start) ∧ ∃ new done, Notes (start ≤ ·) p new done q := by
  have makes := makeWithin_makesBelow sound bound
  unfold buildRoot
  refine (report_lasts (ranks_lasting fun _ => False) _ _ _ p).bind fun _ q₁ first => ?_
  refine (Agrees.and (isModule ▸ construct_madeAt sound makes [] tree none q₁ proper (.inl isModule))
    (construct_begins sound (makeWithin_ranking sound (fun _ => False) bound) [] makes tree none _ q₁ proper)).bind ?_
  rintro root q₂ ⟨made, begins⟩
  have unreferenced : ∀ keyword, Keeps (Ranks (q₂.next ≤ ·)) (makeUnreferenced shop _ keyword _) := fun keyword =>
    makeUnreferenced_lasts (ranks_lasting _) sound (makeDefinition_ranks sound (makeWithin_ranking sound _ bound) []
      makes fun _ => ⟨q₂.next, Nat.le_refl _⟩) _ (subsWith_known proper.known keyword)
  refine (unreferenced "grouping" q₂).bind fun _ q₃ third => ?_
  refine (unreferenced "typedef" q₃).bind fun _ q₄ fourth => .pure ?_
  have second := begins.ranks (by rw [isModule]; decide)
  obtain ⟨new, done, notes⟩ := (ranks_lasting _).trans first second numbered nofun
  obtain ⟨new', done', notes'⟩ := (ranks_lasting _).trans third fourth (notes.numbered numbered) fun _ _ _ le => le
  obtain ⟨_, _, -, -, filing⟩ := made.seats
  exact ⟨q₂.next, fun n inside => (filing.ids n (List.mem_append_left _ inside)).2, _, _,
    (notes.mono nofun).trans numbered notes'⟩

end Construct

/-- What lets a derived type come before one with a smaller number. -/
inductive Module.Overtakes (m : Module) (x y : DerivedType) : Prop
  /-- It is finished while the other one is being made. -/
  | inside (finished : [x.node, y.node].Sublist (m.definitions.map (·.id)))
  /-- The other one is made after the tree of the module, before anything refers to it. -/
  | unreferenced (late : ∀ n ∈ m.root.listing, n.id < y.node)
  /-- The other one is referred to by the name of a typedef with the same key. -/
  | substitute (named : y.Substitutes m.ledger)

/-- In the model of a loaded module, derived types are in the order of their numbers except where one of them is finished
    while another one is being made, or where that one is not made for a reference to it. -/
theorem build_derived_order (texts : List String) (sources : List Source) (files : FileTree) (schema : Resolved)
    (resolved : ((Library.ofTexts texts).resolve sources files).result = .ok schema) (backend : Backend)
    (m : String × SchemaNode) (isModule : m ∈ schema.modules) :
    let model := (Module.build schema backend m.2).1
    model.derived.Pairwise fun x y => x.node ≤ y.node ∨ model.Overtakes x y := by
  have sound := (Library.sound_ofTexts texts).schema_sound resolved
  have shopSound : (shopOf schema backend m.2).Sound := ⟨sound, rfl⟩
  obtain ⟨-, start, inTree, new, done, notes⟩ :=
    buildRoot_notes shopSound (proper_of_module sound isModule) (sound.modules m isModule).2.1 (jumpBound schema)
    (p := ⟨1, [], [], [], []⟩) (by simp [Progress.Numbered])
  have derived := notes.derived
  have definitions := notes.definitions
  rw [List.nil_append] at derived
  simp only [List.map_nil, List.nil_append] at definitions
  rw [build_eq]
  intro model
  rw [show model.derived = _ from derived]
  refine notes.order.imp fun {x y} reasons => (Nat.lt_or_ge y.node x.node).symm.imp_right fun less => ?_
  rcases reasons less with ⟨e, inLedger, -⟩ | late | finished | named
  · cases inLedger
  · exact .unreferenced fun n inside => Nat.lt_of_lt_of_le (inTree n inside) late
  · exact .inside (definitions ▸ finished)
  · exact .substitute named

/-- A leaf of a typedef that is derived from a typedef itself. -/
def derivedTwice : String :=
  "<module name='m' xmlns='urn:ietf:params:xml:ns:yang:yin:1'><typedef name='a'><type name='b'/></typedef>" ++
  "<typedef name='b'><type name='int8'/></typedef><leaf name='x'><type name='a'/></leaf></module>"

/-- The typedef that is referred to first comes last. -/
theorem build_derived_order_derivedTwice :
    ∃ schema m, ((Library.ofTexts [derivedTwice]).resolve [] ⟨[]⟩).result = .ok schema ∧ m ∈ schema.modules ∧
      (let model := (Module.build schema (.root 0) m.2).1
       model.derived = [⟨"b", "m/b", 4⟩, ⟨"a", "m/a", 3⟩] ∧ model.Overtakes ⟨"b", "m/b", 4⟩ ⟨"a", "m/a", 3⟩) := by
  have evaluated : (((Library.ofTexts [derivedTwice]).resolve [] ⟨[]⟩).result.toOption.map fun schema =>
      schema.modules.map fun m => (Module.build schema (.root 0) m.2).1.derived) =
        some [[⟨"b", "m/b", 4⟩, ⟨"a", "m/a", 3⟩]] := by
    decide +kernel
  obtain ⟨schema, m, resolved, isModule, derived⟩ := exists_module evaluated
  have order := build_derived_order _ _ _ schema resolved (.root 0) m isModule
  simp only [derived, List.pairwise_pair] at order
  exact ⟨schema, m, resolved, isModule, derived, order.resolve_left (by decide)⟩

end YangStubs.Model
