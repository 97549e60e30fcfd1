import YangStubs.Proofs.Schema.Loading

/-! # What linking does

Linking fills in the groupings of `uses` statements and the typedefs of `type` statements and changes
nothing else.  Every link leads to a definition of the right keyword among the statements that were read,
and no `uses` statement is left without one.
-/

namespace YangStubs.Schema

open Statement (within withinAll)

variable {known : List Statement} {directory : Directory} {scopes : List (List Statement)} {log log' : Log}

namespace Statement

/-! ## Statements without their links -/

mutual
/-- The statement with all links taken out. -/
def bare : Statement → Statement
  | ⟨id, keyword, arg, home, origin, _, _, subs⟩ =>
    ⟨id, keyword, arg, home, origin, none, none, bareAll subs⟩

/-- The statements with all links taken out. -/
def bareAll : List Statement → List Statement
  | [] => []
  | s :: rest => s.bare :: bareAll rest
end

theorem bareAll_eq_map (l : List Statement) : bareAll l = l.map bare := by
  induction l with
  | nil => rfl
  | cons s rest ih => rw [bareAll, List.map_cons, ih]

@[simp] theorem bare_id (s : Statement) : s.bare.id = s.id := by cases s; rfl

@[simp] theorem bare_keyword (s : Statement) : s.bare.keyword = s.keyword := by cases s; rfl

@[simp] theorem bare_name (s : Statement) : s.bare.name = s.name := by cases s; rfl

@[simp] theorem bare_origin (s : Statement) : s.bare.origin = s.origin := by cases s; rfl

mutual
theorem bare_within : ∀ s : Statement, s.bare.within = s.within.map bare
  | ⟨_, _, _, _, _, _, _, subs⟩ => by
    simp only [bare, within, List.map_cons, bareAll_within subs]

theorem bareAll_within : ∀ l : List Statement, withinAll (bareAll l) = (withinAll l).map bare
  | [] => rfl
  | s :: rest => by
    simp only [bareAll, withinAll, List.map_append, bare_within s, bareAll_within rest]
end

section

variable {l k : List Statement} (same : l.map bare = k.map bare)
include same

/-- Trees that differ in links only hold the same statements, up to links. -/
theorem withinAll_bare_eq : (withinAll l).map bare = (withinAll k).map bare := by
  rw [← bareAll_within, ← bareAll_within, bareAll_eq_map, bareAll_eq_map, same]

theorem sizeOfAll_bare_eq : sizeOfAll l = sizeOfAll k := by
  have lengths := congrArg List.length (withinAll_bare_eq same)
  simpa only [List.length_map, length_withinAll] using lengths

theorem withinAll_ids_eq : (withinAll l).map (·.id) = (withinAll k).map (·.id) := by
  have ids := congrArg (List.map (·.id)) (withinAll_bare_eq same)
  simpa only [List.map_map, Function.comp_def, bare_id] using ids

/-- A statement of one of two forests that differ in links only has its like in the other. -/
theorem exists_of_bare_eq {s : Statement} (member : s ∈ withinAll l) : ∃ t ∈ withinAll k, t.bare = s.bare := by
  have inBoth : s.bare ∈ (withinAll k).map bare := by
    rw [← withinAll_bare_eq same]
    exact List.mem_map_of_mem member
  exact List.mem_map.1 inBoth

end

/-! ## Where links lead -/

/-- The links of a statement lead to definitions among the known statements. -/
structure Refers (known : List Statement) (s : Statement) : Prop where
  uses : s.keyword = "uses" → ∃ d ∈ known, d.keyword = "grouping" ∧ s.grouping = some d.id
  grouping : ∀ id, s.grouping = some id → s.keyword = "uses"
  typedef : ∀ id, s.typedef = some id → s.keyword = "type" ∧ ∃ d ∈ known, d.keyword = "typedef" ∧ d.id = id

theorem Refers.mono {known' : List Statement} {s : Statement} (refers : s.Refers known)
    (same : ∀ d ∈ known, ∃ d' ∈ known', d'.keyword = d.keyword ∧ d'.id = d.id) :
    s.Refers known' where
  uses := by
    intro isUses
    obtain ⟨d, member, keyword, link⟩ := refers.uses isUses
    obtain ⟨d', member', sameKeyword, sameId⟩ := same d member
    exact ⟨d', member', sameKeyword.trans keyword, by rw [sameId, link]⟩
  grouping := refers.grouping
  typedef := by
    intro id link
    obtain ⟨isType, d, member, keyword, atId⟩ := refers.typedef id link
    obtain ⟨d', member', sameKeyword, sameId⟩ := same d member
    exact ⟨isType, d', member', sameKeyword.trans keyword, sameId.trans atId⟩

theorem Refers.copy {known : List Statement} {s t : Statement} (refers : s.Refers known)
    (copy : CopyOf s t) : t.Refers known where
  uses := by
    rw [copy.keyword, copy.grouping]
    exact refers.uses
  grouping := by
    rw [copy.keyword, copy.grouping]
    exact refers.grouping
  typedef := by
    rw [copy.keyword, copy.typedef]
    exact refers.typedef

end Statement

open Statement (bare bareAll Refers)

/-- The statements in which names are looked up are known. -/
structure Directory.Within (directory : Directory) (known : List Statement) : Prop where
  subs : ∀ m ∈ directory.modules, ∀ s ∈ m.2.subs, s ∈ known

theorem Directory.definedIn?_spec {scope : List Statement} {keyword name : String} {d : Statement}
    (found : Directory.definedIn? scope keyword name = some d) : d ∈ scope ∧ d.keyword = keyword := by
  unfold Directory.definedIn? at found
  have sat := List.find?_some found
  simp only [Bool.and_eq_true, beq_iff_eq] at sat
  exact ⟨List.mem_of_find?_eq_some found, sat.1⟩

theorem mem_of_lookup_eq_some {κ α : Type} [BEq κ] [LawfulBEq κ] {l : List (κ × α)} {key : κ} {value : α}
    (found : l.lookup key = some value) : (key, value) ∈ l := by
  obtain ⟨before, after, split, -⟩ := List.lookup_eq_some_iff.1 found
  rw [split]
  exact List.mem_append_right _ List.mem_cons_self

/-- What a name refers to is a known definition of the keyword. -/
theorem Directory.find?_spec (bounded : directory.Within known) (inScope : ∀ scope ∈ scopes, ∀ s ∈ scope, s ∈ known)
    {home keyword name : String} {d : Statement} (found : directory.find? home scopes keyword name = .ok (some d)) :
    d ∈ known ∧ d.keyword = keyword := by
  unfold Directory.find? at found
  simp only at found
  split at found
  · simp at found
  · split at found
    · simp only [Except.ok.injEq, List.findSome?_eq_some_iff] at found
      obtain ⟨before, scope, after, rfl, defined, -⟩ := found
      obtain ⟨member, sameKeyword⟩ := definedIn?_spec defined
      exact ⟨inScope scope (by simp) d member, sameKeyword⟩
    · simp only [Except.ok.injEq, Option.bind_eq_some_iff] at found
      obtain ⟨top, lookup, defined⟩ := found
      obtain ⟨member, sameKeyword⟩ := definedIn?_spec defined
      exact ⟨bounded.subs _ (mem_of_lookup_eq_some lookup) d member, sameKeyword⟩

/-- A computation that succeeds after another one: both succeed. -/
theorem Logged.bind_ok {α β : Type} {x : Logged α} {f : α → Logged β} {b : β}
    (ok : (x >>= f).run.run log = (.ok b, log')) :
    ∃ a mid, x.run.run log = (.ok a, mid) ∧ (f a).run.run mid = (.ok b, log') := by
  cases first : x.run.run log with
  | mk result mid =>
    simp only [ExceptT.run_bind, StateT.run_bind, first] at ok
    cases result with
    | error e => cases ok
    | ok a => exact ⟨a, mid, rfl, ok⟩

theorem Logged.pure_ok {α : Type} {a b : α} (ok : (pure a : Logged α).run.run log = (.ok b, log')) : a = b := by
  cases ok; rfl

theorem linksOf_ok {keyword name home : String} {grouping typedef : Option Nat}
    (linked : (linksOf directory scopes keyword name home).run.run log = (.ok (grouping, typedef), log')) :
    (keyword = "uses" → ∃ d, directory.find? home scopes "grouping" name = .ok (some d) ∧ grouping = some d.id) ∧
    (∀ id, grouping = some id → keyword = "uses") ∧
    ∀ id, typedef = some id → keyword = "type" ∧
      ∃ d, directory.find? home scopes "typedef" name = .ok (some d) ∧ d.id = id := by
  unfold linksOf at linked
  split at linked
  case isTrue isUses =>
    split at linked <;> cases linked
    exact ⟨fun _ => ⟨_, ‹_›, rfl⟩, fun _ _ => by simpa using isUses, by simp⟩
  case isFalse notUses =>
    have notUses : keyword ≠ "uses" := by simpa using notUses
    split at linked
    case isTrue isType =>
      simp only [Bool.and_eq_true, beq_iff_eq] at isType
      split at linked <;> cases linked <;> simp [notUses]
      exact ⟨isType.1, _, ‹_›, rfl⟩
    case isFalse =>
      cases linked
      simp [notUses]

theorem linksOf_spec (bounded : directory.Within known) (inScope : ∀ scope ∈ scopes, ∀ s ∈ scope, s ∈ known)
    {keyword name home : String} {grouping typedef : Option Nat}
    (linked : (linksOf directory scopes keyword name home).run.run log = (.ok (grouping, typedef), log')) :
    (keyword = "uses" → ∃ d ∈ known, d.keyword = "grouping" ∧ grouping = some d.id) ∧
    (∀ id, grouping = some id → keyword = "uses") ∧
    (∀ id, typedef = some id → keyword = "type" ∧ ∃ d ∈ known, d.keyword = "typedef" ∧ d.id = id) := by
  obtain ⟨uses, onlyUses, types⟩ := linksOf_ok linked
  refine ⟨fun isUses => ?_, onlyUses, fun id isLinked => ?_⟩
  · obtain ⟨d, found, link⟩ := uses isUses
    obtain ⟨member, sameKeyword⟩ := directory.find?_spec bounded inScope found
    exact ⟨d, member, sameKeyword, link⟩
  · obtain ⟨isType, d, found, atId⟩ := types id isLinked
    obtain ⟨member, sameKeyword⟩ := directory.find?_spec bounded inScope found
    exact ⟨isType, d, member, sameKeyword, atId⟩

mutual
theorem link_spec {directory : Directory} {known : List Statement}
    (bounded : directory.Within known) {scopes : List (List Statement)}
    (inScope : ∀ scope ∈ scopes, ∀ s ∈ scope, s ∈ known) :
    ∀ (s : Statement) {s' : Statement} {log log' : Log}, (∀ t ∈ s.within, t ∈ known) →
      (link directory scopes s).run.run log = (.ok s', log') →
      s'.bare = s.bare ∧ ∀ t ∈ s'.within, t.Refers known
  | ⟨id, keyword, arg, home, origin, grouping, typedef, subs⟩, s', log, log', inKnown, linked => by
    simp only [link] at linked
    obtain ⟨⟨newGrouping, newTypedef⟩, mid, links, linked⟩ := Logged.bind_ok linked
    obtain ⟨newSubs, mid', inner, linked⟩ := Logged.bind_ok linked
    cases Logged.pure_ok linked
    have subsKnown : ∀ t ∈ withinAll subs, t ∈ known :=
      fun t member => inKnown t (List.mem_cons_of_mem _ member)
    have inScope' : ∀ scope ∈ subs :: scopes, ∀ s ∈ scope, s ∈ known := by
      intro scope member s inside
      rcases List.mem_cons.1 member with rfl | member
      · exact subsKnown s (Statement.mem_withinAll_of_mem inside)
      · exact inScope scope member s inside
    obtain ⟨same, refers⟩ := linkAll_spec bounded inScope' subs subsKnown inner
    obtain ⟨uses, onlyUses, types⟩ := linksOf_spec bounded inScope links
    refine ⟨by simp only [bare, Statement.bareAll_eq_map, same], ?_⟩
    intro t member
    simp only [within, List.mem_cons] at member
    rcases member with rfl | member
    · exact ⟨uses, onlyUses, types⟩
    · exact refers t member

/-- Linking some trees keeps the statements and makes all their links. -/
theorem linkAll_spec {directory : Directory} {known : List Statement}
    (bounded : directory.Within known) {scopes : List (List Statement)}
    (inScope : ∀ scope ∈ scopes, ∀ s ∈ scope, s ∈ known) :
    ∀ (l : List Statement) {l' : List Statement} {log log' : Log}, (∀ t ∈ withinAll l, t ∈ known) →
      (linkAll directory scopes l).run.run log = (.ok l', log') →
      l'.map bare = l.map bare ∧ ∀ t ∈ withinAll l', t.Refers known
  | [], l', log, log', _, linked => by
    simp only [linkAll] at linked
    cases Logged.pure_ok linked
    simp
  | s :: rest, l', log, log', inKnown, linked => by
    simp only [linkAll] at linked
    obtain ⟨first, mid, firstLinked, linked⟩ := Logged.bind_ok linked
    obtain ⟨others, mid', othersLinked, linked⟩ := Logged.bind_ok linked
    cases Logged.pure_ok linked
    obtain ⟨same, refers⟩ := link_spec bounded inScope s
      (fun t member => inKnown t (List.mem_append_left _ member)) firstLinked
    obtain ⟨sameRest, refersRest⟩ := linkAll_spec bounded inScope rest
      (fun t member => inKnown t (List.mem_append_right _ member)) othersLinked
    refine ⟨by simp only [List.map_cons, same, sameRest], ?_⟩
    intro t member
    simp only [Statement.withinAll_cons, List.mem_append] at member
    exact member.elim (refers t) (refersRest t)
end

theorem Library.directory_within (library : Library) : library.directory.Within (withinAll library.forest) where
  subs := by
    intro m member s sub
    simp only [Library.directory, List.mem_filterMap] at member
    obtain ⟨⟨name, id⟩, -, found⟩ := member
    obtain ⟨top, atId, rfl⟩ := Option.map_eq_some_iff.1 found
    have inForest : top ∈ library.forest := List.mem_of_find?_eq_some atId
    exact Statement.withinAll_of_mem_subs (Statement.mem_withinAll_of_mem inForest) sub

/-- The linked forest of a library: the statements that were read, every reference resolved. -/
theorem Library.linkAll_forest {library : Library} {forest : List Statement}
    (linked : (linkAll library.directory [] library.forest).run.run log = (.ok forest, log')) :
    forest.map bare = library.forest.map bare ∧ ∀ t ∈ withinAll forest, t.Refers (withinAll library.forest) :=
  linkAll_spec library.directory_within (by simp) library.forest (fun _ member => member) linked

end YangStubs.Schema
