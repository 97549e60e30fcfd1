import YangStubs.Backend.Registry
import YangStubs.Proofs.Text.Sorted

/-! # Registries over any run

Backends are made and registered in any order, and any backend can be the parent of another one: a registered
one, one that waits to be registered, or one that never will be.  Whatever is done, what a registry holds has
been derived, step by step, from the default backend that it started with.
-/

namespace YangStubs.Backend

open YangStubs.Naming (Scheme)
open YangStubs.Text

variable {backend : Backend}

/-! ## Work that may fail -/

theorem bind_eq_ok {ε α β : Type} {x : Except ε α} {f : α → Except ε β} {b : β}
    (done : (x >>= f) = .ok b) : ∃ a, x = .ok a ∧ f a = .ok b := by
  cases x with
  | error e => cases done
  | ok a => exact ⟨a, rfl, done⟩

theorem eq_ok_of_toOption {ε α : Type} {x : Except ε α} {a : α} (found : x.toOption = some a) : x = .ok a := by
  cases x with
  | error e => cases found
  | ok value => rw [Option.some.inj found]

/-! ## Lineages -/

/-- A layer on top of others, followed by the backends below it. -/
def lineageOf (own : Layer) : List Layer → List Backend
  | [] => [⟨own, []⟩]
  | layer :: rest => ⟨own, layer :: rest⟩ :: lineageOf layer rest

/-- A backend followed by those that it derives from. -/
def lineage (backend : Backend) : List Backend :=
  lineageOf backend.own backend.inherited

theorem lineage_of_root (root : backend.parent? = none) : backend.lineage = [backend] := by
  obtain ⟨own, inherited⟩ := backend
  cases inherited with
  | nil => rfl
  | cons layer rest => cases root

theorem lineage_of_parent {parent : Backend} (derives : backend.parent? = some parent) :
    backend.lineage = backend :: parent.lineage := by
  obtain ⟨own, inherited⟩ := backend
  cases inherited with
  | nil => cases derives
  | cons layer rest =>
    cases derives
    rfl

theorem layers_eq (backend : Backend) : backend.layers = backend.lineage.map (·.own) := by
  have stacked : ∀ (own : Layer) (below : List Layer), own :: below = (lineageOf own below).map (·.own) := by
    intro own below
    induction below generalizing own with
    | nil => rfl
    | cons layer rest ih => rw [lineageOf, List.map_cons, ← ih layer]
  exact stacked backend.own backend.inherited

/-! ## Keywords -/

theorem lookup?_isSome_iff (backend : Backend) (keyword : String) :
    (backend.lookup? keyword).isSome ↔ ∃ layer ∈ backend.layers, keyword ∈ layer.constructors.map (·.1) := by
  rw [lookup?, List.findSome?_isSome_iff]
  simp only [List.lookup_isSome_iff, beq_iff_eq, List.mem_map, eq_comm (b := keyword)]

/-- The keywords of a backend are those that it has a constructor for. -/
theorem mem_keywords {keyword : String} : keyword ∈ backend.keywords ↔ (backend.lookup? keyword).isSome := by
  rw [keywords, mem_sortedSet, List.mem_flatMap, lookup?_isSome_iff]

theorem keywords_ascending (backend : Backend) : backend.keywords.Pairwise (· < ·) :=
  sortedSet_ascending _

/-- What a backend has a constructor for, all backends have that derive from it. -/
theorem lookup?_of_mem_lineage {ancestor : Backend} (inherits : ancestor ∈ backend.lineage) {keyword : String}
    (found : (ancestor.own.constructors.lookup keyword).isSome) : (backend.lookup? keyword).isSome := by
  rw [lookup?, List.findSome?_isSome_iff, layers_eq]
  exact ⟨ancestor.own, List.mem_map_of_mem inherits, found⟩

/-! ## Entries -/

/-- Entries that one registration after the other leads to: the default backend comes first, and whatever
    follows has a new key and derives from the very backend that its parent's name stands for by then. -/
inductive Grown : List (String × Backend) → Prop where
  | start : Grown [(defaultName, root 0)]
  | add {entries : List (String × Backend)} {backend parent : Backend} (grown : Grown entries)
      (isNew : entries.lookup (Registry.key backend.name) = none) (derives : backend.parent? = some parent)
      (registered : entries.lookup (Registry.key parent.name) = some parent) :
      Grown (entries ++ [(Registry.key backend.name, backend)])

namespace Grown

variable {entries : List (String × Backend)}

theorem keyed (grown : Grown entries) : ∀ e ∈ entries, e.1 = Registry.key e.2.name := by
  induction grown with
  | start =>
    intro e member
    rw [List.mem_singleton.1 member]
    decide +kernel
  | add grown isNew derives registered ih =>
    refine List.forall_mem_append.2 ⟨ih, fun e member => ?_⟩
    rw [List.mem_singleton.1 member]

theorem once (grown : Grown entries) : (entries.map (·.1)).Nodup := by
  induction grown with
  | start => simp
  | @add entries backend parent grown isNew derives registered ih =>
    rw [List.map_append, List.nodup_append]
    refine ⟨ih, List.pairwise_singleton _ _, ?_⟩
    rintro k isKey k' isLast rfl
    obtain ⟨e, isEntry, rfl⟩ := List.mem_map.1 isKey
    have differs := List.lookup_eq_none_iff.1 isNew e isEntry
    simp_all

/-- What is found stays found. -/
theorem lookup_append {k : String} (found : entries.lookup k = some backend) (more : List (String × Backend)) :
    (entries ++ more).lookup k = some backend := by
  rw [List.lookup_append, found, Option.some_or]

section

variable (grown : Grown entries)
include grown

theorem default : entries.lookup defaultName = some (root 0) := by
  induction grown with
  | start => rfl
  | add grown isNew derives registered ih => exact lookup_append ih _

/-- What is not the default backend derives from one that was registered before. -/
theorem parents : ∀ before e after, entries = before ++ e :: after →
    e = (defaultName, root 0) ∨ ∃ parent, e.2.parent? = some parent ∧
      before.lookup (Registry.key parent.name) = some parent := by
  induction grown with
  | start =>
    intro before e after split
    have single : e ∈ [(defaultName, root 0)] := by simp [split]
    exact .inl (List.mem_singleton.1 single)
  | @add entries backend parent grown isNew derives registered ih =>
    intro before e after split
    -- The entry is the last one, or the split is one of the entries before.
    rcases List.eq_nil_or_concat after with rfl | ⟨others, last, rfl⟩
    · obtain ⟨rfl, same⟩ := List.append_inj' split rfl
      cases same
      exact .inr ⟨parent, derives, registered⟩
    · rw [List.concat_eq_append, ← List.cons_append, ← List.append_assoc] at split
      exact ih before e others (List.append_inj' split rfl).1

/-- The ancestors of a registered backend are registered under their own names. -/
theorem lineage_registered : ∀ e ∈ entries, ∀ a ∈ e.2.lineage, entries.lookup (Registry.key a.name) = some a := by
  induction grown with
  | start =>
    intro e member a isAncestor
    rw [List.mem_singleton.1 member, lineage_of_root rfl] at isAncestor
    rw [List.mem_singleton.1 isAncestor]
    have sameKey : Registry.key (root 0).name = defaultName := by decide +kernel
    rw [sameKey]
    rfl
  | @add entries backend parent grown isNew derives registered ih =>
    refine List.forall_mem_append.2 ⟨fun e member a isAncestor => lookup_append (ih e member a isAncestor) _, ?_⟩
    intro e member a isAncestor
    rw [List.mem_singleton.1 member, lineage_of_parent derives] at isAncestor
    cases isAncestor with
    | head =>
      rw [List.lookup_append, isNew, Option.none_or]
      simp
    | tail _ above =>
      obtain ⟨l, r, split, -⟩ := List.lookup_eq_some_iff.1 registered
      have isEntry : (Registry.key parent.name, parent) ∈ entries := by simp [split]
      exact lookup_append (ih _ isEntry a above) _

theorem lineage_ends : ∀ e ∈ entries, e.2.lineage.getLast? = some (root 0) := by
  induction grown with
  | start =>
    intro e member
    rw [List.mem_singleton.1 member]
    rfl
  | @add entries backend parent grown isNew derives registered ih =>
    refine List.forall_mem_append.2 ⟨ih, fun e member => ?_⟩
    obtain ⟨l, r, split, -⟩ := List.lookup_eq_some_iff.1 registered
    have ends := ih (Registry.key parent.name, parent) (by simp [split])
    rw [List.mem_singleton.1 member, lineage_of_parent derives, List.getLast?_cons, ends]
    rfl

theorem lookup? : ∀ e ∈ entries, ∀ keyword ∈ standardConstructors.map (·.1), (e.2.lookup? keyword).isSome := by
  intro e member keyword isStandard
  refine lookup?_of_mem_lineage (List.mem_of_getLast? (grown.lineage_ends e member)) ?_
  rw [List.lookup_isSome_iff]
  obtain ⟨entry, isEntry, rfl⟩ := List.mem_map.1 isStandard
  exact ⟨entry, isEntry, beq_self_eq_true _⟩

end

end Grown

/-! ## Runs -/

/-- What can be done around a registry.  Drafts and backends are given by their positions in the order in which
    they were made. -/
inductive Action where
  /-- Makes a default backend that is not the registered one. -/
  | makeRoot
  /-- Starts a draft on the registered backend of a name. -/
  | derive (name parent : String)
  /-- Starts a draft on any backend. -/
  | draftOn (name : String) (parent : Nat)
  /-- Builds a draft with all that it is to set. -/
  | build (draft : Nat) (constructors : List (String × Constructor)) (patterns : List (String × String))
      (naming : Option Scheme)
  /-- Registers a backend. -/
  | register (backend : Nat)

/-- A registry with the drafts and backends that have been made around it. -/
structure Session where
  registry : Registry
  drafts : List Draft
  made : List Backend

namespace Session

/-- A new registry. -/
def start : Session :=
  ⟨Registry.new, [], [root 0]⟩

/-- Does something and answers what went wrong. -/
def step (s : Session) : Action → Session × Option BackendError
  | .makeRoot =>
    let (backend, registry) := s.registry.freshRoot
    ({ s with registry, made := s.made ++ [backend] }, none)
  | .derive name parent =>
    match s.registry.derive? name parent with
    | .ok draft => ({ s with drafts := s.drafts ++ [draft] }, none)
    | .error e => (s, some e)
  | .draftOn name parent =>
    match s.made[parent]? with
    | some backend => ({ s with drafts := s.drafts ++ [Draft.ofParent name backend] }, none)
    | none => (s, none)
  | .build position constructors patterns naming =>
    match s.drafts[position]? with
    | some draft =>
      match s.registry.build { draft with constructors, patterns, naming } with
      | .ok (backend, registry) => ({ s with registry, made := s.made ++ [backend] }, none)
      | .error e => (s, some e)
    | none => (s, none)
  | .register position =>
    match s.made[position]? with
    | some backend =>
      match s.registry.register backend with
      | .ok (registry, _) => ({ s with registry }, none)
      | .error e => (s, some e)
    | none => (s, none)

/-- Does one thing after the other, whatever goes wrong. -/
def run (s : Session) (actions : List Action) : Session :=
  actions.foldl (fun s action => (s.step action).1) s

/-- What holds at any time. -/
structure Sound (s : Session) : Prop where
  grown : Grown s.registry.entries
  /-- Registered backends have been made. -/
  registered : ∀ e ∈ s.registry.entries, e.2 ∈ s.made
  /-- A draft is on top of a backend that has been made. -/
  grounded : ∀ d ∈ s.drafts, d.parent ∈ s.made
  /-- So is a backend, unless it is a default one. -/
  derived : ∀ b ∈ s.made, b.name = defaultName ∧ b.parent? = none ∨ ∃ p ∈ s.made, b.parent? = some p
  fresh : ∀ b ∈ s.made, b.own.serial < s.registry.next
  /-- Backends with one serial are the same. -/
  identified : ∀ a ∈ s.made, ∀ b ∈ s.made, a.own.serial = b.own.serial → a = b

theorem sound_start : start.Sound where
  grown := .start
  registered := by simp [start, Registry.new]
  grounded := by simp [start]
  derived := by simp [start, root, Backend.name, Backend.parent?]
  fresh := by simp [start, root, Registry.new]
  identified := by simp [start]

section

variable {s : Session} (sound : s.Sound)
include sound

/-- Making a backend on top of one that was made before, or a default one. -/
theorem Sound.make (serial : backend.own.serial = s.registry.next)
    (derived : backend.name = defaultName ∧ backend.parent? = none ∨ ∃ p ∈ s.made, backend.parent? = some p) :
    Sound { s with
      registry := { s.registry with next := s.registry.next + 1 }, made := s.made ++ [backend] } where
  grown := sound.grown
  registered := fun e member => List.mem_append_left _ (sound.registered e member)
  grounded := fun d member => List.mem_append_left _ (sound.grounded d member)
  derived := by
    have grows : ∀ b : Backend, (b.name = defaultName ∧ b.parent? = none ∨ ∃ p ∈ s.made, b.parent? = some p) →
        b.name = defaultName ∧ b.parent? = none ∨ ∃ p ∈ s.made ++ [backend], b.parent? = some p := by
      intro b
      refine Or.imp_right ?_
      rintro ⟨p, isMade, derives⟩
      exact ⟨p, List.mem_append_left _ isMade, derives⟩
    refine List.forall_mem_append.2 ⟨fun b member => grows b (sound.derived b member), ?_⟩
    exact List.forall_mem_singleton.2 (grows backend derived)
  fresh := by
    refine List.forall_mem_append.2 ⟨fun b member => Nat.lt_succ_of_lt (sound.fresh b member), ?_⟩
    exact List.forall_mem_singleton.2 (serial ▸ Nat.lt_succ_self _)
  identified := by
    -- All serials so far are smaller than the new one.
    have apart : ∀ b ∈ s.made, b.own.serial ≠ backend.own.serial :=
      fun b member => serial ▸ Nat.ne_of_lt (sound.fresh b member)
    intro a isMade b isMade' same
    rcases List.mem_append.1 isMade with old | new
    · rcases List.mem_append.1 isMade' with old' | new'
      · exact sound.identified a old b old' same
      · rw [List.mem_singleton.1 new'] at same
        exact absurd same (apart a old)
    · rcases List.mem_append.1 isMade' with old' | new'
      · rw [List.mem_singleton.1 new] at same
        exact absurd same.symm (apart b old')
      · rw [List.mem_singleton.1 new, List.mem_singleton.1 new']

theorem Sound.draft {draft : Draft} (grounded : draft.parent ∈ s.made) :
    Sound { s with drafts := s.drafts ++ [draft] } where
  grown := sound.grown
  registered := sound.registered
  grounded := List.forall_mem_append.2 ⟨sound.grounded, List.forall_mem_singleton.2 grounded⟩
  derived := sound.derived
  fresh := sound.fresh
  identified := sound.identified

theorem Sound.get?_made {name : String} (found : s.registry.get? name = some backend) : backend ∈ s.made := by
  obtain ⟨before, after, split, -⟩ := List.lookup_eq_some_iff.1 found
  exact sound.registered (Registry.key name, backend) (by simp [split])

/-- A backend counts as registered exactly if its name stands for it, though only serials are compared. -/
theorem Sound.holdsParent_iff {parent : Backend} (isMade : parent ∈ s.made) :
    s.registry.holdsParent parent = true ↔ s.registry.get? parent.name = some parent := by
  unfold Registry.holdsParent
  cases found : s.registry.get? parent.name with
  | none => simp
  | some backend =>
    simp only [Option.any_some, beq_iff_eq, Option.some.injEq]
    constructor
    · exact sound.identified backend (sound.get?_made found) parent isMade
    · rintro rfl
      rfl

end

end Session

/-- The answer of a registry to a backend that is to be registered. -/
inductive Registry.Answers (registry : Registry) (backend : Backend) :
    Except BackendError (Registry × Log) → Prop where
  | duplicate (taken : (registry.get? backend.name).isSome) :
      Answers registry backend (.error (.duplicate backend.name))
  | unknownParent {parent : Backend} (isNew : registry.get? backend.name = none)
      (derives : backend.parent? = some parent) (foreign : registry.get? parent.name ≠ some parent) :
      Answers registry backend (.error (.unknownParent parent.name))
  | registered {parent : Backend} {log : Log} (isNew : registry.get? backend.name = none)
      (derives : backend.parent? = some parent) (known : registry.get? parent.name = some parent) :
      Answers registry backend
        (.ok ({ registry with entries := registry.entries ++ [(key backend.name, backend)] }, log))

namespace Session

variable {s : Session}

theorem Sound.register_answers (sound : s.Sound) (isMade : backend ∈ s.made) :
    s.registry.Answers backend (s.registry.register backend) := by
  unfold Registry.register
  by_cases taken : (s.registry.get? backend.name).isSome
  · rw [if_pos (by exact taken)]
    exact .duplicate taken
  · rw [if_neg (by exact taken)]
    have isNew := Option.not_isSome_iff_eq_none.1 taken
    rcases sound.derived backend isMade with ⟨name, -⟩ | ⟨parent, isMade', derives⟩
    · -- A default backend has a name that is always taken.
      have sameKey : Registry.key defaultName = defaultName := by decide +kernel
      have present := sound.grown.default
      rw [Registry.get?, name, sameKey, present] at isNew
      cases isNew
    · simp only [derives]
      have holds_iff := sound.holdsParent_iff isMade'
      by_cases holds : s.registry.holdsParent parent = true
      · rw [if_pos holds]
        exact .registered isNew derives (holds_iff.1 holds)
      · rw [if_neg holds]
        exact .unknownParent isNew derives fun known => holds (holds_iff.2 known)

theorem Sound.register (sound : s.Sound) {backend : Backend} (isMade : backend ∈ s.made)
    {registry : Registry} {log : Log} (registered : s.registry.register backend = .ok (registry, log)) :
    Sound { s with registry } := by
  have answers := sound.register_answers isMade
  rw [registered] at answers
  cases answers with
  | registered isNew derives known =>
    exact {
      grown := sound.grown.add isNew derives known
      registered := List.forall_mem_append.2 ⟨sound.registered, List.forall_mem_singleton.2 isMade⟩
      grounded := sound.grounded
      derived := sound.derived
      fresh := sound.fresh
      identified := sound.identified }

theorem build_spec {registry registry' : Registry} {draft : Draft}
    (built : registry.build draft = .ok (backend, registry')) :
    backend.own.serial = registry.next ∧ backend.parent? = some draft.parent ∧
      registry' = { registry with next := registry.next + 1 } := by
  obtain ⟨own, isBuilt, same⟩ := bind_eq_ok built
  obtain ⟨patterns, -, isOwn⟩ := bind_eq_ok isBuilt
  cases same
  cases isOwn
  exact ⟨rfl, rfl, rfl⟩

/-- Whatever is done, all that held before holds afterwards. -/
theorem Sound.step (sound : s.Sound) (action : Action) : (s.step action).1.Sound := by
  cases action with
  | makeRoot => exact sound.make rfl (.inl ⟨rfl, rfl⟩)
  | derive name parent =>
    rw [Session.step, Registry.derive?]
    cases found : s.registry.get? parent with
    | none => exact sound
    | some backend => exact sound.draft (sound.get?_made found)
  | draftOn name parent =>
    rw [Session.step]
    cases found : s.made[parent]? with
    | none => exact sound
    | some backend => exact sound.draft (List.mem_of_getElem? found)
  | build position constructors patterns naming =>
    rw [Session.step]
    cases isDraft : s.drafts[position]? with
    | none => exact sound
    | some draft =>
      cases built : s.registry.build { draft with constructors, patterns, naming } with
      | error e =>
        simp only [built]
        exact sound
      | ok result =>
        obtain ⟨backend, registry⟩ := result
        obtain ⟨serial, derives, rfl⟩ := build_spec built
        simp only [built]
        have grounded := sound.grounded draft (List.mem_of_getElem? isDraft)
        exact sound.make serial (.inr ⟨draft.parent, grounded, derives⟩)
  | register position =>
    rw [Session.step]
    cases found : s.made[position]? with
    | none => exact sound
    | some backend =>
      cases registered : s.registry.register backend with
      | error e =>
        simp only [registered]
        exact sound
      | ok result =>
        simp only [registered]
        exact sound.register (List.mem_of_getElem? found) registered

theorem Sound.run (sound : s.Sound) (actions : List Action) : (s.run actions).Sound := by
  induction actions generalizing s with
  | nil => exact sound
  | cons action rest ih => exact ih (sound.step action)

end Session

/-! ## Registries that can be reached -/

/-- What is known of a registry that can be reached. -/
structure Registry.Sound (registry : Registry) : Prop where
  /-- The key of an entry is the lower-case name of its backend. -/
  keyed : ∀ e ∈ registry.entries, e.1 = key e.2.name
  once : (registry.entries.map (·.1)).Nodup
  default : registry.get? defaultName = some (root 0)
  /-- Every other backend derives from the very backend that was registered before under the name of its
      parent. -/
  parents : ∀ before e after, registry.entries = before ++ e :: after → e = (defaultName, root 0) ∨
    ∃ parent, e.2.parent? = some parent ∧ before.lookup (key parent.name) = some parent
  /-- All ancestors are registered, and the last one is the default backend. -/
  lineages : ∀ e ∈ registry.entries,
    (∀ a ∈ e.2.lineage, registry.get? a.name = some a) ∧ e.2.lineage.getLast? = some (root 0)
  inherits : ∀ e ∈ registry.entries, ∀ keyword ∈ standardConstructors.map (·.1), (e.2.lookup? keyword).isSome
  ascending : ∀ e ∈ registry.entries, e.2.keywords.Pairwise (· < ·)
  complete : ∀ e ∈ registry.entries, ∀ keyword, keyword ∈ e.2.keywords ↔ (e.2.lookup? keyword).isSome

theorem Grown.sound {registry : Registry} (grown : Grown registry.entries) : registry.Sound where
  keyed := grown.keyed
  once := grown.once
  default := by
    have sameKey : Registry.key defaultName = defaultName := by decide +kernel
    rw [Registry.get?, sameKey]
    exact grown.default
  parents := grown.parents
  lineages := fun e member => ⟨grown.lineage_registered e member, grown.lineage_ends e member⟩
  inherits := grown.lookup?
  ascending := fun e _ => keywords_ascending e.2
  complete := fun _ _ _ => mem_keywords

/-- Whatever has been done from a new registry on, the registry is sound.  It accepts a backend exactly if its
    name is new and stands on the registered backend of its parent's name; what it refuses leaves all as it
    was. -/
theorem run_registry_sound (actions : List Action) :
    let s := Session.start.run actions
    s.registry.Sound ∧ ∀ position backend, s.made[position]? = some backend →
      s.registry.Answers backend (s.registry.register backend) ∧
      ∀ e, s.registry.register backend = .error e → s.step (.register position) = (s, some e) := by
  intro s
  have sound : s.Sound := Session.sound_start.run actions
  refine ⟨sound.grown.sound, fun position backend isMade => ?_⟩
  refine ⟨sound.register_answers (List.mem_of_getElem? isMade), fun e refused => ?_⟩
  simp only [Session.step, isMade, refused]

theorem Session.register_eq_error {s : Session} {position : Nat} {e : BackendError}
    (isMade : s.made[position]? = some backend) (refused : (s.step (.register position)).2 = some e) :
    s.registry.register backend = .error e := by
  simp only [Session.step, isMade] at refused
  cases outcome : s.registry.register backend with
  | error e' =>
    rw [outcome] at refused
    cases refused
    rfl
  | ok result =>
    rw [outcome] at refused
    cases refused

/-- A backend is registered.  Then one is built on another default backend, and one of the same name but for
    the case on the registered one. -/
def foreignParent : List Action :=
  [.derive "Java" "DEFAULT", .build 0 [("anydata", .container)] [("u?int8", "byte")] none, .register 1, .makeRoot,
   .draftOn "Kotlin" 2, .build 1 [] [] none, .derive "JAVA" "java", .build 2 [] [] none]

/-- The first of the two is refused though its parent has the right name, the second because of its own. -/
theorem run_registry_sound_foreignParent :
    let s := Session.start.run foreignParent
    s.registry.Sound ∧ s.registry.names = ["default", "Java"] ∧
      (∃ backend, s.made[3]? = some backend ∧
        s.registry.Answers backend (.error (.unknownParent "default")) ∧
        s.step (.register 3) = (s, some (.unknownParent "default"))) ∧
      ∃ backend, s.made[4]? = some backend ∧ s.registry.Answers backend (.error (.duplicate "JAVA")) ∧
        s.step (.register 4) = (s, some (.duplicate "JAVA")) := by
  intro s
  obtain ⟨sound, answers⟩ := run_registry_sound foreignParent
  have names : s.registry.names = ["default", "Java"] := by decide +kernel
  have foreign : (s.step (.register 3)).2 = some (.unknownParent "default") := by decide +kernel
  have duplicate : (s.step (.register 4)).2 = some (.duplicate "JAVA") := by decide +kernel
  have refuses : ∀ position e, s.made[position]?.isSome = true → (s.step (.register position)).2 = some e →
      ∃ backend, s.made[position]? = some backend ∧ s.registry.Answers backend (.error e) ∧
        s.step (.register position) = (s, some e) := by
    intro position e present refused
    obtain ⟨backend, isMade⟩ := Option.isSome_iff_exists.1 present
    have outcome := Session.register_eq_error isMade refused
    obtain ⟨answer, unchanged⟩ := answers position backend isMade
    exact ⟨backend, isMade, outcome ▸ answer, unchanged e outcome⟩
  exact ⟨sound, names, refuses 3 _ (by decide +kernel) foreign, refuses 4 _ (by decide +kernel) duplicate⟩

end YangStubs.Backend
