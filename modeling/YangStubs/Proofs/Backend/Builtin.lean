import YangStubs.Backend.Builtin
import YangStubs.Proofs.Backend.Registry

/-! # The backends of the tool

The tool has the default backend and one for Rust.  Which of them is selected settles how things are named,
whatever patterns a configuration puts on top; both make the same nodes.
-/

namespace YangStubs.Backend

variable {registry' : Registry} {backend : Backend}

section

variable {draft : Draft} {serial : Nat} {backend : Backend} (built : draft.build serial = .ok backend)
include built

theorem build_naming : backend.name = draft.name ∧ backend.naming = draft.naming.getD draft.parent.naming := by
  obtain ⟨patterns, -, same⟩ := bind_eq_ok built
  cases same
  refine ⟨rfl, ?_⟩
  unfold naming
  cases draft.naming <;> simp [layers]

/-- A draft that sets no constructors inherits them. -/
theorem build_lookup? (none : draft.constructors = []) (keyword : String) :
    backend.lookup? keyword = draft.parent.lookup? keyword := by
  obtain ⟨patterns, -, same⟩ := bind_eq_ok built
  cases same
  rw [lookup?, layers, List.findSome?_cons, none]
  rfl

end

theorem register_entries {registry : Registry} {log : Log}
    (registered : registry.register backend = .ok (registry', log)) :
    registry'.entries = registry.entries ++ [(Registry.key backend.name, backend)] := by
  unfold Registry.register at registered
  split at registered
  · cases registered
  · split at registered
    · split at registered
      · cases registered
        rfl
      · cases registered
    · cases registered
      rfl

/-- The tool has the default backend and one for Rust. -/
theorem builtin_entries {registry : Registry} {log : Log} (built : Registry.builtin = .ok (registry, log)) :
    ∃ own, registry.entries = [(defaultName, root 0), (rustName, own)] ∧ own.naming = .rust ∧
      ∀ keyword, own.lookup? keyword = (root 0).lookup? keyword := by
  obtain ⟨draft, derived, rest⟩ := bind_eq_ok built
  obtain ⟨⟨own, _⟩, made, registered⟩ := bind_eq_ok rest
  obtain ⟨_, isBuilt, same⟩ := bind_eq_ok made
  cases same
  obtain ⟨name, naming⟩ : own.name = draft.name ∧ own.naming = .rust := build_naming isBuilt
  obtain ⟨ofDraft, noConstructors, parent⟩ :
      draft.name = rustName ∧ draft.constructors = [] ∧ draft.parent = root 0 := by
    unfold Registry.derive? at derived
    split at derived
    · rename_i parent found
      cases derived
      cases found
      exact ⟨rfl, rfl, rfl⟩
    · cases derived
  have sameKey : Registry.key rustName = rustName := by decide +kernel
  refine ⟨own, ?_, naming, fun keyword => ?_⟩
  · rw [register_entries registered, name, ofDraft, sameKey]
    rfl
  · rw [build_lookup? isBuilt noConstructors, parent]

/-- What is selected is the registered backend, or one that sets patterns only and inherits the rest. -/
theorem select_base {registry : Registry} {name : String} {patterns : List (String × String)}
    (selected : registry.select name patterns = .ok (backend, registry')) :
    ∃ base, registry.get? name = some base ∧ backend.naming = base.naming ∧
      ∀ keyword, backend.lookup? keyword = base.lookup? keyword := by
  unfold Registry.select at selected
  cases found : registry.get? name with
  | none =>
    rw [found] at selected
    cases selected
  | some base =>
    simp only [found] at selected
    split at selected
    · cases selected
      exact ⟨_, rfl, rfl, fun _ => rfl⟩
    · obtain ⟨_, more, same⟩ := bind_eq_ok selected
      cases same
      exact ⟨base, rfl, (build_naming more).2, build_lookup? more rfl⟩

section

variable {registry : Registry} {log : Log} (built : Registry.builtin = .ok (registry, log))
include built

/-- What the tool has under a name is the default backend or the one for Rust. -/
theorem get?_builtin {name : String} {base : Backend} (found : registry.get? name = some base) :
    (Registry.key name = rustName ∧ base.naming = .rust ∨
      Registry.key name = defaultName ∧ base.naming = .standard) ∧
      ∀ keyword, base.lookup? keyword = (root 0).lookup? keyword := by
  obtain ⟨own, entries, naming, constructors⟩ := builtin_entries built
  rw [Registry.get?, entries, List.lookup_cons] at found
  by_cases isDefault : Registry.key name = defaultName
  · simp only [isDefault, beq_self_eq_true, Option.some.injEq] at found
    subst found
    exact ⟨.inr ⟨isDefault, rfl⟩, fun _ => rfl⟩
  · have passed : (Registry.key name == defaultName) = false := by simpa using isDefault
    rw [passed] at found
    by_cases isRust : Registry.key name = rustName
    · simp only [isRust, List.lookup_cons_self, Option.some.injEq] at found
      subst found
      exact ⟨.inl ⟨isRust, naming⟩, constructors⟩
    · have passed' : (Registry.key name == rustName) = false := by simpa using isRust
      simp [List.lookup_cons, passed'] at found

/-- A backend of the tool names things for Rust if it is chosen for that, whatever patterns are put on top. -/
theorem select_naming {name : String} {patterns : List (String × String)}
    (selected : registry.select name patterns = .ok (backend, registry')) :
    Registry.key name = rustName ∧ backend.naming = .rust ∨
      Registry.key name = defaultName ∧ backend.naming = .standard := by
  obtain ⟨base, found, same, -⟩ := select_base selected
  rw [same]
  exact (get?_builtin built found).1

/-- All backends of the tool have the constructors of the default one. -/
theorem select_lookup? {name : String} {patterns : List (String × String)}
    (selected : registry.select name patterns = .ok (backend, registry')) (keyword : String) :
    backend.lookup? keyword = (root 0).lookup? keyword := by
  obtain ⟨base, found, -, same⟩ := select_base selected
  rw [same]
  exact (get?_builtin built found).2 keyword

theorem select_rust_naming {patterns : List (String × String)}
    (selected : registry.select rustName patterns = .ok (backend, registry')) : backend.naming = .rust := by
  have other : Registry.key rustName ≠ defaultName := by decide +kernel
  exact ((select_naming built selected).resolve_right fun isDefault => other isDefault.1).2

end

end YangStubs.Backend
