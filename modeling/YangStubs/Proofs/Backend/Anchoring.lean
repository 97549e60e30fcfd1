import YangStubs.Proofs.Backend.Registry
import YangStubs.Proofs.Pattern.Framing
import YangStubs.Proofs.Schema.Embedding
import YangStubs.Backend.Builtin

/-! # What type patterns match

A type pattern that is a regular expression on its own matches whole names of built-in types, and patterns that
are put on top of a backend change what it maps a built-in type to only if one of them matches.
-/

namespace YangStubs.Backend

open YangStubs.Pattern

theorem TypePattern.isMatch_eq {text dataType : String} {pattern : TypePattern} {regex : Regex}
    (compiled : TypePattern.compile text dataType = .ok pattern) (isPattern : Regex.parse? text = some regex)
    (builtin : String) : pattern.isMatch builtin = regex.matchesWhole builtin.toList := by
  unfold TypePattern.compile at compiled
  split at compiled <;> cases compiled
  cases Regex.parse?_anchored isPattern ‹_›
  exact Regex.matchesIn_framed _ _

/-- Where a new layer maps a built-in type otherwise than its parent, one of its own patterns matches. -/
theorem build_mapping? {draft : Draft} {serial : Nat} {backend : Backend} (built : draft.build serial = .ok backend)
    {builtin : String} (other : backend.mapping? builtin ≠ draft.parent.mapping? builtin) :
    ∃ p ∈ draft.patterns, ∃ pattern, TypePattern.compile p.1 p.2 = .ok pattern ∧ pattern.isMatch builtin := by
  obtain ⟨patterns, read, same⟩ := bind_eq_ok built
  cases same
  by_contra unmatched
  have none : patterns.find? (·.isMatch builtin) = none := by
    rw [List.find?_eq_none]
    intro pattern own matched
    obtain ⟨p, member, compiled⟩ := (Schema.mem_of_mapM_eq_ok read pattern).1 own
    exact unmatched ⟨p, member, pattern, compiled, matched⟩
  refine other ?_
  simp [mapping?, layers, none]

/-- An accepted pattern is a regular expression that matches just the names `isMatch` holds for, as a whole, exactly if
    its text can be read on its own.  Selecting with patterns on top changes what a built-in type maps to only if one
    of them matches, hence, if that is such an expression, only for a name that it matches as a whole. -/
theorem patterns_match_whole (patterns : List (String × String)) :
    (∀ p ∈ patterns, ∀ pattern, TypePattern.compile p.1 p.2 = .ok pattern →
      ((∃ regex, Regex.parse? p.1 = some regex ∧
        ∀ builtin, pattern.isMatch builtin = regex.matchesWhole builtin.toList) ↔ (Regex.parse? p.1).isSome)) ∧
    ∀ (registry registry' : Registry) name base backend, registry.get? name = some base →
      registry.select name patterns = .ok (backend, registry') →
      ∀ builtin, backend.mapping? builtin ≠ base.mapping? builtin →
        ∃ p ∈ patterns, ∃ pattern, TypePattern.compile p.1 p.2 = .ok pattern ∧ pattern.isMatch builtin ∧
          ∀ regex, Regex.parse? p.1 = some regex → regex.matchesWhole builtin.toList := by
  refine ⟨fun p _ pattern compiled => ?_, ?_⟩
  · rw [Option.isSome_iff_exists]
    exact exists_congr fun regex => and_iff_left_of_imp fun isPattern => TypePattern.isMatch_eq compiled isPattern
  intro registry registry' name base backend found selected builtin other
  simp only [Registry.select, found] at selected
  split at selected
  · cases selected
    exact absurd rfl other
  · obtain ⟨_, built, same⟩ := bind_eq_ok selected
    cases same
    obtain ⟨p, member, pattern, compiled, matched⟩ := build_mapping? built other
    refine ⟨p, member, pattern, compiled, matched, fun regex isPattern => ?_⟩
    rw [← TypePattern.isMatch_eq compiled isPattern, matched]

theorem patterns_match_whole_optional :
    ∃ registry log base backend registry' pattern regex, Registry.builtin = .ok (registry, log) ∧
      registry.get? rustName = some base ∧ registry.select rustName [("u?int8", "Byte")] = .ok (backend, registry') ∧
      backend.mapping? "int8" ≠ base.mapping? "int8" ∧ TypePattern.compile "u?int8" "Byte" = .ok pattern ∧
      Regex.parse? "u?int8" = some regex ∧ regex.matchesWhole "int8".toList ∧
      pattern.isMatch "uint16" = regex.matchesWhole "uint16".toList := by
  have evaluated : (Registry.builtin.toOption.bind fun built =>
      (built.1.get? rustName).bind fun base => (built.1.select rustName [("u?int8", "Byte")]).toOption.map
        fun selected => (base.mapping? "int8", selected.1.mapping? "int8")) = some (some "i8", some "Byte") := by
    decide +kernel
  obtain ⟨⟨registry, log⟩, built, evaluated⟩ := Option.bind_eq_some_iff.1 evaluated
  obtain ⟨base, found, evaluated⟩ := Option.bind_eq_some_iff.1 evaluated
  obtain ⟨⟨backend, registry'⟩, selected, mapped⟩ := Option.map_eq_some_iff.1 evaluated
  obtain ⟨mapped, mapped'⟩ := Prod.mk.inj mapped
  have other : backend.mapping? "int8" ≠ base.mapping? "int8" := by
    rw [mapped, mapped']
    decide
  obtain ⟨regex, isPattern⟩ := Option.isSome_iff_exists.1 (by decide +kernel : (Regex.parse? "u?int8").isSome)
  have anchored := patterns_match_whole [("u?int8", "Byte")]
  obtain ⟨p, member, pattern, compiled, -, whole⟩ := anchored.2 _ _ _ _ _ found (eq_ok_of_toOption selected) "int8" other
  cases List.mem_singleton.1 member
  obtain ⟨regex', isPattern', same⟩ := (anchored.1 _ member pattern compiled).2 (by rw [isPattern]; rfl)
  cases isPattern.symm.trans isPattern'
  exact ⟨registry, log, base, backend, registry', pattern, regex, eq_ok_of_toOption built, found,
    eq_ok_of_toOption selected, other, compiled, isPattern, whole regex isPattern, same _⟩

-- a text that closes the group and opens another is accepted, although it is no regular expression
example : (TypePattern.compile "int8)|(?:int16" "Byte").toOption.map (·.isMatch "uint16") = some true ∧
    (Regex.parse? "int8)|(?:int16").isNone := by
  decide +kernel

end YangStubs.Backend
