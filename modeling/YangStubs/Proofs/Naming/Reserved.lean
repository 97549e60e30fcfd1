import YangStubs.Proofs.Naming.Spelling

/-! # Names and reserved words

Which of the names that a scheme makes are reserved.  The scheme of Rust sources makes none; the standard one
keeps clear of them in variants only, and a class of it can be called `Self`.
-/

namespace YangStubs.Naming

open YangStubs.Text

/-- The words that are no names: those that are reserved, and those that are so in raw form. -/
def forbiddenWords : List String :=
  reservedWords ++ pathWords.map ("r#" ++ ·)

/-- Whether a word is no name. -/
def isForbidden (name : String) : Bool :=
  forbiddenWords.contains name

theorem isForbidden_iff {name : String} : isForbidden name = true ↔ name ∈ forbiddenWords := by
  rw [isForbidden, List.contains_iff_mem]

theorem isForbidden_eq_false_iff {name : String} : isForbidden name = false ↔
    name ∉ reservedWords ∧ ∀ word ∈ pathWords, name ≠ "r#" ++ word := by
  simp only [Bool.eq_false_iff, ne_eq, isForbidden_iff, forbiddenWords, List.mem_append, List.mem_map, not_or,
    not_exists, not_and, @eq_comm _ name]

/-! ## Capitals -/

theorem isForbidden_of_capital {name : String} (capital : IsCapital name) :
    isForbidden name = true ↔ name = "Self" := by
  constructor
  · intro forbidden
    have small : forbiddenWords.all (fun word => word == "Self" ||
        word.toList.head?.any (smallLetters.contains ·.toNat)) = true := by
      decide +kernel
    have here := List.all_eq_true.1 small name (isForbidden_iff.1 forbidden)
    cases isHead : name.toList.head? with
    | none => simpa [isHead] using here
    | some c => simpa [isHead, capital c isHead] using here
  · rintro rfl
    decide +kernel

/-- A name for a type: a capital, and not the one that is reserved. -/
structure IsTypeName (name : String) : Prop where
  capital : IsCapital name
  other : name ≠ "Self"

namespace IsTypeName

theorem notForbidden {name : String} (isTypeName : IsTypeName name) : isForbidden name = false := by
  rw [Bool.eq_false_iff, ne_eq, isForbidden_of_capital isTypeName.capital]
  exact isTypeName.other

theorem of_head {name : String} {c : Char} (isHead : name.toList.head? = some c)
    (capital : smallLetters.contains c.toNat = false) (other : c ≠ 'S') : IsTypeName name where
  capital := by
    intro d isHead'
    rw [isHead, Option.some.injEq] at isHead'
    rw [← isHead', capital]
  other := by
    rintro rfl
    exact other (by simpa using isHead.symm)

theorem append {a b : String} (first : IsTypeName a) (second : IsTypeName b) : IsTypeName (a ++ b) where
  capital := first.capital.append second.capital
  other := by
    intro joined
    have chars : a.toList ++ b.toList = ['S', 'e', 'l', 'f'] := by
      rw [← String.toList_append, joined]
      rfl
    -- A cut inside the word leaves a small letter at the start of the second part.
    cases ofFirst : a.toList with
    | nil =>
      obtain rfl : a = "" := by simpa using ofFirst
      exact second.other (by simpa using joined)
    | cons c rest =>
      cases ofSecond : b.toList with
      | nil =>
        obtain rfl : b = "" := by simpa using ofSecond
        exact first.other (by simpa using joined)
      | cons d more =>
        rw [ofFirst, ofSecond, List.cons_append, List.cons.injEq] at chars
        have inside : d ∈ ['e', 'l', 'f'] := by
          rw [← chars.2]
          simp
        have small : ['e', 'l', 'f'].all (smallLetters.contains ·.toNat) = true := by decide
        have capital := second.capital d (by rw [ofSecond]; rfl)
        rw [List.all_eq_true.1 small d inside] at capital
        cases capital

end IsTypeName

/-! ## The scheme of Rust sources -/

theorem escapeReserved_notReserved (name : String) : escapeReserved name ∉ reservedWords := by
  have suffixed : ∀ word ∈ pathWords, word ++ "_" ∉ reservedWords := by decide +kernel
  have marked : ∀ word ∈ reservedWords, "r#" ++ word ∉ reservedWords := by decide +kernel
  unfold escapeReserved
  split
  · rename_i isPath
    exact suffixed name (List.contains_iff_mem.1 isPath)
  · split
    · rename_i isReserved
      exact marked name (List.contains_iff_mem.1 isReserved)
    · rename_i free
      simpa using free

/-- A word that is escaped is a name, unless it was marked as raw before. -/
theorem escapeReserved_notForbidden {name : String} (unmarked : '#' ∉ name.toList) :
    isForbidden (escapeReserved name) = false := by
  rw [isForbidden_eq_false_iff]
  refine ⟨escapeReserved_notReserved name, fun word isPath same => ?_⟩
  have suffixed : ∀ a ∈ pathWords, ∀ b ∈ pathWords, a ++ "_" ≠ "r#" ++ b := by decide +kernel
  unfold escapeReserved at same
  split at same
  · rename_i isPath'
    exact suffixed name (List.contains_iff_mem.1 isPath') word isPath same
  · rename_i notPath
    split at same
    · obtain rfl : name = word := by simpa [← String.toList_inj] using same
      simp [isPath] at notPath
    · rw [same] at unmarked
      simp at unmarked

/-- A character stays out of a name if lowering never leads to it. -/
theorem snake_excludes {x : Char} (sigma : 'ς' ≠ x) (between : '_' ≠ x)
    (all : ∀ n : Fin 128, (!(Char.ofNat n).isAlphanum || (Char.ofNat n).toLower != x) = true)
    (ascii : x.toNat < 128) (avoid : avoids Table.lowerExpansions Table.lowerShifts ⟨x.toNat, x.toNat, 1⟩ = true)
    (name : String) : x ∉ (snake name).toList := by
  have lowered : ∀ c, isAlphanumeric c = true → ∀ d ∈ lowerChars c, d ≠ x := by
    intro c isLetter d member
    by_cases small : c.toNat < 128
    · have here := forall_ascii (p := fun c => !c.isAlphanum || c.toLower != x) all small
      rw [isAlphanumeric, if_pos small] at isLetter
      rw [lowerChars, if_pos small, List.mem_singleton] at member
      simpa [isLetter, ← member] using here
    · have own : (⟨x.toNat, x.toNat, 1⟩ : Run).contains c.toNat = false := by
        apply Bool.eq_false_iff.2
        intro inside
        have bounds := contains_bounds inside
        dsimp only at bounds
        omega
      rw [lowerChars, if_neg small] at member
      rintro rfl
      have outside := mapped_outside avoid own member
      simp [Run.contains] at outside
  exact fun member => forall_mem_snake sigma between lowered name x member rfl

theorem snake_unmarked (name : String) : '#' ∉ (snake name).toList :=
  snake_excludes (by decide) (by decide) (by decide +kernel) (by decide) (by decide +kernel) name

theorem variableName_rust (name : String) : isForbidden (Scheme.rust.variableName name) = false := by
  simp only [Scheme.rust]
  exact escapeReserved_notForbidden (snake_unmarked name)

theorem className_rust (name : String) : IsTypeName (Scheme.rust.className name) where
  capital := (className_spelled name).capital
  other := by
    intro same
    have free := escapeReserved_notReserved (upperCamel name)
    simp only [Scheme.rust] at same
    rw [same] at free
    exact free (by decide)

theorem inlineName_rust (owner : Option String) (ofOwner : ∀ name ∈ owner, IsTypeName name) (name : String) :
    IsTypeName (Scheme.rust.inlineName owner name) := by
  cases owner with
  | none => exact className_rust name
  | some parent =>
    rw [inlineName_some]
    exact (ofOwner parent rfl).append (className_rust name)

theorem variantName_rust (name : String) : isForbidden (Scheme.rust.variantName name) = false := by
  have escaped := (className_rust name).notForbidden
  simp only [Scheme.rust] at escaped ⊢
  split
  · have isHead : ("_" ++ upperCamel name).toList.head? = some '_' := by simp
    exact (IsTypeName.of_head isHead (by decide) (by decide)).notForbidden
  · exact escaped

/-! ## The standard scheme -/

theorem className_standard (name : String) : IsCapital (Scheme.standard.className name) := by
  unfold IsCapital
  simp only [Scheme.standard, Scheme.withClassName, Convention.convert, String.toList_ofList]
  exact raised_head rfl (fun c rest => ⟨rest.flatMap lowerChars, rfl⟩) _

theorem variantName_standard (name : String) : isForbidden (Scheme.standard.variantName name) = false := by
  have small : forbiddenWords.all (·.toList.any (smallLetters.contains ·.toNat)) = true := by decide +kernel
  have between : smallLetters.contains '_'.toNat = false := by decide
  -- All of the name is raised, so there is no small letter in it.
  have raised : ∀ c ∈ (Convention.convert .kebab .screaming name).toList, smallLetters.contains c.toNat = false := by
    simp only [Convention.convert, Convention.joinChars, String.toList_ofList]
    refine forall_mem_joinWith (List.forall_mem_singleton.2 between) _ fun piece isPiece => ?_
    obtain ⟨w, -, rfl⟩ := List.mem_map.1 isPiece
    intro c member
    obtain ⟨d, -, isRaised⟩ := List.mem_flatMap.1 member
    exact upperChars_capital d c isRaised
  have chars : ∀ c ∈ (Scheme.standard.variantName name).toList, smallLetters.contains c.toNat = false := by
    simp only [Scheme.standard, Scheme.withClassName, guardDigit]
    split
    · rw [String.toList_append]
      exact List.forall_mem_append.2 ⟨List.forall_mem_singleton.2 between, raised⟩
    · exact raised
  apply Bool.eq_false_iff.2
  intro forbidden
  have here := List.all_eq_true.1 small _ (isForbidden_iff.1 forbidden)
  obtain ⟨c, member, isSmall⟩ := List.any_eq_true.1 here
  rw [chars c member] at isSmall
  cases isSmall

end YangStubs.Naming
