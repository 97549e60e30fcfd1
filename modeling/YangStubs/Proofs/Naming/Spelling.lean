import YangStubs.Naming.Scheme
import YangStubs.Proofs.Text.Split

/-! # How generated names are spelled

Whatever a schema calls things, names that are put together from words hold neither colons nor white space,
and no class name starts with a small letter: it is never a reserved word that has to be marked as raw.  For
characters outside of ASCII this is a property of the tables, which is checked run by run.
-/

namespace YangStubs.Naming

open YangStubs.Text

variable {r : Run} {c : Char}

/-! ## Runs that case mappings stay clear of -/

/-- The letters from `a` to `z`. -/
def smallLetters : Run :=
  ⟨0x61, 0x7A, 1⟩

/-- Colons and white space. -/
def fillers : List Run :=
  ⟨0x3A, 0x3A, 1⟩ :: Table.blank

/-- Whether a character only stands between words. -/
def isFiller (c : Char) : Bool :=
  inRuns fillers c

/-- Whether a shift moves nothing into a run. -/
def clears (r : Run) (s : Shift) : Bool :=
  decide (s.target + (s.run.last - s.run.first) < r.first) || decide (r.last < s.target)

/-- Whether all that a table of case mappings leads to is outside of a run. -/
def avoids (expansions : List (Nat × List Nat)) (shifts : List Shift) (r : Run) : Bool :=
  !r.contains 0 && expansions.all (fun entry => entry.2.all (!r.contains ·)) && shifts.all (clears r)

theorem contains_bounds {n : Nat} (inside : r.contains n = true) : r.first ≤ n ∧ n ≤ r.last := by
  simp only [Run.contains, Bool.and_eq_true, decide_eq_true_eq] at inside
  exact inside.1

theorem contains_toNat_ofNat {n : Nat} (zero : r.contains 0 = false) (outside : r.contains n = false) :
    r.contains (Char.ofNat n).toNat = false := by
  by_cases valid : n.isValidChar
  · rw [Char.ofNat, dif_pos valid]
    exact outside
  · rw [Char.ofNat, dif_neg valid]
    exact zero

theorem move?_outside {s : Shift} (clear : clears r s = true) {n k : Nat} (moves : s.move? n = some k) :
    r.contains k = false := by
  unfold Shift.move? at moves
  split at moves
  · rename_i inside
    have within := contains_bounds inside
    cases moves
    apply Bool.eq_false_iff.2
    intro reached
    have bounds := contains_bounds reached
    simp only [clears, Bool.or_eq_true, decide_eq_true_eq] at clear
    omega
  · cases moves

/-- What a character is mapped to, itself if it is in no table, is outside of a run that the tables avoid. -/
theorem mapped_outside {expansions : List (Nat × List Nat)} {shifts : List Shift}
    (avoid : avoids expansions shifts r = true) (own : r.contains c.toNat = false) {d : Char}
    (member : d ∈ ((expansion? expansions c).orElse fun _ => (shifted? shifts c).map ([·])).getD [c]) :
    r.contains d.toNat = false := by
  simp only [avoids, Bool.and_eq_true, Bool.not_eq_true', List.all_eq_true] at avoid
  obtain ⟨⟨zero, expanded⟩, moved⟩ := avoid
  -- An expansion comes before a shift, and what has neither stays what it is.
  cases listed : expansions.find? (·.1 == c.toNat) with
  | some entry =>
    simp only [expansion?, listed, Option.map_some, Option.orElse_some, Option.getD_some, List.mem_map] at member
    obtain ⟨n, inEntry, rfl⟩ := member
    exact contains_toNat_ofNat zero (expanded entry (List.mem_of_find?_eq_some listed) n inEntry)
  | none =>
    simp only [expansion?, listed, Option.map_none, Option.orElse_none] at member
    cases found : shifts.findSome? (·.move? c.toNat) with
    | none =>
      simp only [shifted?, found, Option.map_none, Option.getD_none, List.mem_singleton] at member
      rw [member]
      exact own
    | some k =>
      simp only [shifted?, found, Option.map_some, Option.getD_some, List.mem_singleton] at member
      obtain ⟨s, isShift, moves⟩ := List.exists_of_findSome?_eq_some found
      rw [member]
      exact contains_toNat_ofNat zero (move?_outside (moved s isShift) moves)

/-! ## Characters of words -/

/-- A property of the characters below 128 can be checked for each of them. -/
theorem forall_ascii {p : Char → Bool} (all : ∀ n : Fin 128, p (Char.ofNat n) = true) (ascii : c.toNat < 128) :
    p c = true := by
  have here := all ⟨c.toNat, ascii⟩
  simpa using here

theorem isAlphanum_ascii (isLetter : c.isAlphanum = true) : c.toNat < 128 := by
  delta Char.isAlphanum Char.isAlpha Char.isUpper Char.isLower Char.isDigit at isLetter
  simp only [Bool.or_eq_true, Bool.and_eq_true, decide_eq_true_eq, ge_iff_le, UInt32.le_iff_toNat_le] at isLetter
  simp only [Char.toNat]
  have bounds : ('A'.val.toNat = 65 ∧ 'Z'.val.toNat = 90) ∧ ('a'.val.toNat = 97 ∧ 'z'.val.toNat = 122) ∧
      '0'.val.toNat = 48 ∧ '9'.val.toNat = 57 := by decide
  omega

theorem alphanumeric_outside (isLetter : isAlphanumeric c = true) (other : ¬ c.toNat < 128) (listed : r ∈ fillers) :
    r.contains c.toNat = false := by
  have apart : ∀ r ∈ fillers, ∀ a ∈ Table.alphanumeric, a.last < r.first ∨ r.last < a.first := by
    decide +kernel
  rw [isAlphanumeric, if_neg other] at isLetter
  obtain ⟨a, inTable, inside⟩ := List.any_eq_true.1 isLetter
  have within := contains_bounds inside
  apply Bool.eq_false_iff.2
  intro reached
  have bounds := contains_bounds reached
  have different := apart r listed a inTable
  omega

theorem isFiller_eq_false (outside : ∀ r ∈ fillers, r.contains c.toNat = false) : isFiller c = false := by
  simpa [isFiller, inRuns] using outside

/-- A letter or a number stays clear of the fillers in another case, if ASCII and the tables do. -/
theorem cased_fillers {f : Char → Char} {expansions : List (Nat × List Nat)} {shifts : List Shift}
    (all : ∀ n : Fin 128, (!(Char.ofNat n).isAlphanum || !isFiller (f (Char.ofNat n))) = true)
    (avoid : ∀ r ∈ fillers, avoids expansions shifts r = true) (isLetter : isAlphanumeric c = true) :
    ∀ d ∈ (if c.toNat < 128 then [f c]
      else ((expansion? expansions c).orElse fun _ => (shifted? shifts c).map ([·])).getD [c]),
      isFiller d = false := by
  intro d member
  by_cases ascii : c.toNat < 128
  · have here := forall_ascii (p := fun c => !c.isAlphanum || !isFiller (f c)) all ascii
    rw [isAlphanumeric, if_pos ascii] at isLetter
    rw [if_pos ascii, List.mem_singleton] at member
    simpa [isLetter, ← member] using here
  · rw [if_neg ascii] at member
    exact isFiller_eq_false fun r listed =>
      mapped_outside (avoid r listed) (alphanumeric_outside isLetter ascii listed) member

theorem upperChars_fillers (isLetter : isAlphanumeric c = true) : ∀ d ∈ upperChars c, isFiller d = false :=
  cased_fillers (f := Char.toUpper) (by decide +kernel) (by decide +kernel) isLetter

theorem lowerChars_fillers (isLetter : isAlphanumeric c = true) : ∀ d ∈ lowerChars c, isFiller d = false :=
  cased_fillers (f := Char.toLower) (by decide +kernel) (by decide +kernel) isLetter

theorem upperChars_capital (c : Char) : ∀ d ∈ upperChars c, smallLetters.contains d.toNat = false := by
  intro d member
  by_cases ascii : c.toNat < 128
  · have all : ∀ n : Fin 128, (!smallLetters.contains (Char.ofNat n).toUpper.toNat) = true := by
      decide +kernel
    have here := forall_ascii (p := fun c => !smallLetters.contains c.toUpper.toNat) all ascii
    rw [upperChars, if_pos ascii, List.mem_singleton] at member
    simpa [← member] using here
  · have avoid : avoids Table.upperExpansions Table.upperShifts smallLetters = true := by
      decide +kernel
    -- A character that no table lists stays, but it is not an ASCII letter here.
    have own : smallLetters.contains c.toNat = false := by
      apply Bool.eq_false_iff.2
      intro inside
      have bounds := contains_bounds inside
      simp only [smallLetters] at bounds
      omega
    rw [upperChars, if_neg ascii] at member
    exact mapped_outside avoid own member

theorem upperChars_ne_nil (c : Char) : upperChars c ≠ [] := by
  have filled : ∀ entry ∈ Table.upperExpansions, entry.2 ≠ [] := by decide +kernel
  unfold upperChars
  split
  · simp
  · cases listed : Table.upperExpansions.find? (·.1 == c.toNat) with
    | some entry => simpa [expansion?, listed] using filled entry (List.mem_of_find?_eq_some listed)
    | none => cases found : shifted? Table.upperShifts c <;> simp [expansion?, listed]

/-! ## Words -/

theorem mem_wordsFrom (state : WordCase) (word cs : List Char) :
    ∀ w ∈ wordsFrom state word cs, ∀ c ∈ w, c ∈ word ∨ c ∈ cs := by
  fun_induction wordsFrom state word cs with
  | case1 => simp
  | case2 => simp [or_comm]
  | case3 state word c next rest _ ih => grind
  | case4 state word c next rest _ _ ih => grind
  | case5 state word c next rest _ _ ih => grind

theorem mem_mixedWords {name w : List Char} (isWord : w ∈ mixedWords name) : ∀ c ∈ w, isAlphanumeric c = true := by
  intro c member
  obtain ⟨piece, isPiece, fromPiece⟩ := List.mem_flatMap.1 isWord
  have inPiece := (mem_wordsFrom .none [] piece w fromPiece c member).resolve_left List.not_mem_nil
  simpa using mem_splitBy name piece isPiece c inPiece

theorem forall_mem_lowerWord {P : Char → Prop} (sigma : P 'ς') (w : List Char)
    (lowered : ∀ c ∈ w, ∀ d ∈ lowerChars c, P d) : ∀ d ∈ lowerWord w, P d := by
  fun_induction lowerWord w with
  | case1 => simp
  | case2 c isSigma => exact List.forall_mem_singleton.2 sigma
  | case3 c _ => exact lowered c List.mem_cons_self
  | case4 c rest _ ih =>
    obtain ⟨first, others⟩ := List.forall_mem_cons.1 lowered
    exact List.forall_mem_append.2 ⟨first, ih others⟩

theorem lowerWord_fillers (w : List Char) (letters : ∀ c ∈ w, isAlphanumeric c = true) :
    ∀ d ∈ lowerWord w, isFiller d = false :=
  forall_mem_lowerWord (by decide +kernel) w fun c member => lowerChars_fillers (letters c member)

theorem capitalizeWord_fillers (w : List Char) (letters : ∀ c ∈ w, isAlphanumeric c = true) :
    ∀ d ∈ capitalizeWord w, isFiller d = false := by
  cases w with
  | nil => simp [capitalizeWord]
  | cons c rest =>
    obtain ⟨first, others⟩ := List.forall_mem_cons.1 letters
    exact List.forall_mem_append.2 ⟨upperChars_fillers first, lowerWord_fillers rest others⟩

/-- Words that each start with a raised character do not start with a small letter together. -/
theorem raised_head {f : List Char → List Char} (empty : f [] = [])
    (raises : ∀ c rest, ∃ more, f (c :: rest) = upperChars c ++ more) (words : List (List Char)) :
    ∀ d, (words.flatMap f).head? = some d → smallLetters.contains d.toNat = false := by
  induction words with
  | nil => simp
  | cons w rest ih =>
    intro d isHead
    cases w with
    | nil =>
      rw [List.flatMap_cons, empty] at isHead
      exact ih d isHead
    | cons c others =>
      -- The first character of the word gives at least one, and that one is the head.
      have notEmpty := upperChars_ne_nil c
      obtain ⟨first, more, raised⟩ := List.exists_cons_of_ne_nil notEmpty
      obtain ⟨lowered, starts⟩ := raises c others
      have isFirst : first = d := by simpa [starts, raised] using isHead
      exact upperChars_capital c d (by simp [raised, isFirst])

/-! ## Names of Rust items -/

/-- Whether a name does not start with a small letter. -/
def IsCapital (name : String) : Prop :=
  ∀ c, name.toList.head? = some c → smallLetters.contains c.toNat = false

theorem IsCapital.append {a b : String} (first : IsCapital a) (second : IsCapital b) : IsCapital (a ++ b) := by
  intro c isHead
  rw [String.toList_append, List.head?_append] at isHead
  cases own : a.toList.head? with
  | none =>
    rw [own] at isHead
    exact second c isHead
  | some c' =>
    rw [own] at isHead
    cases isHead
    exact first c own

/-- A name without colons and white space that does not start with a small letter. -/
structure Spelled (name : String) : Prop where
  chars : ∀ c ∈ name.toList, isFiller c = false
  capital : IsCapital name

theorem Spelled.append {a b : String} (first : Spelled a) (second : Spelled b) : Spelled (a ++ b) where
  chars := by
    rw [String.toList_append]
    exact List.forall_mem_append.2 ⟨first.chars, second.chars⟩
  capital := first.capital.append second.capital

theorem Spelled.of_checks {name : String} (chars : name.toList.all (!isFiller ·) = true)
    (capital : name.toList.head?.all (!smallLetters.contains ·.toNat) = true) : Spelled name where
  chars := by simpa using chars
  capital := by
    intro c isHead
    simpa [isHead] using capital

/-- A name like that has no mark of a raw identifier. -/
theorem Spelled.ne_raw {name : String} (spelled : Spelled name) (rest : List Char) : name.toList ≠ 'r' :: rest := by
  intro isRaw
  have capital := spelled.capital 'r' (by rw [isRaw]; rfl)
  exact absurd capital (by decide)

theorem upperCamel_spelled (name : String) : Spelled (upperCamel name) where
  chars := by
    intro c member
    rw [upperCamel, String.toList_ofList] at member
    obtain ⟨w, isWord, inWord⟩ := List.mem_flatMap.1 member
    exact capitalizeWord_fillers w (mem_mixedWords isWord) c inWord
  capital := by
    rw [IsCapital, upperCamel, String.toList_ofList]
    exact raised_head rfl (fun c rest => ⟨lowerWord rest, rfl⟩) _

theorem forall_mem_snake {P : Char → Prop} (sigma : P 'ς') (between : P '_')
    (lowered : ∀ c, isAlphanumeric c = true → ∀ d ∈ lowerChars c, P d) (name : String) :
    ∀ c ∈ (snake name).toList, P c := by
  rw [snake, String.toList_ofList]
  refine forall_mem_joinWith (List.forall_mem_singleton.2 between) _ fun piece isPiece => ?_
  obtain ⟨w, isWord, rfl⟩ := List.mem_map.1 isPiece
  exact forall_mem_lowerWord sigma w fun c member => lowered c (mem_mixedWords isWord c member)

theorem snake_fillers (name : String) : ∀ c ∈ (snake name).toList, isFiller c = false :=
  forall_mem_snake (by decide +kernel) (by decide +kernel) (fun _ => lowerChars_fillers) name

theorem escapeReserved_spelled {name : String} (spelled : Spelled name) : Spelled (escapeReserved name) := by
  unfold escapeReserved
  split
  · exact spelled.append (.of_checks (by decide +kernel) (by decide +kernel))
  · rename_i notPath
    split
    · rename_i reserved
      -- All other reserved words start with a small letter.
      have small : reservedWords.all (fun word => pathWords.contains word ||
          word.toList.head?.any (smallLetters.contains ·.toNat)) = true := by
        decide +kernel
      have here := List.all_eq_true.1 small name (List.contains_iff_mem.1 reserved)
      rw [Bool.or_eq_true, or_iff_right notPath] at here
      cases isHead : name.toList.head? with
      | none => simp [isHead] at here
      | some c => simp [isHead, spelled.capital c isHead] at here
    · exact spelled

theorem dropRaw_eq {name : String} (spelled : Spelled name) : dropRaw name.toList = name.toList := by
  unfold dropRaw
  split
  · rename_i rest isRaw
    exact absurd isRaw (spelled.ne_raw _)
  · rfl

theorem className_spelled (name : String) : Spelled (Scheme.rust.className name) :=
  escapeReserved_spelled (upperCamel_spelled name)

theorem inlineName_some (parent name : String) :
    Scheme.rust.inlineName (some parent) name = parent ++ Scheme.rust.className name := by
  have own := className_spelled name
  simp only [Scheme.rust] at own ⊢
  rw [dropRaw_eq own, String.ofList_toList]

/-- Inline types of one name are told apart by what is around them. -/
theorem inlineName_some_eq_iff (parent : String) (owner : Option String) (name : String) :
    Scheme.rust.inlineName (some parent) name = Scheme.rust.inlineName owner name ↔ parent = owner.getD "" := by
  have cancel : ∀ other : String, parent ++ Scheme.rust.className name = other ++ Scheme.rust.className name ↔
      parent = other := by
    intro other
    rw [← String.toList_inj, String.toList_append, String.toList_append, List.append_left_inj, String.toList_inj]
  cases owner with
  | none =>
    have alone : Scheme.rust.inlineName none name = "" ++ Scheme.rust.className name := by
      rw [String.empty_append]
      rfl
    rw [inlineName_some, alone, cancel]
    rfl
  | some other =>
    rw [inlineName_some, inlineName_some, cancel]
    rfl

theorem inlineName_spelled (owner : Option String) (spelled : ∀ name ∈ owner, Spelled name)
    (name : String) : Spelled (Scheme.rust.inlineName owner name) := by
  cases owner with
  | none => exact className_spelled name
  | some parent =>
    rw [inlineName_some]
    exact (spelled parent rfl).append (className_spelled name)

end YangStubs.Naming
