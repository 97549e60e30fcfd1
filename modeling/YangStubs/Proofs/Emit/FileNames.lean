import YangStubs.Emit.Format
import YangStubs.Proofs.Naming.Spelling
import Mathlib.Data.List.Forall2

/-! # Names of files

Stubs are written to a file that is named after the module, with an underscore in the place of every separator.
Other stubs import from a module under its name in snake case.  The two are not always the same, and two modules
do not always get two files.
-/

namespace YangStubs.Emit

open YangStubs.Naming
open YangStubs.Text

/-! ## Names of modules -/

/-- Whether a character separates words in the name of a module. -/
def isSeparator (c : Char) : Bool :=
  c == '-' || c == '.' || c == '_'

/-- Whether a text is an identifier of a schema: a letter or an underscore, then letters, digits and
    separators. -/
def isSchemaIdentifier : List Char → Bool
  | [] => false
  | c :: rest => (c == '_' || c.isAlpha) && rest.all fun d => d.isAlphanum || isSeparator d

/-- Whether what follows consists of words without capitals, with one separator between neighbours.  Where a word
    has to begin, neither a separator nor the end may come. -/
def isTidyFrom (atStart : Bool) : List Char → Bool
  | [] => !atStart
  | c :: rest =>
    if isSeparator c then !atStart && isTidyFrom true rest else !c.isUpper && isTidyFrom false rest

/-- Whether a name consists of words without capitals, with one separator between neighbours. -/
def isTidy (name : String) : Bool :=
  isTidyFrom true name.toList

/-- A name with an underscore in the place of every separator. -/
def underscored (name : List Char) : List Char :=
  name.map fun c => if isSeparator c then '_' else c

theorem fileName_rust (name : String) :
    Format.rust.fileName name = String.ofList (underscored name.toList) ++ ".rs" := by
  have same : replaceChar '.' '_' (replaceChar '-' '_' name.toList) = underscored name.toList := by
    simp only [replaceChar, underscored, List.map_map]
    refine List.map_congr_left fun c _ => ?_
    by_cases dash : c = '-'
    · simp [dash, isSeparator]
    · by_cases under : c = '_'
      · simp [under, isSeparator]
      · by_cases dot : c = '.' <;> simp [dash, dot, under, isSeparator]
  rw [Format.fileName, same]

/-! ## Snake case of small letters -/

theorem isSchemaIdentifier_chars {name : List Char} (valid : isSchemaIdentifier name = true) :
    name ≠ [] ∧ ∀ c ∈ name, c.isAlphanum = true ∨ isSeparator c = true := by
  cases name with
  | nil => cases valid
  | cons c rest =>
    simp only [isSchemaIdentifier, Bool.and_eq_true, Bool.or_eq_true, beq_iff_eq, List.all_eq_true] at valid
    refine ⟨List.cons_ne_nil _ _, List.forall_mem_cons.2 ⟨?_, valid.2⟩⟩
    rcases valid.1 with rfl | isLetter
    · exact .inr rfl
    · exact .inl (by simp [Char.isAlphanum, isLetter])

section Ascii

variable {name : List Char} (valid : isSchemaIdentifier name = true)
include valid

theorem ascii_of_valid : ∀ c ∈ name, c.toNat < 128 := by
  intro c member
  rcases (isSchemaIdentifier_chars valid).2 c member with isLetter | separates
  · exact isAlphanum_ascii isLetter
  · simp only [isSeparator, Bool.or_eq_true, beq_iff_eq] at separates
    rcases separates with (rfl | rfl) | rfl <;> decide

/-- What cuts a name into pieces are its separators. -/
theorem splitBy_valid : splitBy (!isAlphanumeric ·) name = splitBy isSeparator name := by
  refine splitBy_congr fun c member => ?_
  have disjoint : ∀ n : Fin 128, (!((Char.ofNat n).isAlphanum && isSeparator (Char.ofNat n))) = true := by decide
  have ascii := ascii_of_valid valid c member
  have apart := forall_ascii (p := fun c => !(c.isAlphanum && isSeparator c)) disjoint ascii
  rw [isAlphanumeric, if_pos ascii]
  rcases (isSchemaIdentifier_chars valid).2 c member with isLetter | separates <;> simp_all

end Ascii

/-- Without capitals, a piece is one word. -/
theorem wordsFrom_small (state : WordCase) (word cs : List Char) (open' : state ≠ .upper)
    (small : ∀ c ∈ cs, isUpper c = false) (some : cs ≠ []) :
    wordsFrom state word cs = [word.reverse ++ cs] := by
  fun_induction wordsFrom state word cs with
  | case1 => exact absurd rfl some
  | case2 state word c => simp
  | case3 state word c next rest ends => simp_all
  | case4 state word c next rest _ ends => simp_all
  | case5 state word c next rest _ _ ih =>
    obtain ⟨first, others⟩ := List.forall_mem_cons.1 small
    have stays : state.after c ≠ .upper := by
      rw [WordCase.after, first]
      split
      · exact WordCase.noConfusion
      · exact open'
    rw [ih stays others (List.cons_ne_nil _ _)]
    simp

theorem mixedWords_small {name : List Char} (small : ∀ c ∈ name, isUpper c = false) :
    mixedWords name = (splitBy (!isAlphanumeric ·) name).filter (!·.isEmpty) := by
  have pieces : ∀ l : List (List Char), (∀ piece ∈ l, ∀ c ∈ piece, isUpper c = false) →
      l.flatMap (wordsFrom .none []) = l.filter (!·.isEmpty) := by
    intro l each
    induction l with
    | nil => rfl
    | cons piece rest ih =>
      obtain ⟨first, others⟩ := List.forall_mem_cons.1 each
      rw [List.flatMap_cons, ih others]
      cases piece with
      | nil => rfl
      | cons c more => rw [wordsFrom_small .none [] _ WordCase.noConfusion first (List.cons_ne_nil _ _)]; rfl
  exact pieces _ fun piece isPiece c member => small c (mem_of_mem_splitBy piece isPiece c member)

theorem lowerWord_ascii (w : List Char) (ascii : ∀ c ∈ w, c.toNat < 128) : lowerWord w = w.map Char.toLower := by
  fun_induction lowerWord w with
  | case1 => rfl
  | case2 c isSigma =>
    rw [beq_iff_eq.1 isSigma] at ascii
    exact absurd (ascii 'Σ' List.mem_cons_self) (by decide)
  | case3 c _ =>
    rw [lowerChars, if_pos (ascii c List.mem_cons_self)]
    rfl
  | case4 c rest _ ih =>
    obtain ⟨first, others⟩ := List.forall_mem_cons.1 ascii
    rw [ih others, lowerChars, if_pos first]
    rfl

/-! ## Segments of import paths -/

/-- A name is tidy if it has no capitals and no piece of it is empty; if a word has begun already, the first
    piece does not count. -/
theorem isTidyFrom_iff (atStart : Bool) (name : List Char) :
    isTidyFrom atStart name = true ↔ (∀ c ∈ name, c.isUpper = false) ∧
      ∀ piece ∈ (splitBy isSeparator name).drop (if atStart then 0 else 1), piece ≠ [] := by
  induction name generalizing atStart with
  | nil => cases atStart <;> simp [isTidyFrom, splitBy]
  | cons c rest ih =>
    cases separates : isSeparator c with
    | true =>
      have small : c.isUpper = false := by
        simp only [isSeparator, Bool.or_eq_true, beq_iff_eq] at separates
        rcases separates with (rfl | rfl) | rfl <;> rfl
      rw [isTidyFrom, if_pos separates, splitBy_cons_of_sep separates, Bool.and_eq_true, ih]
      cases atStart <;> simp [small]
    | false =>
      obtain ⟨piece, pieces, isSplit, whole⟩ := splitBy_cons_of_free separates rest
      rw [isTidyFrom, separates, whole]
      simp only [Bool.false_eq_true, if_false, Bool.and_eq_true, ih, isSplit]
      cases atStart <;> simp [and_assoc]

section Segments

variable {name : String} (valid : isSchemaIdentifier name.toList = true)
include valid

/-- Whatever the name, there are no capitals in snake case. -/
theorem snake_small : ∀ c ∈ (snake name).toList, c.isUpper = false := by
  intro c member
  have ascii := ascii_of_valid valid
  rw [snake, String.toList_ofList] at member
  have lowered : ∀ w ∈ (mixedWords name.toList).map lowerWord, ∀ c ∈ w, c.isUpper = false := by
    intro w isWord c member
    obtain ⟨own, isOwn, rfl⟩ := List.mem_map.1 isWord
    obtain ⟨piece, isPiece, fromPiece⟩ := List.mem_flatMap.1 isOwn
    have ownAscii : ∀ d ∈ own, d.toNat < 128 := by
      intro d inOwn
      have inPiece := (mem_wordsFrom .none [] piece own fromPiece d inOwn).resolve_left List.not_mem_nil
      exact ascii d (mem_of_mem_splitBy piece isPiece d inPiece)
    rw [lowerWord_ascii own ownAscii] at member
    obtain ⟨d, inOwn, rfl⟩ := List.mem_map.1 member
    have all : ∀ n : Fin 128, (!(Char.ofNat n).toLower.isUpper) = true := by decide
    have here := forall_ascii (p := fun d => !d.toLower.isUpper) all (ownAscii d inOwn)
    simp only [Bool.not_eq_true'] at here
    exact here
  have between : '_'.isUpper = false := by decide
  exact forall_mem_joinWith (List.forall_mem_singleton.2 between) _ lowered c member

/-- A name without capitals is joined from its pieces in snake case, but empty pieces get lost. -/
theorem snake_of_small (small : ∀ c ∈ name.toList, c.isUpper = false) :
    (snake name).toList = joinWith ['_'] ((splitBy isSeparator name.toList).filter (!·.isEmpty)) := by
  have ascii := ascii_of_valid valid
  have small' : ∀ c ∈ name.toList, isUpper c = false := by
    intro c member
    rw [isUpper, if_pos (ascii c member)]
    exact small c member
  rw [snake, String.toList_ofList, mixedWords_small small', splitBy_valid valid]
  -- The pieces that are left are lowered already.
  have lowered : ∀ piece ∈ (splitBy isSeparator name.toList).filter (!·.isEmpty), lowerWord piece = piece := by
    intro piece isPiece
    have inName := mem_of_mem_splitBy piece (List.mem_filter.1 isPiece).1
    rw [lowerWord_ascii piece fun c member => ascii c (inName c member)]
    refine (List.map_congr_left fun c member => ?_).trans (List.map_id piece)
    have all : ∀ n : Fin 128, ((Char.ofNat n).isUpper || (Char.ofNat n).toLower == Char.ofNat n) = true := by decide
    have here := forall_ascii (p := fun c => c.isUpper || c.toLower == c) all (ascii c (inName c member))
    simpa [small c (inName c member)] using here
  rw [List.map_congr_left lowered, List.map_id']

/-- Snake case is what a file is named after exactly if the name is tidy. -/
theorem snake_eq_underscored_iff : (snake name).toList = underscored name.toList ↔ isTidy name = true := by
  have notEmpty := (isSchemaIdentifier_chars valid).1
  have joined : joinWith ['_'] (splitBy isSeparator name.toList) = underscored name.toList :=
    joinWith_splitBy '_' name.toList
  rw [isTidy, isTidyFrom_iff]
  constructor
  · intro same
    have small : ∀ c ∈ name.toList, c.isUpper = false := by
      intro c member
      cases separates : isSeparator c with
      | true =>
        simp only [isSeparator, Bool.or_eq_true, beq_iff_eq] at separates
        rcases separates with (rfl | rfl) | rfl <;> rfl
      | false =>
        refine snake_small valid c ?_
        rw [same, underscored, List.mem_map]
        exact ⟨c, member, by simp [separates]⟩
    refine ⟨small, fun piece isPiece => ?_⟩
    rw [snake_of_small valid small, ← joined] at same
    have free : ∀ piece ∈ splitBy isSeparator name.toList, ∀ c ∈ piece, (c == '_') = false := by
      intro piece isPiece c member
      have separates := mem_splitBy name.toList piece isPiece c member
      simp only [isSeparator, Bool.or_eq_false_iff] at separates
      exact separates.2
    -- Cutting both sides at the underscores gives the pieces, with and without the empty ones.
    have cut := congrArg (splitBy (· == '_')) same
    rw [splitBy_joinWith rfl (splitBy_ne_nil _) free, splitBy_joinWith rfl ?_ fun piece isPiece =>
      free piece (List.mem_filter.1 isPiece).1] at cut
    · rw [← cut] at isPiece
      simpa using (List.mem_filter.1 isPiece).2
    · intro none
      rw [none, joined] at same
      exact notEmpty (List.map_eq_nil_iff.1 same.symm)
  · rintro ⟨small, filled⟩
    rw [snake_of_small valid small, ← joined, List.filter_eq_self.2]
    intro piece isPiece
    simpa using filled piece isPiece

end Segments

/-- Stubs are imported from a segment that their file is named after exactly if the name of the module is
    tidy. -/
theorem fileName_eq_segment_iff (name className : String) (valid : isSchemaIdentifier name.toList = true) :
    ∃ segment, Scheme.rust.importPath name className = "super::" ++ segment ++ "::" ++ className ∧
      (Format.rust.fileName name = segment ++ ".rs" ↔ isTidy name = true) := by
  refine ⟨snake name, rfl, ?_⟩
  rw [← snake_eq_underscored_iff valid, fileName_rust, ← String.toList_inj, String.toList_append,
    String.toList_append, List.append_cancel_right_eq, String.toList_ofList, eq_comm]

/-- A capital is kept in the name of the file but not in the segment. -/
theorem fileName_eq_segment_iff_capital :
    isSchemaIdentifier "Types".toList = true ∧
      ∃ segment, Scheme.rust.importPath "Types" "Counter" = "super::" ++ segment ++ "::" ++ "Counter" ∧
        Format.rust.fileName "Types" ≠ segment ++ ".rs" := by
  have valid : isSchemaIdentifier "Types".toList = true := by decide
  obtain ⟨segment, isSegment, named⟩ := fileName_eq_segment_iff "Types" "Counter" valid
  have untidy : isTidy "Types" ≠ true := by decide
  exact ⟨valid, segment, isSegment, fun same => untidy (named.1 same)⟩

/-! ## Modules with one file name -/

/-- Whether two names differ at most in which separators they have. -/
def Resembles (a b : String) : Prop :=
  List.Forall₂ (fun c d => c = d ∨ isSeparator c = true ∧ isSeparator d = true) a.toList b.toList

theorem fileName_rust_eq_iff {a b : String} : Format.rust.fileName a = Format.rust.fileName b ↔ Resembles a b := by
  have cut : Format.rust.fileName a = Format.rust.fileName b ↔ underscored a.toList = underscored b.toList := by
    simp only [fileName_rust, ← String.toList_inj, String.toList_append, String.toList_ofList,
      List.append_cancel_right_eq]
  rw [cut, Resembles, ← List.forall₂_eq_eq_eq, underscored, underscored, List.forall₂_map_left_iff,
    List.forall₂_map_right_iff]
  have pointwise : ∀ c d : Char, ((if isSeparator c then '_' else c) = if isSeparator d then '_' else d) ↔
      (c = d ∨ isSeparator c = true ∧ isSeparator d = true) := by
    intro c d
    have isUnder : isSeparator '_' = true := rfl
    cases separates : isSeparator c <;> cases separates' : isSeparator d <;> grind
  simp only [pointwise]

theorem fileName_tree_eq_iff {a b : String} : Format.tree.fileName a = Format.tree.fileName b ↔ a = b := by
  simp only [Format.fileName, ← String.toList_inj, String.toList_append, List.append_cancel_right_eq]

end YangStubs.Emit
