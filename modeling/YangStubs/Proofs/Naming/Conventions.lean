import Mathlib.Data.List.Forall2
import Mathlib.Data.String.Basic
import Mathlib.Tactic.MkIffOfInductiveProp
import YangStubs.Proofs.Naming.Spelling

/-! # Cutting names and putting them together

Camel and Pascal case cut a name before its upper-case characters, and nowhere else.  The words are the slices between
the offsets that a scan of the name collects.  Every convention reads back the words that it has put together, as long
as these are of small letters and digits.
-/

namespace YangStubs.Naming

open String (utf8Len utf8Len_append utf8Len_cons utf8Len_nil)
open String.Pos (Raw)
open YangStubs.Text

/-! ## Cutting before capitals -/

/-- Words as they are cut: an upper-case character starts every one but the first, and stands nowhere else. -/
@[mk_iff]
structure CutBeforeUpper (words : List (List Char)) : Prop where
  filled : ∀ w ∈ words, w ≠ []
  starts : ∀ w ∈ words.tail, w.head?.any isUpper = true
  inside : ∀ w ∈ words, ∀ c ∈ w.tail, isUpper c = false

theorem splitBeforeUpper_cut (cs : List Char) :
    (splitBeforeUpper cs).flatten = cs ∧ CutBeforeUpper (splitBeforeUpper cs) := by
  simp only [cutBeforeUpper_iff]
  fun_induction splitBeforeUpper cs with
  | case1 => simp
  | case2 c => simp
  | case3 c d rest none ih => simp [none] at ih
  | case4 c d rest word words isSplit isCapital ih =>
    cases word <;> simp_all
    exact ih.2.2.2.2
  | case5 c d rest word words isSplit notCapital ih =>
    cases word <;> simp_all
    exact ih.2.2.2.2

/-- A word ends where an upper-case character follows it. -/
theorem splitBeforeUpper_append {after : List Char} (starts : after.head?.all isUpper = true) (more : List Char)
    (inside : ∀ d ∈ more, isUpper d = false) (c : Char) :
    splitBeforeUpper (c :: more ++ after) = (c :: more) :: splitBeforeUpper after := by
  induction more generalizing c with
  | nil =>
    cases after with
    | nil => rfl
    | cons d rest =>
      have whole := (splitBeforeUpper_cut (d :: rest)).1
      simp only [List.cons_append, List.nil_append, splitBeforeUpper]
      split <;> simp_all
  | cons d more ih =>
    have rest := ih (List.forall_mem_cons.1 inside).2 d
    simp_all [splitBeforeUpper]

/-- There is no other way to cut. -/
theorem splitBeforeUpper_flatten {words : List (List Char)} (cut : CutBeforeUpper words) :
    splitBeforeUpper words.flatten = words := by
  rw [cutBeforeUpper_iff] at cut
  induction words with
  | nil => rfl
  | cons w rest ih =>
    obtain ⟨c, more, rfl⟩ := List.exists_cons_of_ne_nil (cut.1 w List.mem_cons_self)
    have next : rest.flatten.head?.all isUpper = true := by rcases rest with _ | ⟨_ | _, _⟩ <;> simp_all
    have others := ih ⟨(List.forall_mem_cons.1 cut.1).2, fun w later => cut.2.1 w (List.mem_of_mem_tail later),
      (List.forall_mem_cons.1 cut.2.2).2⟩
    rw [List.flatten_cons, splitBeforeUpper_append next more (cut.2.2 _ List.mem_cons_self) c, others]

/-! ## Cutting at offsets -/

/-- Characters with the offsets at which they start. -/
def indexed (offset : Raw) : List Char → List (Raw × Char)
  | [] => []
  | c :: rest => (offset, c) :: indexed (offset + c) rest

/-- Where the words of a name start and end, given where the current one starts and the characters to come. -/
def offsetsFrom (name : String) (start : Raw) : List (Raw × Char) → List (Raw × Raw)
  | [] => if start < name.rawEndPos then [(start, name.rawEndPos)] else []
  | (offset, c) :: rest =>
    if isUpper c then (start, offset) :: offsetsFrom name offset rest else offsetsFrom name start rest

/-- The first character of a name ends no word, whatever it is. -/
def wordOffsets (name : String) : List (Raw × Raw) :=
  offsetsFrom name 0 ((indexed 0 name.toList).drop 1)

/-- What stands between two offsets.  There is nothing if one of them is inside of a character. -/
def slice? (name : String) (range : Raw × Raw) : Option String :=
  if range.1 ≤ range.2 ∧ range.1.isValid name ∧ range.2.isValid name then some (range.1.extract name range.2) else none

theorem slice?_eq {name : String} {before word after : List Char} (isName : name.toList = before ++ word ++ after) :
    slice? name (⟨utf8Len before⟩, ⟨utf8Len (before ++ word)⟩) = some (String.ofList word) := by
  have valid : ∀ left right : List Char, name.toList = left ++ right → Raw.isValid name ⟨utf8Len left⟩ = true := by
    intro left right isCut
    rw [Raw.isValid_eq_true_iff, Raw.isValid_iff_exists_append]
    exact ⟨.ofList left, .ofList right, by rw [← String.ofList_append, ← isCut, String.ofList_toList],
      (String.rawEndPos_ofList left).symm⟩
  have ordered : (⟨utf8Len before⟩ : Raw) ≤ ⟨utf8Len (before ++ word)⟩ := by
    simp [Raw.le_iff, utf8Len_append]
  have found := String.extract_of_valid before word after
  rw [← isName, String.ofList_toList, ← utf8Len_append] at found
  rw [slice?, if_pos ⟨ordered, valid before _ (by rw [isName, List.append_assoc]), valid _ after isName⟩, found]

-- the invariant: `before` is cut already, and `c :: more` is the current word as far as it is known
theorem offsetsFrom_slices {name : String} (rest before : List Char) (c : Char) (more : List Char)
    (isName : name.toList = before ++ c :: more ++ rest) (inside : ∀ d ∈ more, isUpper d = false) :
    (offsetsFrom name ⟨utf8Len before⟩ (indexed ⟨utf8Len (before ++ c :: more)⟩ rest)).mapM (slice? name) =
      some ((splitBeforeUpper (c :: more ++ rest)).map String.ofList) := by
  induction rest generalizing before c more with
  | nil =>
    have ends : name.rawEndPos = ⟨utf8Len (before ++ c :: more)⟩ := by
      rw [← String.rawEndPos_ofList, ← List.append_nil (before ++ _), ← isName, String.ofList_toList]
    have filled : utf8Len before < utf8Len (before ++ c :: more) := by
      have := c.utf8Size_pos
      simp only [utf8Len_append, utf8Len_cons]
      omega
    rw [splitBeforeUpper_append rfl more inside, indexed, offsetsFrom, ends, if_pos (Raw.lt_iff.2 filled),
      List.mapM_cons, slice?_eq isName]
    rfl
  | cons d rest ih =>
    have next : (⟨utf8Len (before ++ c :: more)⟩ : Raw) + d = ⟨utf8Len (before ++ c :: more ++ [d])⟩ := by
      simp only [Raw.ext_iff, utf8Len_append, Raw.byteIdx_add_char, utf8Len_cons, utf8Len_nil]
      omega
    rw [indexed, offsetsFrom, next]
    cases isCapital : isUpper d with
    | true =>
      have others := ih (before ++ c :: more) d [] (by simpa using isName) (by simp)
      rw [splitBeforeUpper_append (by simpa) more inside, if_pos rfl, List.mapM_cons, slice?_eq isName, others]
      rfl
    | false =>
      have others := ih before c (more ++ [d]) (by simpa using isName)
        (by simpa [or_imp, forall_and, isCapital] using inside)
      simpa using others

theorem wordOffsets_slices (name : String) :
    (wordOffsets name).mapM (slice? name) = some ((splitBeforeUpper name.toList).map String.ofList) := by
  rw [wordOffsets]
  cases chars : name.toList with
  | nil =>
    rw [String.toList_eq_nil_iff.1 chars]
    rfl
  | cons c rest => exact offsetsFrom_slices rest [] c [] chars (by simp)

/-- A name and the words that it is cut into.  They are the slices at the offsets of the words, none of which fails. -/
structure CutInto (name : String) (words : List String) : Prop where
  whole : String.join words = name
  cut : CutBeforeUpper (words.map (·.toList))
  slices : (wordOffsets name).mapM (slice? name) = some words

/-- Camel and Pascal case cut a name into words that make up the name, at places between its characters. -/
theorem split_cutInto (name : String) :
    CutInto name (Convention.camel.split name) ∧ CutInto name (Convention.pascal.split name) := by
  obtain ⟨whole, cut⟩ := splitBeforeUpper_cut name.toList
  have cutInto : CutInto name ((splitBeforeUpper name.toList).map String.ofList) := by
    refine ⟨?_, ?_, wordOffsets_slices name⟩ <;> simp [String.join_eq, Function.comp_def, whole, cut]
  exact ⟨cutInto, cutInto⟩

/-! ## Plain words -/

/-- A small letter or a digit. -/
def isPlain (c : Char) : Bool :=
  c.isLower || c.isDigit

/-- A small letter, then small letters and digits. -/
def IsPlainWord (w : List Char) : Prop :=
  w.head?.any Char.isLower = true ∧ ∀ c ∈ w, isPlain c = true

theorem plain_char {c : Char} (plain : isPlain c = true) :
    (c ≠ 'Σ' ∧ lowerChars c = [c] ∧ upperChars c = [c.toUpper]) ∧
    (c.toUpper ≠ 'Σ' ∧ lowerChars c.toUpper = [c] ∧ upperChars c.toUpper = [c.toUpper]) ∧
    (c ≠ '-' ∧ c ≠ '.' ∧ c ≠ '_' ∧ c.toUpper ≠ '_') ∧
    isUpper c = false ∧ isUpper c.toUpper = c.isLower ∧ isAsciiDigit c.toUpper = !c.isLower := by
  have ascii : c.toNat < 128 := by
    apply isAlphanum_ascii
    delta Char.isAlphanum Char.isAlpha
    rcases Bool.or_eq_true_iff.1 plain with small | digit <;> simp [*]
  obtain ⟨n, rfl⟩ : ∃ n : Fin 128, c = Char.ofNat n := ⟨⟨c.toNat, ascii⟩, by simp⟩
  revert n
  decide +kernel

/-- A plain character, raised or not. -/
def IsCasing (c e : Char) : Prop :=
  isPlain c = true ∧ (e = c ∨ e = c.toUpper)

/-- What mappings of case make of a plain word, some letters of which may be raised. -/
theorem cased_of_forall₂ {w w' : List Char} (same : List.Forall₂ IsCasing w w') :
    lower w' = w ∧ upper w' = w.map Char.toUpper ∧ capitalize w' = w.modifyHead Char.toUpper := by
  have each : ∀ {c e : Char}, IsCasing c e → e ≠ 'Σ' ∧ lowerChars e = [c] ∧ upperChars e = [c.toUpper] := by
    rintro c e ⟨plain, rfl | rfl⟩
    · exact (plain_char plain).1
    · exact (plain_char plain).2.1
  have mapped : (∀ before, lowerAfter before w' = w) ∧ w'.flatMap lowerChars = w ∧
      w'.flatMap upperChars = w.map Char.toUpper := by
    induction same with
    | nil => simp [lowerAfter]
    | cons first _ ih => simp [lowerAfter, each first, ih]
  refine ⟨mapped.1 [], mapped.2.2, ?_⟩
  cases same with
  | nil => rfl
  | cons first _ => simpa [capitalize, each first] using mapped.2.1

theorem IsPlainWord.cased {w : List Char} (plain : IsPlainWord w) :
    lower w = w ∧ upper w = w.map Char.toUpper ∧ capitalize w = w.modifyHead Char.toUpper :=
  cased_of_forall₂ (List.forall₂_same.2 fun c member => ⟨plain.2 c member, .inl rfl⟩)

theorem IsPlainWord.casings {w : List Char} (plain : IsPlainWord w) :
    List.Forall₂ IsCasing w (lower w) ∧ List.Forall₂ IsCasing w (upper w) ∧ List.Forall₂ IsCasing w (capitalize w) := by
  have same : List.Forall₂ IsCasing w w := List.forall₂_same.2 fun c member => ⟨plain.2 c member, .inl rfl⟩
  rw [plain.cased.1, plain.cased.2.1, plain.cased.2.2]
  refine ⟨same, List.forall₂_map_right_iff.2 (List.forall₂_same.2 fun c member => ⟨plain.2 c member, .inr rfl⟩), ?_⟩
  cases same with
  | nil => exact .nil
  | cons first rest => exact .cons ⟨first.1, .inr rfl⟩ rest

/-- A plain word can be cut off from the next one if that is capitalized. -/
theorem IsPlainWord.cut {w : List Char} (plain : IsPlainWord w) : (w ≠ [] ∧ ∀ c ∈ w.tail, isUpper c = false) ∧
    capitalize w ≠ [] ∧ (capitalize w).head?.any isUpper = true ∧ ∀ c ∈ (capitalize w).tail, isUpper c = false := by
  rw [plain.cased.2.2]
  obtain ⟨small, each⟩ := plain
  cases w with
  | nil => cases small
  | cons c more =>
    have others : ∀ d ∈ more, isUpper d = false := fun d later =>
      (plain_char (each d (List.mem_cons_of_mem _ later))).2.2.2.1
    have first : isUpper c.toUpper = true := (plain_char (each c List.mem_cons_self)).2.2.2.2.1.trans small
    exact ⟨⟨List.cons_ne_nil _ _, others⟩, List.cons_ne_nil _ _, first, others⟩

/-! ## Reading names back -/

namespace Convention

section Words

variable {words : List (List Char)} (plain : ∀ w ∈ words, IsPlainWord w)
include plain

theorem map_lower : words.map lower = words :=
  (List.map_congr_left fun w member => (plain w member).cased.1).trans (List.map_id words)

theorem wordsBy_joinWith {sep : Char → Bool} {d : Char} (isSep : sep d = true) {f : List Char → List Char}
    (filled : words ≠ []) (free : ∀ w, IsPlainWord w → f w ≠ [] ∧ ∀ c ∈ f w, sep c = false) :
    wordsBy sep (joinWith [d] (words.map f)) = words.map f := by
  rw [wordsBy, splitBy_joinWith isSep (by simpa) (List.forall_mem_map.2 fun w member => (free w (plain w member)).2)]
  exact List.filter_eq_self.2 (List.forall_mem_map.2 fun w member => by simp [(free w (plain w member)).1])

theorem splitBeforeUpper_joined {first : List Char} (cut : first ≠ [] ∧ ∀ c ∈ first.tail, isUpper c = false) :
    splitBeforeUpper (first ++ words.flatMap capitalize) = first :: words.map capitalize := by
  have cutAll : CutBeforeUpper (first :: words.map capitalize) := by
    refine ⟨?_, ?_, ?_⟩
    · exact List.forall_mem_cons.2 ⟨cut.1, List.forall_mem_map.2 fun w member => (plain w member).cut.2.1⟩
    · exact List.forall_mem_map.2 fun w member => (plain w member).cut.2.2.1
    · exact List.forall_mem_cons.2 ⟨cut.2, List.forall_mem_map.2 fun w member => (plain w member).cut.2.2.2⟩
  exact splitBeforeUpper_flatten cutAll

/-- The words that are read from the name are those that it was made of, in some case. -/
theorem splitChars_joinChars (filled : words ≠ []) (convention : Convention) :
    List.Forall₂ (List.Forall₂ IsCasing) words (convention.splitChars (convention.joinChars words)) := by
  have mapped : ∀ {f : List Char → List Char} {l : List (List Char)}, (∀ w ∈ l, List.Forall₂ IsCasing w (f w)) →
      List.Forall₂ (List.Forall₂ IsCasing) l (l.map f) := fun each =>
    List.forall₂_map_right_iff.2 (List.forall₂_same.2 each)
  obtain ⟨first, rest, rfl⟩ := List.exists_cons_of_ne_nil filled
  obtain ⟨isFirst, isRest⟩ := List.forall_mem_cons.1 plain
  cases convention with
  | kebab =>
    have split : splitChars .kebab (joinChars .kebab (first :: rest)) = (first :: rest).map lower :=
      wordsBy_joinWith plain rfl filled fun w isPlain => by
        rw [isPlain.cased.1]
        exact ⟨isPlain.cut.1.1, fun c inside => by simp [plain_char (isPlain.2 c inside)]⟩
    rw [split]
    exact mapped fun w member => (plain w member).casings.1
  | screaming =>
    have split : splitChars .screaming (joinChars .screaming (first :: rest)) = (first :: rest).map upper :=
      wordsBy_joinWith plain rfl filled fun w isPlain => by
        rw [isPlain.cased.2.1]
        exact ⟨by simp [isPlain.cut.1.1], List.forall_mem_map.2 fun c inside => by simp [plain_char (isPlain.2 c inside)]⟩
    rw [split]
    exact mapped fun w member => (plain w member).casings.2.1
  | camel =>
    rw [joinChars, splitChars, isFirst.cased.1, splitBeforeUpper_joined isRest isFirst.cut.1]
    exact .cons (by simpa only [isFirst.cased.1] using isFirst.casings.1)
      (mapped fun w member => (isRest w member).casings.2.2)
  | pascal =>
    rw [joinChars, splitChars, List.flatMap_cons, splitBeforeUpper_joined isRest ⟨isFirst.cut.2.1, isFirst.cut.2.2.2⟩]
    exact mapped fun w member => (plain w member).casings.2.2

end Words

/-- The case of the words makes no difference to the names made of them. -/
theorem joinChars_casing {words found : List (List Char)} (cased : List.Forall₂ (List.Forall₂ IsCasing) words found)
    (plain : ∀ w ∈ words, IsPlainWord w) :
    found.map lower = words ∧ ∀ convention : Convention, convention.joinChars found = convention.joinChars words := by
  have each : ∀ f ∈ [lower, upper, capitalize], found.map f = words.map f := by
    induction cased with
    | nil => simp
    | cons first _ ih =>
      obtain ⟨isFirst, isRest⟩ := List.forall_mem_cons.1 plain
      simpa [cased_of_forall₂ first, isFirst.cased] using ih isRest
  simp only [List.forall_mem_cons, List.not_mem_nil, false_imp_iff, implies_true, and_true] at each
  refine ⟨each.1.trans (map_lower plain), fun convention => ?_⟩
  cases convention with
  | kebab => rw [joinChars, joinChars, each.1]
  | screaming => rw [joinChars, joinChars, each.2.1]
  | pascal => simp only [joinChars, List.flatMap, each]
  | camel =>
    cases cased with
    | nil => rfl
    | cons => simp_all [joinChars, List.flatMap]

end Convention

/-- Nothing is lost of words when they are made names. -/
structure IsLossless (words : List String) : Prop where
  readBack : ∀ convention : Convention,
    (convention.split (convention.join words)).map (fun w => String.ofList (lower w.toList)) = words
  /-- A name of the words in one convention becomes their name in the other. -/
  converts : ∀ source target : Convention, source.convert target (source.join words) = target.join words
  converted : ∀ source target : Convention,
    target.convert source (source.convert target (source.join words)) = source.join words
  /-- The names are not those of other words. -/
  apart : ∀ others ≠ [], (∀ w ∈ others, IsPlainWord w.toList) →
    ∀ give ∈ [Scheme.standard.className, Scheme.standard.variableName, Scheme.standard.variantName],
      give (joinTexts "-" words) = give (joinTexts "-" others) → joinTexts "-" words = joinTexts "-" others

section Names

variable {words : List String} (filled : words ≠ []) (plain : ∀ w ∈ words, IsPlainWord w.toList)
include filled plain

theorem split_join (convention : Convention) :
    (convention.split (convention.join words)).map (fun w => String.ofList (lower w.toList)) = words := by
  have cased := Convention.splitChars_joinChars (List.forall_mem_map.2 plain) (by simpa) convention
  have back := congrArg (List.map String.ofList) (Convention.joinChars_casing cased (List.forall_mem_map.2 plain)).1
  simpa [Convention.split, Convention.join, Function.comp_def] using back

theorem convert_join (source target : Convention) : source.convert target (source.join words) = target.join words := by
  have cased := Convention.splitChars_joinChars (List.forall_mem_map.2 plain) (by simpa) source
  rw [Convention.convert, Convention.join, String.toList_ofList,
    (Convention.joinChars_casing cased (List.forall_mem_map.2 plain)).2 target, Convention.join]

theorem standard_joinTexts : Scheme.standard.className (joinTexts "-" words) = Convention.pascal.join words ∧
    Scheme.standard.variableName (joinTexts "-" words) = Convention.camel.join words ∧
    Scheme.standard.variantName (joinTexts "-" words) = Convention.screaming.join words := by
  have hyphened : joinTexts "-" words = Convention.kebab.join words := by
    simp [Convention.join, Convention.joinChars, Convention.map_lower (List.forall_mem_map.2 plain), joinTexts]
  -- a name in capitals starts with a letter
  have unguarded : guardDigit (Convention.screaming.join words) = Convention.screaming.join words := by
    obtain ⟨first, rest, rfl⟩ := List.exists_cons_of_ne_nil filled
    have isFirst := plain first List.mem_cons_self
    have raised := isFirst.cased.2.1
    obtain ⟨small, each⟩ := isFirst
    cases chars : first.toList with
    | nil => simp [chars] at small
    | cons c more =>
      have letter := plain_char (each c (by simp [chars]))
      cases rest <;> simp_all [guardDigit, Convention.join, Convention.joinChars, joinWith]
  simp only [hyphened, Scheme.standard, Scheme.withClassName, convert_join filled plain, unguarded, and_self]

end Names

/-- Words of small letters and digits are not lost in any convention, nor in the standard scheme. -/
theorem plain_isLossless (words : List String) (filled : words ≠ [])
    (plain : ∀ w ∈ words, IsPlainWord w.toList) : IsLossless words := by
  refine ⟨split_join filled plain, convert_join filled plain, fun source target => ?_,
    fun others filled' plain' give isName same => ?_⟩
  · rw [convert_join filled plain, convert_join filled plain]
  · obtain ⟨isClass, isVariable, isVariant⟩ := standard_joinTexts filled plain
    obtain ⟨isClass', isVariable', isVariant'⟩ := standard_joinTexts filled' plain'
    have apart : ∀ convention : Convention, convention.join words = convention.join others → words = others :=
      fun convention joined => by
        rw [← split_join filled plain convention, joined, split_join filled' plain' convention]
    simp only [List.mem_cons, List.not_mem_nil, or_false] at isName
    rcases isName with rfl | rfl | rfl
    · rw [apart .pascal (isClass.symm.trans (same.trans isClass'))]
    · rw [apart .camel (isVariable.symm.trans (same.trans isVariable'))]
    · rw [apart .screaming (isVariant.symm.trans (same.trans isVariant'))]

theorem plain_isLossless_address : IsLossless ["ipv4", "address"] ∧
    Convention.camel.split (Convention.camel.join ["ipv4", "address"]) = ["ipv4", "Address"] :=
  ⟨plain_isLossless _ (by decide) (by simp only [IsPlainWord, ← List.all_eq_true]; decide +kernel), by decide +kernel⟩

end YangStubs.Naming
