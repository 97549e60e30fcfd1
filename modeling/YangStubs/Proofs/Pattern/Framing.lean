import Mathlib.Data.Option.Basic
import YangStubs.Backend.TypePattern

/-! # Patterns between anchors

A type pattern is read between `^(?:` and `)$`.  A text that is a pattern on its own is read there as it is alone
(`parse?_anchored`), unless a comment at its end takes the `)$` along, so that the whole is no pattern.  The whole
then matches somewhere in a text exactly if the pattern matches all of it (`matchesIn_framed`).
-/

namespace YangStubs.Pattern

open YangStubs.Text

/-- What is left of a text, and of the text with `)$` after it.  A comment can have taken the `)$` along. -/
inductive Left : List Char → List Char → Prop
  | close : Left [] [')', '$']
  | lost : Left [] []
  | cons (c : Char) {rest rest' : List Char} (left : Left rest rest') : Left (c :: rest) (c :: rest')

/-- If the short text is read, so is the long one, and they lead to related values. -/
inductive Extends {α : Type} (R : α → α → Prop) : Option (α × List Char) → Option (α × List Char) → Prop
  | none {long : Option (α × List Char)} : Extends R none long
  | some {a b : α} {rest rest' : List Char} (same : R a b) (left : Left rest rest') :
    Extends R (some (a, rest)) (some (b, rest'))

/-- What is read of a text does not depend on a `)$` after it. -/
def Local {α : Type} (read : List Char → Option (α × List Char)) : Prop :=
  ∀ {cs cs' : List Char}, Left cs cs' → Extends Eq (read cs) (read cs')

namespace Extends

variable {α β γ : Type} {R : β → β → Prop}

theorem bind {short long : Option (α × List Char)} {f f' : α × List Char → Option (β × List Char)}
    (first : Extends Eq short long)
    (next : ∀ {rest rest' : List Char} a, Left rest rest' → Extends R (f (a, rest)) (f' (a, rest'))) :
    Extends R (short.bind f) (long.bind f') := by
  cases first with
  | none => exact none
  | some same left => exact same ▸ next _ left

theorem same {x : Option γ} {f f' : γ → Option (β × List Char)} (next : ∀ a, Extends R (f a) (f' a)) :
    Extends R (x.bind f) (x.bind f') := by
  cases x with
  | none => exact none
  | some a => exact next a

@[simp] theorem some_iff {x y : β × List Char} :
    Extends R (Option.some x) (Option.some y) ↔ R x.1 y.1 ∧ Left x.2 y.2 :=
  ⟨fun h => by cases h; exact ⟨‹_›, ‹_›⟩, fun h => some h.1 h.2⟩

@[simp] theorem none_left {long : Option (β × List Char)} : Extends R Option.none long := none

end Extends

namespace Left

variable {cs cs' : List Char} (left : Left cs cs')
include left

theorem length_le : cs.length ≤ cs'.length := by
  induction left <;> simp_all

theorem dropWhile {p : Char → Bool} (same : p ')' = p '$') : Left (cs.dropWhile p) (cs'.dropWhile p) := by
  induction left with
  | close => cases h : p ')' <;> simp [← same, h, close, lost]
  | lost => exact lost
  | cons c left ih => cases h : p c <;> simp [h, ih, cons, left]

theorem takeWhile {p : Char → Bool} (stop : p ')' = false) : cs'.takeWhile p = cs.takeWhile p := by
  induction left with
  | close => simp [stop]
  | lost => rfl
  | cons c left ih => cases h : p c <;> simp [h, ih]

/-- A mark that is not in `)$` is found in both or in neither. -/
theorem cut (mark : Char) (other : mark ≠ ')' ∧ mark ≠ '$') :
    cs.dropWhile (· != mark) = [] ∧ cs'.dropWhile (· != mark) = [] ∨
      cs'.takeWhile (· != mark) = cs.takeWhile (· != mark) ∧ ∃ rest rest', cs.dropWhile (· != mark) = mark :: rest ∧
        cs'.dropWhile (· != mark) = mark :: rest' ∧ Left rest rest' := by
  induction left with
  | close => simp [other.1.symm, other.2.symm]
  | lost => simp
  | cons c left ih =>
    by_cases found : c = mark
    · simp [found, left]
    · simpa [found] using ih

theorem skipSpaceWithin (flags : Flags) {n n' : Nat} (long : cs.length ≤ n) (long' : cs'.length ≤ n') :
    Left (skipSpaceWithin flags n cs) (skipSpaceWithin flags n' cs') := by
  have nil {n : Nat} : Pattern.skipSpaceWithin flags n [] = [] := by cases n <;> simp [Pattern.skipSpaceWithin]
  have mark {n : Nat} : Pattern.skipSpaceWithin flags n [')', '$'] = [')', '$'] := by
    cases n <;> simp [Pattern.skipSpaceWithin, show isBlank ')' = false by decide]
  induction n generalizing n' cs cs' with
  | zero => cases left <;> simp_all [close, lost]
  | succ n ih =>
    cases left with
    | close => simp [nil, mark, close]
    | lost => simp [nil, lost]
    | cons c left =>
    cases n' with
    | zero => simp at long'
    | succ n' =>
    simp only [List.length_cons, Nat.add_le_add_iff_right] at long long'
    simp only [Pattern.skipSpaceWithin]
    split
    · split
      · exact ih left long long'
      · split
        · exact ih (left.dropWhile rfl) (Nat.le_trans (List.dropWhile_sublist _).length_le long)
            (Nat.le_trans (List.dropWhile_sublist _).length_le long')
        · exact .cons c left
    · exact .cons c left

theorem skipSpace (flags : Flags) : Left (skipSpace flags cs) (skipSpace flags cs') :=
  left.skipSpaceWithin flags (Nat.le_refl _) (Nat.le_refl _)

/-- After spaces, the short text is at its end or both go on with the same character. -/
theorem next (flags : Flags) : Pattern.skipSpace flags cs = [] ∨ ∃ c rest rest',
    Pattern.skipSpace flags cs = c :: rest ∧ Pattern.skipSpace flags cs' = c :: rest' ∧ Left rest rest' := by
  have left := left.skipSpace flags
  generalize Pattern.skipSpace flags cs = s at *
  generalize Pattern.skipSpace flags cs' = s' at *
  cases left with
  | close | lost => exact .inl rfl
  | cons c left => exact .inr ⟨c, _, _, rfl, rfl, left⟩

theorem skipLazy : Left (skipLazy cs) (skipLazy cs') := by
  cases left with
  | close => exact .close
  | lost => exact .lost
  | cons c left =>
    by_cases lazy : c = '?'
    · subst lazy
      exact left
    · simpa [Pattern.skipLazy, lazy] using .cons c left

end Left

section

variable (flags : Flags) {cs cs' : List Char}

/-! ## Escapes -/

theorem hexDigits?_local : ∀ n, Local (hexDigits? flags n)
  | 0, _, _, left => .some rfl left
  | _ + 1, _, _, .close => .none
  | _ + 1, _, _, .lost => .none
  | n + 1, _, _, .cons _ left =>
    .same fun _ => .bind (hexDigits?_local n (left.skipSpace flags)) fun _ left => .some rfl left

theorem braced?_extends {n n' : Nat} (left : Left cs cs') (le : n ≤ n') :
    Extends Eq (braced? flags n cs) (braced? flags n' cs') := by
  induction n generalizing n' cs cs' with
  | zero => exact .none
  | succ n ih =>
    obtain _ | n' := n'
    · cases le
    obtain h | ⟨c, rest, rest', h, h', left⟩ := left.next flags
    · simp only [braced?, h, Extends.none]
    by_cases isEnd : c = '\x7d' <;> simp only [braced?, h, h', isEnd, Option.map_eq_bind]
    · exact .some rfl left
    · exact .bind (ih left (Nat.le_of_succ_le_succ le)) fun _ left => .some rfl left

theorem braced?_local : Local fun cs => braced? flags (cs.length + 1) cs :=
  fun left => braced?_extends flags left (Nat.succ_le_succ left.length_le)

theorem hexEscape?_local (count : Nat) : Local (hexEscape? flags count) := by
  intro cs cs' left
  obtain h | ⟨c, rest, rest', h, h', left⟩ := left.next flags
  · simp only [hexEscape?, h, Extends.none]
  by_cases isBrace : c = '\x7b' <;> simp [hexEscape?, h, h', isBrace]
  · exact .bind (braced?_local flags left) fun _ left => .same fun _ => .some rfl left
  · exact .bind (hexDigits?_local flags count (.cons c left)) fun _ left => .same fun _ => .some rfl left

theorem propertyClass?_local : Local (propertyClass? flags) := by
  intro cs cs' left
  obtain h | ⟨c, rest, rest', h, h', left⟩ := left.next flags
  · simp only [propertyClass?, h, Extends.none]
  by_cases isEscape : c = '\\'
  · simp only [propertyClass?, h, isEscape, Extends.none]
  by_cases isBrace : c = '\x7b' <;> simp only [propertyClass?, h, h', isBrace, Option.map_eq_bind]
  · exact .bind (braced?_local flags left) fun _ left => .same fun _ => .some rfl left
  · exact .same fun _ => .some rfl (left.skipSpace flags)

theorem propertyEscape?_local (negated : Bool) : Local (propertyEscape? flags negated) :=
  fun left => .same fun _ => .bind (propertyClass?_local flags left) fun _ left => .some rfl left

theorem wordBoundary?_local : Local (wordBoundary? flags) := by
  intro cs cs' left
  cases left with
  | close | lost => exact .some rfl (by constructor)
  | cons c left =>
  by_cases isBrace : c = '\x7b' <;> simp [wordBoundary?, isBrace]
  · obtain h | ⟨d, _, _, h, h', -⟩ := left.next flags
    · simp only [h, Extends.none]
    simp only [h, h']
    split
    · refine .bind (braced?_local flags left) fun inner left => ?_
      dsimp only
      split <;> simp [left]
    · exact .some rfl (.cons _ left)
  · exact .cons c left

theorem escape?_local : Local (escape? flags) := by
  intro cs cs' left
  cases left with
  | close | lost => exact .none
  | cons c left =>
  have hex count := hexEscape?_local flags count left
  have property negated := propertyEscape?_local flags negated left
  have word := wordBoundary?_local flags left
  unfold escape?
  split <;> simp_all
  cases letterClass? flags _ with
  | some => simpa
  | none =>
    cases letterChar? _ with
    | some => simpa
    | none =>
      dsimp only
      split <;> simp [left]

/-! ## Bracketed classes -/

theorem length_skipSpaceWithin_le (n : Nat) (cs : List Char) : (skipSpaceWithin flags n cs).length ≤ cs.length := by
  fun_induction skipSpaceWithin flags n cs with grind [List.dropWhile_sublist, List.Sublist.length_le]

theorem leadingHyphens_left {n n' : Nat} (items : CharClass) (left : Left cs cs') (long : cs.length ≤ n)
    (long' : cs'.length ≤ n') :
    (leadingHyphens flags n items cs).1 = (leadingHyphens flags n' items cs').1 ∧
      Left (leadingHyphens flags n items cs).2 (leadingHyphens flags n' items cs').2 := by
  induction n generalizing n' items cs cs' with
  | zero => cases left <;> cases n' <;> simp_all [leadingHyphens, Left.close, Left.lost]
  | succ n ih =>
    cases left with
    | close | lost => cases n' <;> simp [leadingHyphens, Left.close, Left.lost]
    | cons c left =>
    cases n' with
    | zero => simp at long'
    | succ n' =>
    simp only [List.length_cons, Nat.add_le_add_iff_right] at long long'
    by_cases isHyphen : c = '-' <;> simp [leadingHyphens, isHyphen]
    · exact ih _ (left.skipSpace flags) (Nat.le_trans (length_skipSpaceWithin_le flags _ _) long)
        (Nat.le_trans (length_skipSpaceWithin_le flags _ _) long')
    · exact .cons c left

/-- A class after its bracket and the caret that may stand there. -/
def classStart (negated : Bool) : List Char → OpenClass × List Char
  | ']' :: rest => (⟨negated, none, .single ']'⟩, skipSpace flags rest)
  | cs =>
    let (items, rest) := leadingHyphens flags cs.length .empty cs
    (⟨negated, none, items⟩, rest)

theorem classStart_left (negated : Bool) (left : Left cs cs') :
    (classStart flags negated cs).1 = (classStart flags negated cs').1 ∧
      Left (classStart flags negated cs).2 (classStart flags negated cs').2 := by
  have hyphens := leadingHyphens_left flags .empty left (Nat.le_refl _) (Nat.le_refl _)
  cases left with
  | close | lost => simpa [classStart] using hyphens
  | cons c left =>
    by_cases isBracket : c = ']'
    · simpa [classStart, isBracket] using left.skipSpace flags
    · simpa [classStart, isBracket] using hyphens

theorem openClass_left (left : Left cs cs') :
    (openClass flags cs).1 = (openClass flags cs').1 ∧ Left (openClass flags cs).2 (openClass flags cs').2 := by
  have left := left.skipSpace flags
  unfold openClass
  generalize skipSpace flags cs = s at *
  generalize skipSpace flags cs' = s' at *
  cases left with
  | close => exact classStart_left flags false .close
  | lost => exact classStart_left flags false .lost
  | cons c left =>
    by_cases isCaret : c = '^'
    · subst isCaret
      exact classStart_left flags true (left.skipSpace flags)
    · simp [isCaret]
      exact classStart_left flags false (.cons c left)

/-- A class in colons is one in both texts or in neither. -/
theorem namedAscii?_left (left : Left cs cs') : namedAscii? cs = none ∧ namedAscii? cs' = none ∨
    ∃ chars rest rest', namedAscii? cs = some (chars, rest) ∧ namedAscii? cs' = some (chars, rest') ∧
      Left rest rest' := by
  have body {s s' : List Char} (left : Left s s') (f : CharClass → CharClass) :
      let read (s : List Char) : Option (CharClass × List Char) := do
        let chars ← CharClass.ascii? (String.ofList (s.takeWhile (· != ':')))
        let rest ← dropStart? [':', ']'] (s.dropWhile (· != ':'))
        return (f chars, rest)
      read s = none ∧ read s' = none ∨
        ∃ chars rest rest', read s = some (chars, rest) ∧ read s' = some (chars, rest') ∧ Left rest rest' := by
    obtain ⟨h, h'⟩ | ⟨same, rest, rest', h, h', left⟩ := left.cut ':' (by decide)
    · simp [h, h', dropStart?]
    simp only [h, h', same]
    cases left with
    | close | lost => simp [dropStart?]
    | cons c left =>
      cases CharClass.ascii? _ with
      | none => simp
      | some chars =>
        by_cases isEnd : ']' = c
        · subst isEnd
          exact .inr ⟨_, _, _, rfl, rfl, left⟩
        · simp [dropStart?, isEnd]
  cases left with
  | close | lost => simp [namedAscii?, dropStart?]
  | cons c left =>
    by_cases isColon : ':' = c
    · subst isColon
      cases left with
      | close => exact body .close id
      | lost => exact body .lost id
      | cons c left =>
        by_cases isCaret : c = '^'
        · subst isCaret
          exact body left .compl
        · simpa [namedAscii?, dropStart?, isCaret] using body (.cons c left) id
    · simp [namedAscii?, dropStart?, isColon]

theorem classPrimitive?_local : Local (classPrimitive? flags) := by
  intro cs cs' left
  cases left with
  | close | lost => exact .none
  | cons c left =>
    by_cases isEscape : c = '\\' <;> simp [classPrimitive?, isEscape]
    · exact escape?_local flags left
    · exact left

theorem setItem?_local : Local (setItem? flags) := by
  intro cs cs' left
  refine .bind (classPrimitive?_local flags left) fun first left => ?_
  obtain h | ⟨c, _, _, h, h', after⟩ := left.next flags
  · simp [h]
  by_cases isHyphen : c = '-' <;> simp [h, h', isHyphen]
  · obtain h | ⟨d, _, _, h, h', left⟩ := after.next flags
    · simp [h]
    by_cases isEnd : d = ']' ∨ d = '-'
    · obtain rfl | rfl := isEnd <;> simp [h, h']
      all_goals exact .same fun _ => .some rfl (.cons _ after)
    · rw [not_or] at isEnd
      simp [h, h', isEnd]
      refine .bind (classPrimitive?_local flags (.cons d left)) fun last left => ?_
      cases first <;> cases last <;> try exact .none
      exact .same fun _ => .same fun _ => .some rfl left
  · exact .same fun _ => .some rfl (.cons _ after)

theorem classWithin?_extends {n n' : Nat} {c : OpenClass} {outer : List OpenClass} (left : Left cs cs') (le : n ≤ n') :
    Extends Eq (classWithin? flags n c outer cs) (classWithin? flags n' c outer cs') := by
  induction n generalizing n' c outer cs cs' with
  | zero => exact .none
  | succ n ih =>
    obtain _ | n' := n'
    · cases le
    replace le := Nat.le_of_succ_le_succ le
    obtain h | ⟨d, rest, rest', h, h', left⟩ := left.next flags
    · simp only [classWithin?, h, Extends.none]
    have item := setItem?_local flags (.cons d left)
    rw [classWithin?, classWithin?, h, h']
    split
    · contradiction
    · obtain ⟨rfl, rfl⟩ := List.cons.inj ‹_›
      obtain ⟨none, none'⟩ | ⟨chars, _, _, named, named', left⟩ := namedAscii?_left left
      · obtain ⟨same, left⟩ := openClass_left flags left
        simp only [none, none', same]
        exact ih left le
      · simp only [named, named']
        exact ih left le
    · obtain ⟨rfl, rfl⟩ := List.cons.inj ‹_›
      cases outer with
      | nil => exact .some rfl left
      | cons parent outer => exact ih left le
    -- operators have two characters, and no `)` is the second of one
    iterate 3 cases left <;> simp_all
    cases left <;> simp_all
    all_goals exact .bind item fun _ left => ih left le

theorem bracketed?_local : Local (bracketed? flags) := by
  intro cs cs' left
  obtain ⟨same, inside⟩ := openClass_left flags left
  simp only [bracketed?, same]
  exact .bind (classWithin?_extends flags inside (Nat.succ_le_succ left.length_le)) fun _ left =>
    .same fun _ => .some rfl left

/-! ## Repetitions and groups -/

theorem decimal?_local : Local (decimal? flags) := by
  intro cs cs' left
  have left := left.dropWhile (p := isBlank) (by decide)
  simp only [decimal?, left.takeWhile (p := Char.isDigit) (by decide)]
  exact .same fun _ => .same fun _ =>
    .some rfl (((left.dropWhile (by decide)).dropWhile (by decide)).skipSpace flags)

theorem counted?_local : Local (counted? flags) := by
  intro cs cs' left
  refine .bind (decimal?_local flags (left.skipSpace flags)) fun least left => ?_
  cases left with
  | close | lost => exact .none
  | cons c left =>
  by_cases isEnd : c = '\x7d'
  · subst isEnd
    exact .some rfl left
  by_cases isComma : c = ','
  · subst isComma
    obtain h | ⟨d, _, _, h, h', left⟩ := left.next flags
    · have nothing : decimal? flags [] = none := rfl
      simp [h, nothing]
    by_cases isEnd : d = '\x7d' <;> simp [h, h', isEnd]
    · exact left
    refine .bind (decimal?_local flags (.cons d left)) fun most left => ?_
    cases left with
    | close | lost => exact .none
    | cons e left =>
      simp only [dropStart?]
      split
      · exact .same fun _ => .some rfl left
      · exact .none
  · simp [isEnd, isComma]

theorem groupFlags?_extends {β : Type} (start : Flags → Bool → β) (left : Left cs cs') (seen : List Char)
    (flags : Flags) : Extends Eq ((groupFlags? flags seen cs).bind fun x => some (start x.1 x.2.1, x.2.2))
      ((groupFlags? flags seen cs').bind fun x => some (start x.1 x.2.1, x.2.2)) := by
  induction left generalizing seen flags with
  | close | lost => exact .none
  | cons c left ih =>
    simp only [groupFlags?]
    split
    · split
      · exact .none
      · split
        · exact .none
        · exact .some rfl left
    · split
      · exact .none
      · split
        · exact ih _ _
        · cases flags.set? c _ with
          | none => exact .none
          | some flags => exact ih _ _

theorem groupStart?_local : Local (groupStart? flags) := by
  intro cs cs' left
  unfold groupStart?
  extract_lets named
  have named_local : Local named := by
    intro s s' left
    obtain ⟨h, -⟩ | ⟨same, _, _, h, h', left⟩ := left.cut '>' (by decide)
    · simp [named, h, dropStart?]
    · simp only [named, h, h', same, dropStart?]
      cases s.takeWhile (· != '>') with
      | nil => exact .none
      | cons first others => exact .same fun _ => .some rfl left
  have left := left.skipSpace flags
  generalize skipSpace flags cs = s at *
  generalize skipSpace flags cs' = s' at *
  split
  iterate 4 exact .none
  · obtain _ | _ | ⟨_, _ | _ | ⟨_, _ | _ | ⟨_, left⟩⟩⟩ := left
    exact named_local left
  · obtain _ | _ | ⟨_, _ | _ | ⟨_, left⟩⟩ := left
    cases left with
    | close | lost => exact .none
    | cons c left =>
      simp_all
      exact named_local (.cons c left)
  · obtain _ | _ | ⟨_, left⟩ := left
    have flagged := groupFlags?_extends (fun flags only => if only then GroupStart.flags flags else .group flags none)
      left [] flags
    cases left with
    | close | lost => exact .none
    | cons c left => cases left <;> simp_all
  · cases left with
    | close | lost => exact .some rfl (by constructor)
    | cons c left =>
      simp_all
      exact .cons c left

end

namespace Reader

/-- The reader in a group after the start of the text. -/
def grouped (reader : Reader) : Reader :=
  { reader with outer := reader.outer ++ [⟨[], [some (.look .textStart)], {}⟩] }

/-- The second reader is the first one in such a group, and there are no flags outside of all groups. -/
def Grouped (reader reader' : Reader) : Prop :=
  reader' = reader.grouped ∧ (reader.group.outerFlags :: reader.outer.map (·.outerFlags)).getLast? = some {}

theorem step?_extends {reader reader' : Reader} {cs cs' : List Char} (left : Left cs cs')
    (inside : Grouped reader reader') : Extends Grouped (reader.step? cs) (reader'.step? cs') := by
  obtain ⟨rfl, ground⟩ := inside
  have again (least : Nat) (most : Option Nat) {rest rest' : List Char} (left : Left rest rest') :
      Extends Grouped ((reader.repeatLast? least most).bind fun r => some (r, rest))
        ((reader.grouped.repeatLast? least most).bind fun r => some (r, rest')) := by
    unfold repeatLast? grouped
    rcases reader.group.items with _ | ⟨_ | last, items⟩
    · exact .none
    · exact .none
    · exact .some ⟨rfl, ground⟩ left
  cases left with
  | close | lost => exact .none
  | cons c left =>
  simp only [step?, Option.map_eq_bind]
  split
  · contradiction
  all_goals obtain ⟨rfl, rfl⟩ := List.cons.inj ‹_›
  · refine .bind (groupStart?_local _ left) fun start left => ?_
    cases start with
    | flags flags => exact .some ⟨rfl, ground⟩ left
    | group flags name => exact .same fun _ => .some ⟨rfl, ground⟩ left
  · obtain ⟨flags, group, _ | ⟨parent, outer⟩, names⟩ := reader
    · exact .none
    · exact .some ⟨rfl, ground⟩ left
  · exact .some ⟨rfl, ground⟩ left
  · exact .bind (bracketed?_local _ left) fun _ left => .some ⟨rfl, ground⟩ left
  iterate 3 exact again _ _ left.skipLazy
  · exact .bind (counted?_local _ left) fun _ left => again _ _ (left.skipSpace reader.flags).skipLazy
  · exact .bind (escape?_local _ left) fun _ left => .same fun _ => .some ⟨rfl, ground⟩ left
  · exact .same fun _ => .some ⟨rfl, ground⟩ left
  iterate 2 exact .some ⟨rfl, ground⟩ left
  · have added r : Grouped (reader.add (some r)) (reader.grouped.add (some r)) := ⟨rfl, ground⟩
    simp_all
    exact .same fun r => .some (added r) left

/-- If the text is read in a group to the end and the group is closed, then as it is alone. -/
theorem runWithin?_grouped {n n' : Nat} {reader reader' last last' : Reader} {cs cs' : List Char}
    (left : Left cs cs') (le : n + 2 ≤ n') (inside : Grouped reader reader')
    (alone : runWithin? n reader cs = some last) (closed : last.outer = [])
    (framed : runWithin? n' reader' cs' = some last') (closed' : last'.outer = []) :
    last'.group.close = .cat (.look .textStart) (.cat last.group.close (.look .textEnd)) := by
  induction n generalizing n' reader reader' cs cs' with
  | zero => cases alone
  | succ n ih =>
    obtain ⟨m, rfl⟩ : ∃ m, n' = m + 3 := ⟨n' - 3, by omega⟩
    have flags : reader'.flags = reader.flags := by rw [inside.1]; rfl
    rw [runWithin?, flags] at framed
    obtain h | ⟨c, rest, rest', h, h', left⟩ := left.next reader.flags
    · rw [runWithin?, h] at alone
      cases alone
      have left := left.skipSpace last.flags
      generalize skipSpace last.flags cs' = s at left framed
      rw [h] at left
      obtain ⟨rfl, ground⟩ := inside
      cases left with
      | close =>
        obtain ⟨_, ⟨_, _, _⟩, _, _⟩ := last
        cases closed
        cases ground
        cases framed
        rfl
      | lost =>
        cases framed
        simp [grouped] at closed'
    · have step := step?_extends (.cons c left) inside
      rw [runWithin?, h] at alone
      rw [h'] at framed
      obtain ⟨⟨_, _⟩, stepped, alone⟩ := Option.bind_eq_some_iff.1 alone
      obtain ⟨⟨_, _⟩, stepped', framed⟩ := Option.bind_eq_some_iff.1 framed
      rw [stepped, stepped', Extends.some_iff] at step
      exact ih step.2 (by omega) step.1 alone framed

end Reader

namespace Regex

theorem parse?_run {pattern : String} {regex : Regex} (parsed : parse? pattern = some regex) :
    ∃ last, Reader.runWithin? (pattern.toList.length + 1) ⟨{}, ⟨[], [], {}⟩, [], []⟩ pattern.toList = some last ∧
      last.outer = [] ∧ last.group.close = regex := by
  obtain ⟨last, run, isClosed⟩ := Option.bind_eq_some_iff.1 parsed
  obtain ⟨_, isClosed, same⟩ := Option.bind_eq_some_iff.1 isClosed
  exact ⟨last, run, by simpa [guard] using isClosed, Option.some.inj same⟩

theorem parse?_anchored {pattern : String} {alone framed : Regex} (isPattern : parse? pattern = some alone)
    (accepted : parse? (Backend.anchored pattern) = some framed) :
    framed = .cat (.look .textStart) (.cat alone (.look .textEnd)) := by
  obtain ⟨last, run, isClosed, rfl⟩ := parse?_run isPattern
  obtain ⟨last', run', isClosed', rfl⟩ := parse?_run accepted
  have text : (Backend.anchored pattern).toList = '^' :: '(' :: '?' :: ':' :: (pattern.toList ++ [')', '$']) := by
    simp [Backend.anchored]
  rw [text] at run'
  have left : Left pattern.toList (pattern.toList ++ [')', '$']) := by
    induction pattern.toList with
    | nil => exact .close
    | cons c rest ih => exact .cons c ih
  exact Reader.runWithin?_grouped left (by simp) ⟨rfl, rfl⟩ run isClosed run' isClosed'

/-- Whether a match can start where the text starts and leave nothing of it. -/
def matchesWhole (regex : Regex) (text : List Char) : Bool :=
  (regex.ends text 0).any (text.length ≤ ·)

theorem matchesIn_framed (regex : Regex) (text : List Char) :
    (Regex.cat (.look .textStart) (.cat regex (.look .textEnd))).matchesIn text = regex.matchesWhole text := by
  have mem {step : Nat → List Nat} {places : List Nat} {place : Nat} :
      place ∈ stepAll step places ↔ ∃ p ∈ places, place ∈ step p := by
    simp [stepAll]
  have framed : (Regex.cat (.look .textStart) (.cat regex (.look .textEnd))).matchesIn text = true ↔
      ∃ place < text.length + 1, place = 0 ∧ ∃ stop ∈ regex.ends text place, text.length ≤ stop := by
    simp [matchesIn, ends, Look.holds, List.eq_nil_iff_forall_not_mem, mem]
  have whole : regex.matchesWhole text = true ↔ ∃ stop ∈ regex.ends text 0, text.length ≤ stop := by
    simp [matchesWhole]
  rw [Bool.eq_iff_iff, framed, whole]
  constructor
  · rintro ⟨_, -, rfl, stopped⟩
    exact stopped
  · exact fun stopped => ⟨0, Nat.succ_pos _, rfl, stopped⟩

end Regex

end YangStubs.Pattern
