import YangStubs.Proofs.Schema.Loading
import YangStubs.Schema.Record

/-! # Statements and the elements of a document

A document is listed element by element, without the elements that hold an argument.  Main statement: reading a
module adds one statement for each element of this list, linked as the elements are nested, up to the first
element that cannot be a statement.
-/

namespace YangStubs.Schema

open YangStubs.Markup
open Statement (listingOfAll withinAll)

/-! ## What an element says -/

/-- How the keyword of an element takes its argument; `none` if it is not standard.  An element outside of the
    standard namespace has no argument of its own even if it is called like a standard keyword. -/
def formOf? (e : Element) : Option (Option ArgumentForm) :=
  if e.tag.space == some yinSpace then argumentForm? e.tag.name
  else if isStandardKeyword (foreignKeyword e.tag) then some none
  else none

def keywordOf (e : Element) : String :=
  if e.tag.space == some yinSpace then e.tag.name else foreignKeyword e.tag

/-- Whether a piece of content is an element of that standard name. -/
def isElementNamed (name : String) : Content → Bool
  | .text _ => false
  | .element tag _ => tag.isNamed yinSpace name

/-- What an element has in the place of an argument. -/
def writtenArgument? (e : Element) (form : ArgumentForm) : Option String :=
  if form.isElement then (e.content.find? (isElementNamed form.name)).map Content.characters
  else e.tag.attribute? form.name

/-- The argument of the statement that an element stands for: as its keyword has it, and the first attribute if the
    keyword is not standard. -/
def argumentOf? (e : Element) : Option String :=
  match formOf? e with
  | some (some form) => writtenArgument? e form
  | some none => none
  | none => e.tag.attributes.head?.map (·.value)

/-- Why an element cannot stand for a statement. -/
def faultOf? (home : String) (e : Element) : Option SchemaError :=
  if e.tag.space == some yinSpace && isUnsupported e.tag.name then some (.unsupported e.tag.name home)
  else match formOf? e with
    | some (some form) =>
      if (writtenArgument? e form).isNone then some (.missingArgument (keywordOf e) home) else none
    | _ => none

/-- The name of the elements inside an element that hold its argument. -/
def argumentElement? (tag : Tag) : Option String :=
  if tag.space == some yinSpace then
    (((argumentForm? tag.name).bind id).filter (·.isElement)).map (·.name)
  else none

theorem argumentText?_eq (name : String) (content : List Content) :
    argumentText? name content = (content.find? (isElementNamed name)).map Content.characters := by
  induction content with
  | nil => rfl
  | cons c rest ih =>
    cases c with
    | text characters => exact ih
    | element tag inner =>
      rw [argumentText?, List.find?_cons, isElementNamed]
      cases tag.isNamed yinSpace name with
      | true => rfl
      | false => exact ih

/-- The heading of an element is what it says, unless there is a fault. -/
theorem heading_eq (home : String) (tag : Tag) (content : List Content) :
    heading home tag content = match faultOf? home ⟨tag, content⟩ with
      | some e => .error e
      | none => .ok ⟨keywordOf ⟨tag, content⟩, argumentOf? ⟨tag, content⟩, argumentElement? tag⟩ := by
  unfold heading faultOf? keywordOf argumentOf? argumentElement? formOf?
  cases tag.space == some yinSpace with
  | false =>
    simp only [Bool.false_eq_true, if_false, Bool.false_and, headingWith]
    cases isStandardKeyword (foreignKeyword tag) <;> rfl
  | true =>
    simp only [if_true, Bool.true_and]
    cases isUnsupported tag.name with
    | true => rfl
    | false =>
      simp only [Bool.false_eq_true, if_false]
      cases found : argumentForm? tag.name with
      | none => simp [headingWith, isStandardKeyword, found]
      | some form =>
        cases form with
        | none => simp [headingWith, isStandardKeyword, found]
        | some form =>
          obtain ⟨name, isElement⟩ := form
          cases isElement with
          | true =>
            simp only [Option.bind_some, id, headingWith, argumentText?_eq, writtenArgument?, if_true]
            cases content.find? (isElementNamed name) <;> rfl
          | false =>
            simp only [Option.bind_some, id, headingWith, writtenArgument?, Bool.false_eq_true, if_false]
            cases tag.attribute? name <;> rfl

/-! ## The elements of a document -/

/-- An element that is to be a statement, with its number and that of the element around it. -/
structure NumberedElement where
  number : Nat
  parent : Option Nat
  element : Element

mutual
/-- The elements of a piece of content in document order, numbered from `next` on.  Elements that hold the argument of
    the element around them are left out with all that is inside them. -/
def elementsIn (next : Nat) (around : Option (Nat × Tag)) : Content → List NumberedElement
  | .text _ => []
  | .element tag content =>
    if (around.bind (argumentElement? ·.2)).any (tag.isNamed yinSpace ·) then []
    else ⟨next, around.map (·.1), ⟨tag, content⟩⟩ :: elementsAmong (next + 1) (some (next, tag)) content

/-- The elements of several pieces of content. -/
def elementsAmong (next : Nat) (around : Option (Nat × Tag)) : List Content → List NumberedElement
  | [] => []
  | c :: rest =>
    elementsIn next around c ++ elementsAmong (next + (elementsIn next around c).length) around rest
end

/-- The elements of a document that come before the first fault. -/
def faultless (home : String) (elements : List NumberedElement) : List NumberedElement :=
  elements.takeWhile fun e => (faultOf? home e.element).isNone

/-- The first fault of some elements. -/
def firstFault? (home : String) (elements : List NumberedElement) : Option SchemaError :=
  elements.findSome? fun e => faultOf? home e.element

theorem faultless_append (home : String) (first rest : List NumberedElement) :
    faultless home (first ++ rest) =
      if (firstFault? home first).isSome then faultless home first else first ++ faultless home rest := by
  induction first with
  | nil => rfl
  | cons e others ih =>
    simp only [faultless, firstFault?, List.cons_append, List.takeWhile_cons, List.findSome?_cons] at ih ⊢
    cases faultOf? home e.element with
    | some error => rfl
    | none =>
      simp only [Option.isNone_none, if_true, ih]
      exact apply_ite (e :: ·) _ _ _

theorem faultless_of_none {home : String} {elements : List NumberedElement}
    (noFault : firstFault? home elements = none) : faultless home elements = elements := by
  have whole := faultless_append home elements []
  rw [noFault] at whole
  simpa [faultless] using whole

/-! ## Statements as records -/

/-- A statement as it was read, when it has no links to other statements but those of its place. -/
def Statement.Placed.record (s : Statement.Placed) : Record where
  id := s.statement.id
  keyword := s.statement.keyword
  arg := s.statement.arg
  home := s.statement.home
  parent := s.parent
  subs := s.statement.subs.map (·.id)
  children := []
  schemaParent := none
  grouping := s.statement.grouping
  typedef := s.statement.typedef
  augment := none
  target := none
  origin := s.statement.origin

/-- All statements of a library, in the order of their numbers. -/
def Library.records (library : Library) : List Record :=
  (listingOfAll none none library.forest).map (·.record)

/-- The statement of an element, with the substatements to be filled in. -/
def NumberedElement.record (home : String) (e : NumberedElement) : Record where
  id := e.number
  keyword := keywordOf e.element
  arg := argumentOf? e.element
  home := home
  parent := e.parent
  subs := []
  children := []
  schemaParent := none
  grouping := none
  typedef := none
  augment := none
  target := none
  origin := none

/-- Fills in the substatements of records: those that have them as their parent, in order. -/
def withSubs (records : List Record) : List Record :=
  records.map fun r => { r with subs := (records.filter (·.parent == some r.id)).map (·.id) }

namespace Statement

theorem listingOfAll_append (parent : Option Nat) (around : Option Statement) (l l' : List Statement) :
    listingOfAll parent around (l ++ l') = listingOfAll parent around l ++ listingOfAll parent around l' := by
  induction l with
  | nil => rfl
  | cons s rest ih => simp only [List.cons_append, listingOfAll, ih, List.append_assoc]

theorem listingBelow_eq (s : Statement) : s.listingBelow = listingOfAll (some s.id) (some s) s.subs := by
  cases s; rfl

/-- Nothing in a listing belongs to a statement that is neither in the trees nor around them. -/
theorem filter_listingOfAll_of_not_mem {k : Nat} : ∀ {parent : Option Nat} {around : Option Statement}
    {l : List Statement}, parent ≠ some k → k ∉ (withinAll l).map (·.id) →
    (listingOfAll parent around l).filter (·.parent == some k) = []
  | _, _, [], _, _ => rfl
  | parent, around, s :: rest, other, absent => by
    simp only [withinAll_cons, within_eq, List.cons_append, List.map_cons, List.map_append, List.mem_cons,
      List.mem_append, not_or] at absent
    have below : s.listingBelow.filter (·.parent == some k) = [] := by
      rw [listingBelow_eq]
      exact filter_listingOfAll_of_not_mem (by simpa using Ne.symm absent.1) absent.2.1
    have here : (parent == some k) = false := by simpa using other
    simp only [listingOfAll, List.cons_append, List.filter_cons, here, List.filter_append, below,
      filter_listingOfAll_of_not_mem other absent.2.2]
    rfl
termination_by _ _ l => sizeOfAll l
decreasing_by all_goals rw [sizeOfAll_cons, size_eq]; omega

theorem filter_listingOfAll_top {k : Nat} (around : Option Statement) {l : List Statement}
    (absent : k ∉ (withinAll l).map (·.id)) :
    ((listingOfAll (some k) around l).filter (·.parent == some k)).map (·.statement) = l := by
  induction l with
  | nil => rfl
  | cons s rest ih =>
    simp only [withinAll_cons, within_eq, List.cons_append, List.map_cons, List.map_append, List.mem_cons,
      List.mem_append, not_or] at absent
    have below : s.listingBelow.filter (·.parent == some k) = [] := by
      rw [listingBelow_eq]
      exact filter_listingOfAll_of_not_mem (by simpa using Ne.symm absent.1) absent.2.1
    simp only [listingOfAll, List.cons_append, List.filter_cons, beq_self_eq_true, if_true, List.filter_append, below,
      List.nil_append, List.map_cons, ih absent.2.2]

/-- Where no number is given twice, the substatements of a statement are those that are listed with it as their
    parent. -/
theorem filter_listingOfAll_eq_subs {t : Statement} : ∀ (parent : Option Nat) (around : Option Statement)
    {l : List Statement}, ((withinAll l).map (·.id)).Nodup → parent ≠ some t.id → t ∈ withinAll l →
    ((listingOfAll parent around l).filter (·.parent == some t.id)).map (·.statement) = t.subs
  | _, _, [], _, _, member => by simp at member
  | parent, around, s :: rest, nodup, other, member => by
    simp only [withinAll_cons, within_eq, List.cons_append, List.map_cons, List.map_append, List.nodup_cons,
      List.mem_append, not_or, List.nodup_append] at nodup
    obtain ⟨⟨notBelow, notRest⟩, ofBelow, ofRest, apart⟩ := nodup
    have here : (parent == some t.id) = false := by simpa using other
    simp only [listingOfAll, List.cons_append, List.filter_cons, here, List.filter_append]
    rw [listingBelow_eq]
    simp only [withinAll_cons, within_eq, List.cons_append, List.mem_cons, List.mem_append] at member
    -- The statement is the first one, below it or after it, and the other two parts have nothing that belongs to it.
    rcases member with rfl | below | later
    · rw [filter_listingOfAll_of_not_mem other notRest]
      simpa using filter_listingOfAll_top (some t) notBelow
    · have isBelow := List.mem_map_of_mem (f := (·.id)) below
      have differs : some s.id ≠ some t.id := by
        rintro same
        exact notBelow (Option.some.inj same ▸ isBelow)
      rw [filter_listingOfAll_of_not_mem other fun isLater => apart _ isBelow _ isLater rfl]
      simpa using filter_listingOfAll_eq_subs _ _ ofBelow differs below
    · have isLater := List.mem_map_of_mem (f := (·.id)) later
      have differs : some s.id ≠ some t.id := by
        rintro same
        exact notRest (Option.some.inj same ▸ isLater)
      rw [filter_listingOfAll_of_not_mem differs fun isBelow => apart _ isBelow _ isLater rfl]
      simpa using filter_listingOfAll_eq_subs _ _ ofRest other later
termination_by _ _ l => sizeOfAll l
decreasing_by all_goals rw [sizeOfAll_cons, size_eq]; omega

/-- The record of a statement without its substatements. -/
def Placed.bare (s : Placed) : Record :=
  { s.record with subs := [] }

/-- The records of trees with distinct numbers are settled by what each statement says and where it belongs. -/
theorem map_record_eq_withSubs {l : List Statement} (nodup : ((withinAll l).map (·.id)).Nodup) :
    (listingOfAll none none l).map (·.record) = withSubs ((listingOfAll none none l).map (·.bare)) := by
  rw [withSubs, List.map_map]
  refine List.map_congr_left fun s member => ?_
  have inside : s.statement ∈ withinAll l := by
    rw [← listingOfAll_statements none none]
    exact List.mem_map_of_mem member
  have subs := congrArg (List.map (·.id))
    (filter_listingOfAll_eq_subs none none nodup (Option.some_ne_none _).symm inside)
  rw [List.map_map] at subs
  rw [Function.comp_apply, List.filter_map, List.map_map, Placed.record, ← subs]
  rfl

theorem length_listingOfAll (parent : Option Nat) (around : Option Statement) (l : List Statement) :
    (listingOfAll parent around l).length = sizeOfAll l := by
  rw [← length_withinAll, ← listingOfAll_statements parent around, List.length_map]

end Statement

/-! ## Reading -/

/-- A reading has the statements of elements up to the first fault, which is its error. -/
structure Reading.Follows (home : String) (parent : Option Nat) (elements : List NumberedElement) (reading : Reading) :
    Prop where
  error : reading.error = firstFault? home elements
  statements : ∀ around, (listingOfAll parent around reading.statements).map (·.bare) =
    (faultless home elements).map (·.record home)

theorem Reading.Follows.length {home : String} {parent : Option Nat} {elements : List NumberedElement} {reading : Reading}
    (follows : reading.Follows home parent elements) (noError : reading.error = none) :
    elements.length = Statement.sizeOfAll reading.statements := by
  have same := congrArg List.length (follows.statements none)
  rw [faultless_of_none (follows.error ▸ noError)] at same
  simpa [Statement.length_listingOfAll] using same.symm

mutual
theorem readContent_follows (home : String) (next : Nat) (around : Option (Nat × Tag)) :
    ∀ c : Content, (readContent home (around.bind (argumentElement? ·.2)) next c).Follows home (around.map (·.1))
      (elementsIn next around c)
  | .text _ => ⟨rfl, fun _ => rfl⟩
  | .element tag content => by
    rw [readContent, elementsIn]
    split
    · exact ⟨rfl, fun _ => rfl⟩
    · rw [heading_eq]
      cases fault : faultOf? home ⟨tag, content⟩ with
      | some error =>
        refine ⟨?_, fun _ => ?_⟩
        · simp [firstFault?, fault]
        · simp [faultless, fault, listingOfAll]
      | none =>
        have inner := readContents_follows home (next + 1) (some (next, tag)) content
        refine ⟨?_, fun _ => ?_⟩
        · simpa [firstFault?, fault] using inner.error
        · simp only [faultless, List.takeWhile_cons, fault, Option.isNone_none, if_true, List.map_cons, listingOfAll,
            List.append_nil, Statement.listingBelow_eq]
          exact congrArg (_ :: ·) (inner.statements _)

theorem readContents_follows (home : String) (next : Nat) (around : Option (Nat × Tag)) :
    ∀ cs : List Content, (readContents home (around.bind (argumentElement? ·.2)) next cs).Follows home
      (around.map (·.1)) (elementsAmong next around cs)
  | [] => ⟨rfl, fun _ => rfl⟩
  | c :: rest => by
    have first := readContent_follows home next around c
    rw [readContents, elementsAmong]
    simp only
    -- After a fault nothing is read; without one, reading goes on with the number after the last element.
    split
    · rename_i error isError
      have fault := first.error.symm.trans isError
      refine ⟨?_, fun a => ?_⟩
      · rw [isError, firstFault?, List.findSome?_append]
        rw [firstFault?] at fault
        rw [fault, Option.some_or]
      · rw [faultless_append, fault]
        exact first.statements a
    · rename_i isNone
      have noFault := first.error.symm.trans isNone
      have sound := readContent_sound home (around.bind (argumentElement? ·.2)) next c
      have others := readContents_follows home (next + (elementsIn next around c).length) around rest
      rw [first.length isNone, ← sound.next_eq] at others ⊢
      refine ⟨?_, fun a => ?_⟩
      · rw [firstFault?, List.findSome?_append]
        rw [firstFault?] at noFault
        rw [noFault, Option.none_or]
        exact others.error
      · rw [faultless_append, noFault, Statement.listingOfAll_append, List.map_append, first.statements,
          others.statements, faultless_of_none noFault]
        exact List.map_append.symm
end

mutual
theorem elementsIn_numbers (next : Nat) (around : Option (Nat × Tag)) :
    ∀ c : Content, (elementsIn next around c).map (·.number) = List.range' next (elementsIn next around c).length
  | .text _ => rfl
  | .element tag content => by
    rw [elementsIn]
    split
    · rfl
    · rw [List.map_cons, elementsAmong_numbers (next + 1) (some (next, tag)) content, List.length_cons, List.range'_succ]

theorem elementsAmong_numbers (next : Nat) (around : Option (Nat × Tag)) :
    ∀ cs : List Content,
      (elementsAmong next around cs).map (·.number) = List.range' next (elementsAmong next around cs).length
  | [] => rfl
  | c :: rest => by
    rw [elementsAmong, List.map_append, elementsIn_numbers next around c, elementsAmong_numbers _ around rest,
      List.length_append, List.range'_append_1]
end

/-- The elements of a document that are to be statements, the root first. -/
def elementsOf (next : Nat) (root : Element) : List NumberedElement :=
  elementsIn next none (.element root.tag root.content)

/-- The statements that a document is read as, up to the first fault. -/
def recordsOf (home : String) (next : Nat) (root : Element) : List Record :=
  withSubs ((faultless home (elementsOf next root)).map (·.record home))

theorem records_read (library : Library) (home : String) (root : Element) :
    Library.records { library with forest := library.forest ++ (readElement home library.next root).statements } =
      library.records ++ recordsOf home library.next root := by
  have follows := readContent_follows home library.next none (.element root.tag root.content)
  have sound := readContent_sound home none library.next (.element root.tag root.content)
  have nodup := sound.numbered.nodup
  show (listingOfAll none none (_ ++ _)).map _ = _
  rw [Statement.listingOfAll_append, List.map_append]
  refine congrArg (_ ++ ·) ?_
  rw [recordsOf, elementsOf, ← follows.statements none]
  exact Statement.map_record_eq_withSubs nodup

theorem length_records (library : Library) : library.records.length + 1 = library.next := by
  rw [Library.records, List.length_map, Statement.length_listingOfAll]
  rfl

/-- A module is refused for want of a name as any other element is. -/
theorem firstFault?_nameless {root : Element} (isModule : root.tag.isNamed yinSpace "module" = true)
    (nameless : root.tag.attribute? "name" = none) (home : String) (next : Nat) :
    firstFault? home (elementsOf next root) = some (.missingArgument "module" home) ∧
      recordsOf home next root = [] := by
  simp only [Tag.isNamed, Bool.and_eq_true, beq_iff_eq] at isModule
  have form : formOf? root = some (some ⟨"name", false⟩) := by
    have known : argumentForm? "module" = some (some ⟨"name", false⟩) := by decide
    simp [formOf?, isModule, known]
  have fault : faultOf? home root = some (.missingArgument "module" home) := by
    have supported : isUnsupported "module" = false := by decide
    simp [faultOf?, form, isModule, supported, writtenArgument?, nameless, keywordOf]
  constructor
  · simp [elementsOf, elementsIn, firstFault?, fault]
  · simp [recordsOf, elementsOf, elementsIn, faultless, fault, withSubs]

/-- Reading a module mirrors its document.  What was there before stays; a statement is added for each element that
    holds no argument, in document order, with the element's keyword and argument and linked as the elements are
    nested, up to the first element that cannot be a statement; and the result is what is wrong with that one, if there
    is one.  (A module of a name that is taken is read and then not added.) -/
theorem addElement_mirrors (library : Library) (root : Element)
    (isModule : root.tag.isNamed yinSpace "module" = true) :
    let home := (root.tag.attribute? "name").getD ""
    let elements := elementsOf library.next root
    let added := library.addElement root
    (library.next = library.records.length + 1 ∧ elements.map (·.number) = List.range' library.next elements.length) ∧
    added.library.records = library.records ++ recordsOf home library.next root ∧
    added.result = match firstFault? home elements with
      | some e => .error e
      | none => if library.contains home then .error (.duplicateModule home) else .ok library.next := by
  intro home elements added
  refine ⟨⟨(length_records library).symm, elementsIn_numbers _ _ _⟩, ?_⟩
  cases found : root.tag.attribute? "name" with
  | none =>
    obtain ⟨fault, nothing⟩ := firstFault?_nameless isModule found "" library.next
    have named : moduleName root.tag = .error (.missingArgument "module" "") := by
      simp only [moduleName, isModule, if_true, found]
    simp only [added, home, elements, Library.addElement, named, found, Option.getD_none, fault, nothing]
    exact ⟨(List.append_nil _).symm, trivial⟩
  | some name =>
    have records := records_read library name root
    have error := (readContent_follows name library.next none (.element root.tag root.content)).error
    have named : moduleName root.tag = .ok name := by
      simp only [moduleName, isModule, if_true, found]
    simp only [added, home, elements, Library.addElement, named, found, Option.getD_some]
    change (readElement name library.next root).error = firstFault? name (elementsOf library.next root) at error
    rw [error]
    cases firstFault? name (elementsOf library.next root) with
    | some e => exact ⟨records, rfl⟩
    | none =>
      simp only
      split
      · rename_i taken
        exact ⟨records, (if_pos taken).symm⟩
      · rename_i free
        exact ⟨records, (if_neg free).symm⟩

/-- A module with an argument in two elements, an extension and, after these, an `include`. -/
def refusedInclude : String :=
  "<module name='m' xmlns='urn:ietf:params:xml:ns:yang:yin:1' xmlns:e='u'><container name='c'><description>" ++
  "<text>one</text><text/></description><e:x a='b'/></container><include/><leaf/></module>"

/-- The `include` is the error, though the leaf after it has no name, and all before it has been read. -/
theorem addElement_mirrors_refusedInclude :
    ∃ root, Element.parse? refusedInclude = some root ∧ root.tag.isNamed yinSpace "module" = true ∧
      (let added := Library.empty.addElement root
       added.result = .error (.unsupported "include" "m") ∧
       added.library.records.map (fun r => (r.keyword, r.arg)) =
         [("module", some "m"), ("container", some "c"), ("description", some "one"), ("e:x", some "b")] ∧
       added.library.records.map (fun r => (r.parent, r.subs)) =
         [(none, [2]), (some 1, [3, 4]), (some 2, []), (some 2, [])]) := by
  have evaluated : (Element.parse? refusedInclude).any (fun root =>
      root.tag.isNamed yinSpace "module" && (root.tag.attribute? "name").getD "" == "m" &&
      firstFault? "m" (elementsOf 1 root) == some (.unsupported "include" "m") &&
      (recordsOf "m" 1 root).map (fun r => (r.keyword, r.arg)) ==
        [("module", some "m"), ("container", some "c"), ("description", some "one"), ("e:x", some "b")] &&
      (recordsOf "m" 1 root).map (fun r => (r.parent, r.subs)) ==
        [(none, [2]), (some 1, [3, 4]), (some 2, []), (some 2, [])]) = true := by
    decide +kernel
  simp only [Option.any_eq_true, Bool.and_eq_true, beq_iff_eq] at evaluated
  obtain ⟨root, parsed, ⟨⟨⟨isModule, home⟩, fault⟩, headings⟩, links⟩ := evaluated
  obtain ⟨-, grown, result⟩ := addElement_mirrors Library.empty root isModule
  have first : Library.empty.next = 1 := rfl
  rw [home, first] at grown result
  rw [fault] at result
  exact ⟨root, parsed, isModule, result, by rw [grown]; exact headings, by rw [grown]; exact links⟩

end YangStubs.Schema
