import YangStubs.Proofs.Schema.Relinking
import YangStubs.Proofs.Schema.Scoping
import YangStubs.Proofs.Schema.Transplanting

/-! # Libraries that hold the same modules

What a text is read as does not depend on where its numbers start.  So if a library holds the modules of
another one, perhaps in another order and with more trees besides, the linked trees of the one stand in the
linked forest of the other.
-/

namespace YangStubs.Schema

open YangStubs.Markup
open Statement (withinAll sizeOfAll Numbered renumberAll)

variable {s : Statement} {library : Library}

/-! ## Reading with other numbers -/

mutual
theorem readContent_renumber {ρ : Nat → Nat} (home : String) (skip : Option String) :
    ∀ (c : Content) (next next' : Nat),
      (∀ k < sizeOfAll (readContent home skip next c).statements, ρ (next + k) = next' + k) →
      (readContent home skip next' c).statements = renumberAll ρ (readContent home skip next c).statements ∧
        (readContent home skip next' c).error = (readContent home skip next c).error
  | .text _, _, _, _ => ⟨by simp only [readContent, renumberAll], rfl⟩
  | .element tag content, next, next', block => by
    by_cases skipped : skip.any (tag.isNamed yinSpace ·) = true
    · simp only [readContent, skipped, if_true, renumberAll, and_self]
    · cases isHeading : heading home tag content with
      | error e => simp only [readContent, skipped, isHeading, Bool.false_eq_true, if_false, renumberAll, and_self]
      | ok h =>
        simp only [readContent, skipped, isHeading, Bool.false_eq_true, if_false, Statement.sizeOfAll_cons,
          Statement.sizeOfAll_nil, Statement.size_eq] at block ⊢
        have first : ρ next = next' := block 0 (by omega)
        obtain ⟨statements, error⟩ := readContents_renumber home h.argumentElement content (next + 1) (next' + 1)
          fun k before => by
            have shifted := block (k + 1) (by omega)
            rwa [Nat.add_comm k 1, ← Nat.add_assoc, ← Nat.add_assoc] at shifted
        refine ⟨?_, error⟩
        simp only [renumberAll, Statement.renumber, statements, first, Option.map_none]

theorem readContents_renumber {ρ : Nat → Nat} (home : String) (skip : Option String) :
    ∀ (cs : List Content) (next next' : Nat),
      (∀ k < sizeOfAll (readContents home skip next cs).statements, ρ (next + k) = next' + k) →
      (readContents home skip next' cs).statements = renumberAll ρ (readContents home skip next cs).statements ∧
        (readContents home skip next' cs).error = (readContents home skip next cs).error
  | [], _, _, _ => ⟨by simp only [readContents, renumberAll], rfl⟩
  | c :: rest, next, next', block => by
    have sound := readContent_sound home skip next c
    have sound' := readContent_sound home skip next' c
    cases failed : (readContent home skip next c).error with
    | some e =>
      simp only [readContents, failed] at block
      obtain ⟨statements, error⟩ := readContent_renumber home skip c next next' block
      rw [failed] at error
      simp only [readContents, failed, error]
      exact ⟨statements, trivial⟩
    | none =>
      simp only [readContents, failed, Statement.sizeOfAll_append] at block
      obtain ⟨statements, error⟩ :=
        readContent_renumber home skip c next next' fun k before => block k (by omega)
      -- The rest is read from where the first part has stopped, on both sides.
      have sameSize : sizeOfAll (readContent home skip next' c).statements =
          sizeOfAll (readContent home skip next c).statements := by
        rw [statements, Statement.renumberAll_eq_map, Statement.sizeOfAll_map_renumber]
      obtain ⟨statements', error'⟩ := readContents_renumber home skip rest
        (readContent home skip next c).next (readContent home skip next' c).next
        fun k before => by
          rw [sound.next_eq, sound'.next_eq, sameSize, Nat.add_assoc, Nat.add_assoc]
          exact block _ (by omega)
      rw [failed] at error
      simp only [readContents, failed, error]
      refine ⟨?_, error'⟩
      rw [statements, statements', Statement.renumberAll_eq_map, Statement.renumberAll_eq_map,
        Statement.renumberAll_eq_map, List.map_append]
end

theorem readElement_error (name : String) (root : Element) (next next' : Nat) :
    (readElement name next' root).error = (readElement name next root).error := by
  refine (readContent_renumber (ρ := fun i => next' + (i - next)) name none
    (.element root.tag root.content) next next' fun k _ => ?_).2
  rw [Nat.add_sub_cancel_left]

/-- The same text, read at two places. -/
def SameText (s s' : Statement) : Prop :=
  ∀ ρ : Nat → Nat, (∀ k < s.size, ρ (s.id + k) = s'.id + k) → s' = s.renumber ρ

theorem sameText_of_read {root : Element} {name : String} (named : moduleName root.tag = .ok name) {next next' : Nat}
    {s' : Statement} (read : (readElement name next root).statements = [s])
    (read' : (readElement name next' root).statements = [s']) : SameText s s' := by
  intro ρ block
  obtain ⟨t, isRead, id, -⟩ := readElement_module next named
  obtain ⟨t', isRead', id', -⟩ := readElement_module next' named
  cases List.cons.inj (read.symm.trans isRead) |>.1
  cases List.cons.inj (read'.symm.trans isRead') |>.1
  have statements := (readContent_renumber (ρ := ρ) name none (.element root.tag root.content) next next' (by
      rw [← readElement, read, Statement.sizeOfAll_cons, Statement.sizeOfAll_nil, ← id, ← id']
      simpa using block)).1
  rw [← readElement, ← readElement, read, read'] at statements
  exact (List.cons.inj statements).1

theorem SameText.eq_shift {s' : Statement} (same : SameText s s') : s' = s.renumber fun i => s'.id + (i - s.id) :=
  same _ fun k _ => by rw [Nat.add_sub_cancel_left]

theorem SameText.name {s s' : Statement} (same : SameText s s') : s'.name = s.name := by
  rw [same.eq_shift, Statement.renumber_name]

theorem SameText.size {s' : Statement} (same : SameText s s') : s'.size = s.size := by
  rw [same.eq_shift, Statement.renumber_size]

/-! ## Where the trees of a forest stand -/

theorem SameText.imports {s s' : Statement} (same : SameText s s') : s'.imports = s.imports := by
  rw [same.eq_shift, Statement.imports_renumber]

/-- The text stands for a module, and reading it gives that tree. -/
def ReadFrom (text : String) (s : Statement) : Prop :=
  ∃ root name, Element.parse? text = some root ∧ moduleName root.tag = .ok name ∧
    (readElement name s.id root).statements = [s] ∧ (readElement name s.id root).error = none

theorem ReadFrom.sameText {text : String} {s' : Statement} (read : ReadFrom text s) (read' : ReadFrom text s') :
    SameText s s' := by
  obtain ⟨root, name, parsed, named, statements, -⟩ := read
  obtain ⟨root', name', parsed', named', statements', -⟩ := read'
  cases parsed.symm.trans parsed'
  cases named.symm.trans named'
  exact sameText_of_read named statements statements'

/-! ## Adding a text -/

theorem Library.add_ok {text : String} {id : Nat} (added : (library.add text).result = .ok id) :
    ∃ s, ReadFrom text s ∧ s.id = library.next ∧ library.contains s.name = false ∧
      (library.add text).library =
        ⟨library.forest ++ [s], library.modules ++ [(s.name, s.id)], library.attempted⟩ := by
  cases parsed : Element.parse? text with
  | none => simp [Library.add, parsed] at added
  | some root =>
    cases named : moduleName root.tag with
    | error e => simp [Library.add, parsed, Library.addElement, named] at added
    | ok name =>
      obtain ⟨s, statements, number, -, sName⟩ := readElement_module library.next named
      cases failed : (readElement name library.next root).error with
      | some e => simp [Library.add, parsed, Library.addElement, named, failed] at added
      | none =>
        by_cases present : library.contains name = true
        · have still : Library.contains { library with forest := library.forest ++ [s] } name = true := present
          simp [Library.add, parsed, Library.addElement, named, failed, statements, still] at added
        · have still : ¬ Library.contains { library with forest := library.forest ++ [s] } name = true := present
          refine ⟨s, ⟨root, name, parsed, named, number ▸ statements, number ▸ failed⟩, number, ?_, ?_⟩
          · rw [sName]
            exact Bool.eq_false_iff.2 present
          · simp [Library.add, parsed, Library.addElement, named, failed, statements, still, sName, number]

theorem Library.add_error {text : String} {e : SchemaError} (refused : (library.add text).result = .error e) :
    ∃ more, (library.add text).library = { library with forest := library.forest ++ more } := by
  cases parsed : Element.parse? text with
  | none => exact ⟨[], by simp [Library.add, parsed]⟩
  | some root =>
    cases named : moduleName root.tag with
    | error e => exact ⟨[], by simp [Library.add, parsed, Library.addElement, named]⟩
    | ok name =>
      refine ⟨(readElement name library.next root).statements, ?_⟩
      simp only [Library.add, parsed, Library.addElement, named] at refused ⊢
      split
      · rfl
      · split
        · rfl
        · simp_all

/-- Whether a text is refused, and why, depends on the text and on the names of the modules. -/
theorem Library.add_error_iff {library' : Library} (same : ∀ name, library'.contains name = library.contains name)
    (text : String) (e : SchemaError) :
    (library'.add text).result = .error e ↔ (library.add text).result = .error e := by
  cases parsed : Element.parse? text with
  | none => simp only [Library.add, parsed]
  | some root =>
    cases named : moduleName root.tag with
    | error e => simp only [Library.add, parsed, Library.addElement, named]
    | ok name =>
      have sameContains : ∀ l l' : List Statement,
          Library.contains { library' with forest := l' } name = Library.contains { library with forest := l } name :=
        fun _ _ => same name
      simp only [Library.add, parsed, Library.addElement, named,
        readElement_error name root library.next library'.next,
        sameContains (library.forest ++ (readElement name library.next root).statements)]
      split
      · rfl
      · split <;> simp

theorem Library.contains_iff {name : String} : library.contains name = true ↔ name ∈ library.modules.map (·.1) := by
  constructor
  · intro present
    by_contra absent
    have missing : library.modules.lookup name = none :=
      List.lookup_eq_none_iff.2 fun m member => by
        simpa using fun same : name = m.1 => absent (same ▸ List.mem_map_of_mem member)
    rw [Library.contains, missing] at present
    cases present
  · intro member
    by_contra absent
    exact Library.not_mem_of_not_contains (Bool.eq_false_iff.2 absent) member

theorem Statement.Numbered.cons_inv {next : Nat} {rest : List Statement} (numbered : Numbered next (s :: rest)) :
    s.id = next ∧ Numbered (next + s.size) rest := by
  simp only [Numbered, Statement.withinAll_cons, List.map_append, Statement.sizeOfAll_cons,
    ← List.range'_append_1] at numbered
  have lengths : (s.within.map (·.id)).length = (List.range' next s.size).length := by
    rw [List.length_map, List.length_range', Statement.length_within]
  obtain ⟨here, there⟩ := List.append_inj numbered lengths
  refine ⟨?_, there⟩
  rw [Statement.within_eq, Statement.size_eq, Nat.add_comm, List.range'_succ, List.map_cons] at here
  exact (List.cons.inj here).1

section

variable {next : Nat} {l : List Statement} (numbered : Numbered next l)
include numbered

theorem Statement.Numbered.bounds (member : s ∈ l) : next ≤ s.id ∧ s.id + s.size ≤ next + sizeOfAll l := by
  induction l generalizing next with
  | nil => simp at member
  | cons t rest ih =>
    obtain ⟨first, others⟩ := numbered.cons_inv
    rw [Statement.sizeOfAll_cons]
    cases List.mem_cons.1 member with
    | inl isFirst =>
      subst isFirst
      omega
    | inr isLater =>
      have := ih others isLater
      omega

theorem Statement.Numbered.pairwise : l.Pairwise fun s t => s.id + s.size ≤ t.id := by
  induction l generalizing next with
  | nil => exact .nil
  | cons s rest ih =>
    obtain ⟨first, others⟩ := numbered.cons_inv
    refine .cons (fun t member => ?_) (ih others)
    have := (others.bounds member).1
    omega

theorem Statement.Numbered.exists_tree {i : Nat} (low : next ≤ i) (high : i < next + sizeOfAll l) :
    ∃ s ∈ l, s.id ≤ i ∧ i < s.id + s.size := by
  induction l generalizing next with
  | nil =>
    rw [Statement.sizeOfAll_nil] at high
    omega
  | cons s rest ih =>
    obtain ⟨first, others⟩ := numbered.cons_inv
    rw [Statement.sizeOfAll_cons] at high
    by_cases here : i < next + s.size
    · exact ⟨s, List.mem_cons_self, by omega, by omega⟩
    · obtain ⟨t, member, bounds⟩ := ih others (by omega) (by omega)
      exact ⟨t, List.mem_cons_of_mem s member, bounds⟩

end

/-! ## Libraries -/

/-- The imports of a library's module. -/
def Library.importsOf (library : Library) (m : String × Nat) : List Import :=
  ((library.moduleStatement? m.2).map (·.imports)).getD []

theorem Library.Sound.importsOf_eq (sound : library.Sound) {trees : List Statement} (known : trees ⊆ library.forest)
    (modules : library.modules = trees.map fun s => (s.name, s.id)) :
    library.modules.map library.importsOf = trees.map (·.imports) := by
  rw [modules, List.map_map]
  refine List.map_congr_left fun s member => ?_
  simp only [Function.comp_apply, Library.importsOf, Library.moduleStatement?,
    sound.numbered.find?_eq (known member), Option.map_some, Option.getD_some]

/-- Every tree of the first library is a module of it, and the modules of the second one are these, read at
    other places.  `kept` are their trees there, in the order of the first library. -/
structure Library.Embeds (library library' : Library) (kept : List Statement) : Prop where
  sound : library.Sound
  sound' : library'.Sound
  texts : List.Forall₂ SameText library.forest kept
  modules : library.modules = library.forest.map fun s => (s.name, s.id)
  modules' : library'.modules.Perm (kept.map fun s => (s.name, s.id))
  known : kept ⊆ library'.forest

namespace Library.Embeds

variable {library library' : Library} {kept : List Statement} (embeds : library.Embeds library' kept)
include embeds

theorem kept_names_nodup : (kept.map (·.name)).Nodup := by
  have names := (embeds.modules'.map (·.1)).nodup_iff.1 embeds.sound'.names
  simpa [Function.comp_def] using names

end Library.Embeds

/-- The places of trees that have been read twice. -/
def blocksOf (l k : List Statement) : List Block :=
  (l.zip k).map fun p => ⟨p.1.id, p.2.id, p.1.size⟩

theorem blocksOf_apart {l k : List Statement} (texts : List.Forall₂ SameText l k)
    (ordered : l.Pairwise fun s t => s.id + s.size ≤ t.id)
    (apart : k.Pairwise fun s t => s.id + s.size ≤ t.id ∨ t.id + t.size ≤ s.id) :
    (blocksOf l k).Pairwise Block.Apart := by
  rw [blocksOf, List.pairwise_map]
  induction texts with
  | nil => exact .nil
  | @cons s s' rest rest' first others ih =>
    obtain ⟨before, ordered⟩ := List.pairwise_cons.1 ordered
    obtain ⟨away, apart⟩ := List.pairwise_cons.1 apart
    refine .cons (fun p member => ?_) (ih ordered apart)
    obtain ⟨inRest, inRest'⟩ := List.of_mem_zip member
    have here := before p.1 inRest
    have there := away p.2 inRest'
    have sizeS := first.size
    have sizeP := (List.forall₂_zip others member).size
    simp only [Block.Apart]
    omega

namespace Library.Embeds

variable {library library' : Library} {kept : List Statement} (embeds : library.Embeds library' kept)
include embeds

theorem kept_apart : kept.Pairwise fun s t => s.id + s.size ≤ t.id ∨ t.id + t.size ≤ s.id := by
  have nodup : kept.Nodup := List.Nodup.of_map _ embeds.kept_names_nodup
  have inForest : library'.forest.Pairwise fun s t => s.id + s.size ≤ t.id ∨ t.id + t.size ≤ s.id :=
    embeds.sound'.numbered.pairwise.imp .inl
  have symmetric : Std.Symm fun s t : Statement => s.id + s.size ≤ t.id ∨ t.id + t.size ≤ s.id :=
    ⟨fun _ _ => Or.symm⟩
  exact nodup.imp_of_mem fun {s t} inS inT different =>
    inForest.forall (embeds.known inS) (embeds.known inT) different

/-- A renumbering of the statements of the first library to those of the second one. -/
theorem exists_places : ∃ ρ₀ : Nat → Nat, Places ρ₀ library.next library'.next ∧ ρ₀ 0 = 0 ∧
    ∀ ρ : Nat → Nat, (∀ i < library.next, ρ i = ρ₀ i) → kept = library.forest.map (Statement.renumber ρ) := by
  have none : Places (fun i => i) 1 1 := ⟨fun _ _ _ _ same => same, fun _ before => before⟩
  have bounds : ∀ s ∈ library.forest, 1 ≤ s.id ∧ s.id + s.size ≤ library.next := by
    intro s member
    have := embeds.sound.numbered.bounds member
    rw [Library.next]
    omega
  have bounds' : ∀ s ∈ kept, 1 ≤ s.id ∧ s.id + s.size ≤ library'.next := by
    intro s member
    have := embeds.sound'.numbered.bounds (embeds.known member)
    rw [Library.next]
    omega
  obtain ⟨ρ₀, continues, moved⟩ := none.exists_continues
    (blocksOf_apart embeds.texts embeds.sound.numbered.pairwise embeds.kept_apart) fun b member => by
      obtain ⟨p, inZip, rfl⟩ := List.mem_map.1 member
      obtain ⟨inForest, inKept⟩ := List.of_mem_zip inZip
      exact ⟨(bounds p.1 inForest).1, (bounds' p.2 inKept).1⟩
  have block : ∀ p ∈ library.forest.zip kept, ∀ k < p.1.size, ρ₀ (p.1.id + k) = p.2.id + k :=
    fun p member => moved _ (List.mem_map_of_mem member)
  refine ⟨ρ₀, ⟨fun i _ j _ same => continues.injective same, fun i before => ?_⟩,
    continues.before 0 Nat.one_pos, fun ρ agree => ?_⟩
  · by_cases isZero : i < 1
    · rw [continues.before i isZero, Library.next]
      omega
    · rw [Library.next, Nat.add_comm] at before
      obtain ⟨s, member, low, high⟩ := embeds.sound.numbered.exists_tree (by omega) before
      obtain ⟨s', inZip⟩ : ∃ s', (s, s') ∈ library.forest.zip kept := by
        have lengths := embeds.texts.length_eq
        rw [← List.map_fst_zip (Nat.le_of_eq lengths)] at member
        obtain ⟨⟨s, s'⟩, inZip, rfl⟩ := List.mem_map.1 member
        exact ⟨s', inZip⟩
      have inside : i - s.id < s.size := by omega
      have placed := block (s, s') inZip (i - s.id) inside
      have last := (bounds' s' (List.of_mem_zip inZip).2).2
      have sameSize := (List.forall₂_zip embeds.texts inZip).size
      simp only [Nat.add_sub_cancel' low] at placed
      omega
  · have each : List.Forall₂ (fun s s' => s' = s.renumber ρ) library.forest kept := by
      refine List.forall₂_iff_zip.2 ⟨embeds.texts.length_eq, fun {s s'} inZip => ?_⟩
      refine List.forall₂_zip embeds.texts inZip ρ fun k inside => ?_
      have last := (bounds s (List.of_mem_zip inZip).1).2
      rw [agree _ (by omega), block (s, s') inZip k inside]
    have images := List.forall₂_map_left_iff.2 (each.imp fun s s' same => Eq.symm same)
    rw [List.forall₂_eq_eq_eq] at images
    exact images.symm

end Library.Embeds

/-! ## The same names -/

theorem lookup_perm {α : Type} {l k : List (String × α)} (order : l.Perm k) (nodup : (l.map (·.1)).Nodup)
    (key : String) : l.lookup key = k.lookup key := by
  have nodup' : (k.map (·.1)).Nodup := (order.map _).nodup_iff.1 nodup
  cases found : l.lookup key with
  | none =>
    refine (List.lookup_eq_none_iff.2 fun entry member => ?_).symm
    exact List.lookup_eq_none_iff.1 found entry (order.mem_iff.2 member)
  | some value =>
    exact (lookup_eq_some_of_mem nodup' (order.mem_iff.1 (mem_of_lookup_eq_some found))).symm

namespace Library.Embeds

variable {library library' : Library} {kept : List Statement} (embeds : library.Embeds library' kept)
include embeds

theorem directory_modules : library.directory.modules = library.forest.map fun s => (s.name, s) := by
  simp only [Library.directory, embeds.modules, List.filterMap_map, Function.comp_def]
  rw [← List.filterMap_eq_map]
  refine List.filterMap_congr fun s member => ?_
  rw [Library.moduleStatement?, embeds.sound.numbered.find?_eq member]
  rfl

theorem directory_modules' : library'.directory.modules.Perm (kept.map fun s => (s.name, s)) := by
  simp only [Library.directory]
  refine (embeds.modules'.filterMap _).trans ?_
  rw [List.filterMap_map, ← List.filterMap_eq_map]
  refine List.Perm.of_eq (List.filterMap_congr fun s member => ?_)
  simp only [Function.comp_def, Library.moduleStatement?, embeds.sound'.numbered.find?_eq (embeds.known member)]
  rfl

/-- Names mean the same in both libraries. -/
theorem renumbers {ρ : Nat → Nat} (trees : kept = library.forest.map (Statement.renumber ρ)) :
    library.directory.Renumbers ρ library'.directory := by
  have modules : ∀ name, library'.directory.modules.lookup name =
      (library.directory.modules.lookup name).map (Statement.renumber ρ) := by
    intro name
    have nodup : ((kept.map fun s => (s.name, s)).map (·.1)).Nodup := by
      simpa [Function.comp_def] using embeds.kept_names_nodup
    rw [← lookup_perm embeds.directory_modules'.symm nodup, embeds.directory_modules, ← lookup_map_snd, trees]
    simp only [List.map_map, Function.comp_def, Statement.renumber_name]
  refine ⟨modules, fun name => ?_⟩
  rw [Library.qualifiers_lookup, Library.qualifiers_lookup, modules, Option.map_map]
  simp only [Function.comp_def, declaredQualifiers_renumber]

end Library.Embeds

/-! ## Linking -/

section

variable {ε α β : Type} {f : α → Except ε β} {l : List α}

theorem mapM_eq_ok {k : List β} : l.mapM f = .ok k ↔ List.Forall₂ (fun a b => f a = .ok b) l k := by
  induction l generalizing k with
  | nil =>
    rw [List.mapM_nil, List.forall₂_nil_left_iff]
    exact ⟨fun same => (Except.ok.inj same).symm, fun same => same ▸ rfl⟩
  | cons a rest ih =>
    rw [List.mapM_cons]
    cases first : f a with
    | error e =>
      constructor
      · intro same
        cases same
      · intro each
        cases each with
        | cons here _ => cases first.symm.trans here
    | ok b =>
      cases others : rest.mapM f with
      | error e =>
        constructor
        · intro same
          cases same
        · intro each
          cases each with
          | cons _ there => cases others.symm.trans (ih.2 there)
      | ok bs =>
        constructor
        · intro same
          cases same
          exact .cons first (ih.1 others)
        · intro each
          cases each with
          | cons here there =>
            cases first.symm.trans here
            cases others.symm.trans (ih.2 there)
            rfl

theorem exists_mapM_eq_ok : (∃ k, l.mapM f = .ok k) ↔ ∀ a ∈ l, ∃ b, f a = .ok b := by
  constructor
  · intro ⟨k, done⟩ a member
    rw [mapM_eq_ok] at done
    induction done with
    | nil => cases member
    | @cons _ b _ _ here _ ih =>
      cases List.mem_cons.1 member with
      | inl first => exact ⟨b, first ▸ here⟩
      | inr later => exact ih later
  · intro each
    induction l with
    | nil => exact ⟨[], rfl⟩
    | cons a rest ih =>
      obtain ⟨b, here⟩ := each a List.mem_cons_self
      obtain ⟨k, others⟩ := ih fun c member => each c (List.mem_cons_of_mem a member)
      exact ⟨b :: k, mapM_eq_ok.2 (.cons here (mapM_eq_ok.1 others))⟩

theorem mem_of_mapM_eq_ok {k : List β} (done : l.mapM f = .ok k) : ∀ b, b ∈ k ↔ ∃ a ∈ l, f a = .ok b := by
  have each := mapM_eq_ok.1 done
  intro b
  constructor
  · exact exists_left_of_forall₂ each
  · intro ⟨a, member, isResult⟩
    obtain ⟨b', inResults, isResult'⟩ := exists_right_of_forall₂ each member
    cases isResult.symm.trans isResult'
    exact inResults

end

theorem Library.linked_iff {forest : List Statement} :
    (∃ log, (linkAll library.directory [] library.forest).run.run [] = (.ok forest, log)) ↔
      library.forest.mapM (linkTree library.directory) = .ok forest := by
  rw [← linkAll_eq_mapM library.directory library.forest []]
  constructor
  · rintro ⟨log, linked⟩
    rw [linked]
  · intro linked
    exact ⟨_, Prod.ext linked rfl⟩

theorem Library.ExpandsTo.below_forest {forest : List Statement} (way : library.ExpandsTo forest)
    (sound : library.Sound) : ∀ t ∈ withinAll forest, t.Below library.next := by
  have known := sound.read_forest way.same
  intro t member
  have refers := way.refers_forest t member
  refine ⟨(known t member).2.2, fun i isOrigin => ?_, fun i isGrouping => ?_, fun i isTypedef => ?_⟩
  · rw [(known t member).1] at isOrigin
    cases isOrigin
  · obtain ⟨d, inForest, -, isLink⟩ := refers.uses (refers.grouping i isGrouping)
    rw [isGrouping] at isLink
    cases isLink
    exact (known d inForest).2.2
  · obtain ⟨-, d, inForest, -, rfl⟩ := refers.typedef i isTypedef
    exact (known d inForest).2.2

namespace Library.Embeds

variable {library library' : Library} {kept forest forest' : List Statement}

/-- The linked trees of the first library are linked trees of the second one. -/
theorem transplants (embeds : library.Embeds library' kept) {ρ₀ : Nat → Nat}
    (places : Places ρ₀ library.next library'.next) (zero : ρ₀ 0 = 0)
    (trees : kept = library.forest.map (Statement.renumber ρ₀)) (way : library.ExpandsTo forest)
    (way' : library'.ExpandsTo forest') : Transplants ρ₀ forest forest' := by
  have linked := Library.linked_iff.1 ⟨_, way.linked⟩
  have linked' := Library.linked_iff.1 ⟨_, way'.linked⟩
  refine ⟨way.numbered embeds.sound, way'.numbered embeds.sound', ?_, zero, fun t member => ?_, fun s member => ?_⟩
  · rw [← way.next_eq, ← way'.next_eq]
    exact places
  · rw [← way.next_eq]
    exact way.below_forest embeds.sound t member
  · obtain ⟨r, inLibrary, isLinked⟩ := (mem_of_mapM_eq_ok linked s).1 member
    refine (mem_of_mapM_eq_ok linked' _).2 ⟨r.renumber ρ₀, embeds.known ?_, ?_⟩
    · rw [trees]
      exact List.mem_map_of_mem inLibrary
    · rw [linkTree_renumber (embeds.renumbers trees), isLinked]
      rfl

end Library.Embeds

end YangStubs.Schema
