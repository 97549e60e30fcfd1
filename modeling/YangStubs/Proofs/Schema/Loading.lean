import YangStubs.Proofs.Schema.Numbering
import YangStubs.Schema.Resolved

/-! # What holds of every library

Whatever texts are added to a library, refused ones included, and whatever sources add to it later, its
statements are numbered from 1 on without gaps, nothing in it is linked yet, and its modules are statements
of it with different names.
-/

namespace YangStubs.Schema

open YangStubs.Markup
open Statement (withinAll Numbered sizeOfAll)

/-! ## Reading -/

/-- A statement as it is read: without links, and made from nothing else. -/
def Statement.IsPlain (s : Statement) : Prop :=
  s.origin = none ∧ s.grouping = none ∧ s.typedef = none

/-- What reading from `next` on leaves behind. -/
structure Reading.Sound (next : Nat) (reading : Reading) : Prop where
  numbered : Numbered next reading.statements
  next_eq : reading.next = next + sizeOfAll reading.statements
  plain : ∀ s ∈ withinAll reading.statements, s.IsPlain

theorem Reading.sound_nothing (next : Nat) (error : Option SchemaError) : Reading.Sound next ⟨[], next, error⟩ :=
  ⟨Statement.numbered_nil next, rfl, by simp⟩

theorem Reading.Sound.wrap {next : Nat} {inner : Reading} (sound : inner.Sound (next + 1))
    (keyword : String) (arg : Option String) (home : String) :
    Reading.Sound next
      ⟨[⟨next, keyword, arg, home, none, none, none, inner.statements⟩], inner.next, inner.error⟩ where
  numbered := Statement.numbered_cons rfl sound.numbered (Statement.numbered_nil _)
  next_eq := by
    simp only [sound.next_eq, Statement.sizeOfAll_cons, Statement.size_eq, Statement.sizeOfAll_nil]
    omega
  plain := by
    intro s member
    simp only [Statement.withinAll_cons, Statement.within_eq, Statement.withinAll_nil,
      List.append_nil, List.mem_cons] at member
    rcases member with rfl | member
    · exact ⟨rfl, rfl, rfl⟩
    · exact sound.plain s member

theorem Reading.Sound.append {next : Nat} {first others : Reading} (sound : first.Sound next)
    (rest : others.Sound first.next) :
    Reading.Sound next ⟨first.statements ++ others.statements, others.next, others.error⟩ where
  numbered := sound.numbered.append (sound.next_eq ▸ rest.numbered)
  next_eq := by
    simp only [rest.next_eq, sound.next_eq, Statement.sizeOfAll_append]
    omega
  plain := by
    intro s member
    simp only [Statement.withinAll_append, List.mem_append] at member
    exact member.elim (sound.plain s) (rest.plain s)

mutual
theorem readContent_sound (home : String) (skip : Option String) (next : Nat) :
    ∀ c : Content, (readContent home skip next c).Sound next
  | .text _ => by
    simp only [readContent]
    exact Reading.sound_nothing next none
  | .element tag content => by
    simp only [readContent]
    split
    · exact Reading.sound_nothing next none
    · split
      · exact Reading.sound_nothing next _
      · exact (readContents_sound home _ (next + 1) content).wrap _ _ _

/-- Reading numbers the statements from `next` on, up to where it stops. -/
theorem readContents_sound (home : String) (skip : Option String) (next : Nat) :
    ∀ cs : List Content, (readContents home skip next cs).Sound next
  | [] => by
    simp only [readContents]
    exact Reading.sound_nothing next none
  | c :: rest => by
    simp only [readContents]
    split
    · exact readContent_sound home skip next c
    · exact (readContent_sound home skip next c).append (readContents_sound home skip _ rest)
end

/-- The root element of a module gives the statement of the module, wherever reading stops inside it. -/
theorem readElement_module {root : Element} {name : String} (next : Nat)
    (named : moduleName root.tag = .ok name) :
    ∃ s : Statement, (readElement name next root).statements = [s] ∧ s.id = next ∧
      s.keyword = "module" ∧ s.name = name := by
  unfold moduleName at named
  split at named
  case isFalse => split at named <;> simp at named
  case isTrue isModule =>
    simp only [Tag.isNamed, Bool.and_eq_true, beq_iff_eq] at isModule
    obtain ⟨space, tagName⟩ := isModule
    split at named
    case h_2 => simp at named
    case h_1 found =>
      cases named
      have form : (argumentForm? "module").bind id = some ⟨"name", false⟩ := by decide
      have heading_eq : heading name root.tag root.content = .ok ⟨"module", some name, none⟩ := by
        simp only [heading, space, tagName, beq_self_eq_true, if_true, headingWith, form, found]
        rfl
      simp only [readElement, readContent, Option.any_none, heading_eq]
      exact ⟨_, rfl, rfl, rfl, rfl⟩

/-! ## Libraries -/

/-- What holds of a library at any time. -/
structure Library.Sound (library : Library) : Prop where
  numbered : Numbered 1 library.forest
  plain : ∀ s ∈ withinAll library.forest, s.IsPlain
  modules : ∀ m ∈ library.modules, ∃ s ∈ library.forest, s.id = m.2 ∧ s.keyword = "module" ∧ s.name = m.1
  names : (library.modules.map (·.1)).Nodup

theorem Library.sound_empty : Library.empty.Sound :=
  ⟨rfl, by simp [Library.empty], by simp [Library.empty], by simp [Library.empty]⟩

/-- The library with the statements of a reading, which may have ended early. -/
theorem Library.Sound.read {library : Library} (sound : library.Sound) {reading : Reading}
    (read : reading.Sound library.next) :
    Library.Sound { library with forest := library.forest ++ reading.statements } where
  numbered := by
    refine sound.numbered.append ?_
    rw [Nat.add_comm]
    exact read.numbered
  plain := by
    intro s member
    simp only [Statement.withinAll_append, List.mem_append] at member
    exact member.elim (sound.plain s) (read.plain s)
  modules := by
    intro m member
    obtain ⟨s, inForest, facts⟩ := sound.modules m member
    exact ⟨s, List.mem_append_left _ inForest, facts⟩
  names := sound.names

theorem Library.not_mem_of_not_contains {library : Library} {name : String}
    (absent : library.contains name = false) : name ∉ library.modules.map (·.1) := by
  intro member
  obtain ⟨m, inModules, rfl⟩ := List.mem_map.1 member
  simp only [Library.contains, Option.isSome_eq_false_iff, Option.isNone_iff_eq_none,
    List.lookup_eq_none_iff] at absent
  simpa using absent m inModules

theorem Library.Sound.addElement {library : Library} (sound : library.Sound) (root : Element) :
    (library.addElement root).library.Sound := by
  unfold Library.addElement
  split
  · exact sound
  · rename_i name named
    have read := sound.read (readContent_sound name none library.next (.element root.tag root.content))
    simp only
    split
    · exact read
    · split
      · exact read
      · rename_i absent
        obtain ⟨s, statements, id, keyword, sName⟩ := readElement_module library.next named
        refine ⟨read.numbered, read.plain, ?_, ?_⟩
        · intro m member
          rcases List.mem_append.1 member with old | new
          · exact read.modules m old
          · cases List.mem_singleton.1 new
            refine ⟨s, List.mem_append_right _ ?_, id, keyword, sName⟩
            rw [statements]
            exact List.mem_singleton_self s
        · have fresh := Library.not_mem_of_not_contains (by simpa using absent)
          simp only [List.map_append, List.map_cons, List.map_nil]
          exact List.nodup_append.2 ⟨read.names, by simp, by
            intro a old b new equal
            cases List.mem_singleton.1 new
            exact fresh (equal ▸ old)⟩

theorem Library.Sound.add {library : Library} (sound : library.Sound) (text : String) :
    (library.add text).library.Sound := by
  unfold Library.add
  split
  · exact sound
  · exact sound.addElement _

/-- The library after adding texts one by one, whether or not each is accepted. -/
def Library.ofTexts (texts : List String) : Library :=
  texts.foldl (fun library text => (library.add text).library) Library.empty

theorem Library.sound_ofTexts (texts : List String) : (Library.ofTexts texts).Sound := by
  suffices steps : ∀ library : Library, library.Sound →
      (texts.foldl (fun library text => (library.add text).library) library).Sound from
    steps _ Library.sound_empty
  induction texts with
  | nil => exact fun _ sound => sound
  | cons text rest ih => exact fun library sound => ih _ (sound.add text)

/-! ## Loading imports -/

section Loading

variable {P : Library → Prop} (files : FileTree)
  (added : ∀ library text, P library → P (Library.add library text).library)
  (asked : ∀ (library : Library) names, P library → P { library with attempted := names })
include added

theorem Loading.accept_keeps {loading : Loading} (holds : P loading.library) (i : Import)
    (text : String) : P (loading.accept i text).library := by
  have step := added _ text holds
  unfold Loading.accept
  simp only
  split
  · exact step
  · split <;> exact step

theorem Loading.askFrom_keeps (i : Import) (sources : List Source) :
    ∀ (failure : SourceError) (position : Nat) {loading : Loading}, P loading.library →
      P (Loading.askFrom files i failure position loading sources).library := by
  induction sources with
  | nil => exact fun _ _ _ holds => holds
  | cons source rest ih =>
    intro failure position loading holds
    unfold Loading.askFrom
    simp only
    split
    · exact Loading.accept_keeps added (by exact holds) i _
    · exact ih failure _ holds
    · exact ih _ _ holds

include asked

theorem Loading.loadImports_keeps (sources : List Source) (imports : List Import) :
    ∀ {loading : Loading}, P loading.library → P (Loading.loadImports sources files loading imports).library := by
  induction imports with
  | nil => exact fun holds => holds
  | cons i rest ih =>
    intro loading holds
    unfold Loading.loadImports
    split
    · exact holds
    · split
      · exact ih holds
      · exact ih (Loading.askFrom_keeps files added i sources _ _ (asked _ _ holds))

theorem Loading.loadFrom_keeps (sources : List Source) :
    ∀ (bound position : Nat) {loading : Loading}, P loading.library →
      P (Loading.loadFrom sources files bound position loading).library := by
  intro bound
  induction bound with
  | zero => exact fun _ _ holds => holds
  | succ bound ih =>
    intro position loading holds
    unfold Loading.loadFrom
    split
    · exact holds
    · split
      · exact holds
      · exact ih _ (Loading.loadImports_keeps files added asked sources _ holds)

/-- What adding keeps up holds after loading all imports. -/
theorem Library.loadAll_keeps (sources : List Source) {library : Library} (holds : P library) :
    P (library.loadAll sources files).library :=
  Loading.loadFrom_keeps files added asked sources _ 0 (by exact holds)

end Loading

theorem Library.Sound.loadAll {library : Library} (sound : library.Sound) (sources : List Source)
    (files : FileTree) : (library.loadAll sources files).library.Sound :=
  Library.loadAll_keeps files (fun _ text sound => sound.add text)
    (fun _ _ sound => ⟨sound.numbered, sound.plain, sound.modules, sound.names⟩) sources sound

theorem Library.resolve_result (library : Library) (sources : List Source) (files : FileTree) :
    (library.resolve sources files).result = match (library.loadAll sources files).error with
      | some e => .error e
      | none => (library.loadAll sources files).library.link.result := by
  rw [Library.resolve]
  cases (library.loadAll sources files).error <;> rfl

theorem Library.link_loadAll {library : Library} {sources : List Source} {files : FileTree} {schema : Resolved}
    (resolved : (library.resolve sources files).result = .ok schema) :
    (library.loadAll sources files).library.link.result = .ok schema := by
  rw [Library.resolve_result] at resolved
  split at resolved
  · cases resolved
  · exact resolved

theorem Library.resolve_eq_link {library : Library} {sources : List Source} {files : FileTree}
    {schema : Resolved} (sound : library.Sound)
    (resolved : (library.resolve sources files).result = .ok schema) :
    ∃ loaded : Library, loaded.Sound ∧ loaded.link.result = .ok schema :=
  ⟨_, sound.loadAll sources files, Library.link_loadAll resolved⟩

end YangStubs.Schema
