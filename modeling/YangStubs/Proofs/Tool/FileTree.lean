import YangStubs.FileTree
import YangStubs.Proofs.Text.Split

/-! # What writing does to a file tree

A path leads to one place, whatever the tree is, as long as it leads anywhere.  Writing puts a text there and
making a directory only adds directories; all else stays.
-/

namespace YangStubs.FileTree

open YangStubs.Text

variable {name path : String}

variable {tree tree' : FileTree} {here place : List String} {names : List String}

/-- The place that a path leads to, whatever is there. -/
def destination (path : String) : List String :=
  placeFrom (startOf path) (pathNames path)

/-! ## Entries -/

theorem lookup_map_entries (f : List String → Entry → Entry) (entries : List (List String × Entry))
    (p : List String) : (entries.map fun x => (x.1, f x.1 x.2)).lookup p = (entries.lookup p).map (f p) := by
  induction entries with
  | nil => rfl
  | cons first rest ih =>
    obtain ⟨q, e⟩ := first
    rw [List.map_cons, List.lookup_cons, List.lookup_cons]
    by_cases isFirst : p = q
    · simp [isFirst]
    · have passed : (p == q) = false := by simpa using isFirst
      simp only [passed, ih]

theorem lookup_put (tree : FileTree) (place : List String) (entry : Entry) (p : List String) :
    (tree.put place entry).entries.lookup p = if p = place then some entry else tree.entries.lookup p := by
  unfold put
  split
  · rename_i present
    obtain ⟨old, found⟩ := Option.isSome_iff_exists.1 present
    have keyed : (tree.entries.map fun x => if x.1 == place then (x.1, entry) else (x.1, x.2)) =
        tree.entries.map fun x => (x.1, if x.1 == place then entry else x.2) := by
      refine List.map_congr_left fun x _ => ?_
      split <;> rfl
    refine (congrArg (List.lookup p) keyed).trans ?_
    rw [lookup_map_entries fun q e => if q == place then entry else e]
    by_cases isPlace : p = place
    · simp [isPlace, found]
    · simp [isPlace]
  · rename_i absent
    rw [Option.not_isSome_iff_eq_none] at absent
    by_cases isPlace : p = place
    · simp [isPlace, List.lookup_append, absent]
    · have passed : (p == place) = false := by simpa using isPlace
      simp [isPlace, List.lookup_append, List.lookup_cons, passed]

theorem entry?_anchor (tree : FileTree) (anchored : isAnchor place = true) : tree.entry? place = some .directory := by
  rw [ entry?, if_pos anchored]

/-- What is put where no directory is can be found there. -/
theorem entry?_put_self (vacant : tree.entry? place ≠ some .directory) (entry : Entry) :
    entry? (tree.put place entry) place = some entry := by
  have proper : isAnchor place = false :=
    Bool.eq_false_iff.2 fun anchored => vacant (entry?_anchor tree anchored)
  rw [ entry?, proper, lookup_put]
  simp

theorem entry?_put_of_ne {p : List String} (different : p ≠ place) (entry : Entry) :
    entry? (tree.put place entry) p = tree.entry? p := by
  rw [ entry?, entry?, lookup_put, if_neg different]

/-- Where one tree has directories, the other has them as well. -/
def KeepsDirectories (tree tree' : FileTree) : Prop :=
  ∀ p, tree.entry? p = some .directory → tree'.entry? p = some .directory

theorem keepsDirectories_put (vacant : tree.entry? place ≠ some .directory) (entry : Entry) :
    KeepsDirectories tree (tree.put place entry) := by
  intro p directory
  have different : p ≠ place := by
    rintro rfl
    exact vacant directory
  rw [entry?_put_of_ne different, directory]

/-! ## Walking -/

/-- Whether a name in a path stays where it is. -/
def isIdle (name : String) : Bool :=
  name == "" || name == "."

/-- Names lead from one place to another, by directories on the way. -/
inductive Leads (tree : FileTree) : List String → List String → List String → Prop where
  | stop {here : List String} : Leads tree here [] here
  | stay {here place : List String} {name : String} {rest : List String}
      (directory : tree.entry? here = some .directory) (idle : isIdle name = true)
      (later : Leads tree here rest place) : Leads tree here (name :: rest) place
  | up {here place : List String} {rest : List String} (directory : tree.entry? here = some .directory)
      (later : Leads tree (above here) rest place) : Leads tree here (".." :: rest) place
  | down {here place : List String} {name : String} {rest : List String}
      (directory : tree.entry? here = some .directory) (busy : isIdle name ≠ true) (proper : name ≠ "..")
      (short : name.utf8ByteSize ≤ 255) (later : Leads tree (here ++ [name]) rest place) :
      Leads tree here (name :: rest) place

theorem walk_ok_iff : tree.walk here names = .ok place ↔ Leads tree here names place := by
  constructor
  · intro walked
    induction names generalizing here with
    | nil =>
      cases walked
      exact .stop
    | cons name rest ih =>
      rw [walk] at walked
      by_cases directory : tree.entry? here = some .directory
      · rw [if_neg (by simpa using directory)] at walked
        by_cases idle : isIdle name = true
        · rw [if_pos (by exact idle)] at walked
          exact .stay directory idle (ih walked)
        · rw [if_neg (by exact idle)] at walked
          by_cases up : name = ".."
          · subst up
            exact .up directory (ih walked)
          · rw [if_neg (by simpa using up)] at walked
            by_cases long : 255 < name.utf8ByteSize
            · rw [if_pos long] at walked
              cases walked
            · rw [if_neg long] at walked
              exact .down directory idle up (by omega) (ih walked)
      · rw [if_pos (by simpa using directory)] at walked
        cases walked
  · intro leads
    induction leads with
    | stop => rfl
    | stay directory idle _ ih => rw [walk, if_neg (by simpa using directory), if_pos (by exact idle), ih]
    | up directory _ ih =>
      rw [walk, if_neg (by simpa using directory)]
      exact ih
    | down directory busy proper short _ ih =>
      rw [walk, if_neg (by simpa using directory), if_neg (by exact busy),
        if_neg (by simpa using proper), if_neg (by omega), ih]

namespace Leads

/-- Where names lead does not depend on the tree. -/
theorem eq_placeFrom (leads : Leads tree here names place) : place = placeFrom here names := by
  induction leads with
  | stop => rfl
  | stay _ idle _ ih => rw [placeFrom, if_pos (by exact idle), ih]
  | up _ _ ih => exact ih
  | down _ busy proper _ _ ih =>
    rw [placeFrom, if_neg (by exact busy), if_neg (by simpa using proper), ih]

theorem mono (keeps : KeepsDirectories tree tree') (leads : Leads tree here names place) :
    Leads tree' here names place := by
  induction leads with
  | stop => exact .stop
  | stay directory idle _ ih => exact .stay (keeps _ directory) idle ih
  | up directory _ ih => exact .up (keeps _ directory) ih
  | down directory busy proper short _ ih => exact .down (keeps _ directory) busy proper short ih

theorem append {back : List String} {last : List String} (leads : Leads tree here names place)
    (further : Leads tree place back last) : Leads tree here (names ++ back) last := by
  induction leads with
  | stop => exact further
  | stay directory idle _ ih => exact .stay directory idle (ih further)
  | up directory _ ih => exact .up directory (ih further)
  | down directory busy proper short _ ih => exact .down directory busy proper short (ih further)

theorem of_idle {rest : List String} (idle : isIdle name = true) (leads : Leads tree here (name :: rest) place) :
    Leads tree here rest place := by
  cases leads with
  | stay _ _ later => exact later
  | up _ _ => exact absurd idle (by decide)
  | down _ busy _ _ _ => exact absurd idle busy

/-- An empty name at the end does not count. -/
theorem of_append_empty (leads : Leads tree here (names ++ [""]) place) : Leads tree here names place := by
  induction names generalizing here with
  | nil => exact leads.of_idle rfl
  | cons name rest ih =>
    cases leads with
    | stay directory idle later => exact .stay directory idle (ih later)
    | up directory later => exact .up directory (ih later)
    | down directory busy proper short later => exact .down directory busy proper short (ih later)

theorem starts (leads : Leads tree here names place) (ends : tree.entry? place = some .directory) :
    tree.entry? here = some .directory := by
  cases leads with
  | stop => exact ends
  | stay directory _ _ => exact directory
  | up directory _ => exact directory
  | down directory _ _ _ _ => exact directory

/-- Where all directories are there, none has to be made. -/
theorem makeFrom_eq (leads : Leads tree here names place) (ends : tree.entry? place = some .directory) :
    tree.makeFrom here names = .ok tree := by
  induction leads with
  | stop => rfl
  | stay _ idle _ ih => rw [makeFrom, if_pos (by exact idle), ih ends]
  | up _ _ ih => exact ih ends
  | down _ busy proper short later ih =>
    rw [makeFrom, if_neg (by exact busy), if_neg (by simpa using proper), if_neg (by omega)]
    simp only [later.starts ends]
    exact ih ends

end Leads

/-- A path that leads anywhere leads to its destination. -/
theorem place_ok_iff : tree.place path = .ok place ↔
    path.toList.any (·.toNat == 0) = false ∧ path.isEmpty = false ∧
      Leads tree (startOf path) (pathNames path) place := by
  unfold FileTree.place
  cases path.toList.any (·.toNat == 0) with
  | true => simp
  | false =>
    cases path.isEmpty with
    | true => simp
    | false => simpa using walk_ok_iff

theorem place_eq_destination (found : tree.place path = .ok place) : place = destination path :=
  (place_ok_iff.1 found).2.2.eq_placeFrom

theorem place_mono (keeps : KeepsDirectories tree tree') (found : tree.place path = .ok place) :
    tree'.place path = .ok place := by
  obtain ⟨proper, some, leads⟩ := place_ok_iff.1 found
  exact place_ok_iff.2 ⟨proper, some, leads.mono keeps⟩

/-! ## Making directories -/

/-- A place is as it was, or a directory has been made there. -/
def FurnishedAt (tree tree' : FileTree) (p : List String) : Prop :=
  tree'.entry? p = tree.entry? p ∨ tree.entry? p = none ∧ tree'.entry? p = some .directory

theorem FurnishedAt.trans {tree'' : FileTree} {p : List String} (first : FurnishedAt tree tree' p)
    (second : FurnishedAt tree' tree'' p) : FurnishedAt tree tree'' p := by
  rcases first with same | ⟨missing, made⟩
  · rw [FurnishedAt, ← same]
    exact second
  · refine .inr ⟨missing, ?_⟩
    rcases second with same | ⟨absent, -⟩
    · rw [same, made]
    · rw [made] at absent
      cases absent

theorem FurnishedAt.keeps {p : List String} {e : Entry} (furnished : FurnishedAt tree tree' p)
    (found : tree.entry? p = some e) : tree'.entry? p = some e := by
  rcases furnished with same | ⟨missing, -⟩
  · rw [same, found]
  · rw [found] at missing
    cases missing

/-- A tree has all that another one has, and only directories besides. -/
def Furnishes (tree tree' : FileTree) : Prop :=
  ∀ p, FurnishedAt tree tree' p

theorem Furnishes.refl (tree : FileTree) : Furnishes tree tree :=
  fun _ => .inl rfl

theorem Furnishes.trans {tree'' : FileTree} (first : Furnishes tree tree') (second : Furnishes tree' tree'') :
    Furnishes tree tree'' :=
  fun p => (first p).trans (second p)

theorem Furnishes.put (missing : tree.entry? place = none) : Furnishes tree (tree.put place .directory) := by
  intro p
  by_cases isPlace : p = place
  · subst isPlace
    exact .inr ⟨missing, entry?_put_self (by simp [missing]) _⟩
  · exact .inl (entry?_put_of_ne isPlace _)

/-- A place with directories all the way from the start. -/
def Stands (tree : FileTree) (here : List String) : Prop :=
  ∀ k, tree.entry? (here.take k) = some .directory

theorem Stands.self (stands : Stands tree here) : tree.entry? here = some .directory := by
  simpa using stands here.length

theorem Stands.above (stands : Stands tree here) : Stands tree (FileTree.above here) := by
  intro k
  unfold FileTree.above
  split
  · exact stands k
  · split
    · -- Above the working directory there are directories only.
      rename_i anchored
      have anchors : isAnchor ((here ++ [".."]).take k) = true := by
        simp only [isAnchor, Bool.or_eq_true, List.all_eq_true]
        refine .inl fun name member => ?_
        rcases List.mem_append.1 (List.mem_of_mem_take member) with own | last
        · exact List.all_eq_true.1 anchored name own
        · simpa using last
      exact entry?_anchor tree anchors
    · rw [List.dropLast_eq_take, List.take_take]
      exact stands _

theorem Stands.down (stands : Stands tree here) (directory : tree.entry? (here ++ [name]) = some .directory) :
    Stands tree (here ++ [name]) := by
  intro k
  rw [List.take_append]
  by_cases before : k ≤ here.length
  · rw [Nat.sub_eq_zero_of_le before, List.take_zero, List.append_nil]
    exact stands k
  · rw [List.take_of_length_le (by omega), List.take_of_length_le (by simp; omega)]
    exact directory

theorem Stands.mono (furnishes : Furnishes tree tree') (stands : Stands tree here) : Stands tree' here :=
  fun k => (furnishes _).keeps (stands k)

/-- Making a directory only adds directories, and then the path leads to it. -/
theorem makeFrom_ok (made : tree.makeFrom here names = .ok tree') :
    Furnishes tree tree' ∧ (Stands tree here →
      Leads tree' here names (placeFrom here names) ∧ Stands tree' (placeFrom here names)) := by
  induction names generalizing tree here with
  | nil =>
    cases made
    exact ⟨.refl _, fun stands => ⟨.stop, stands⟩⟩
  | cons name rest ih =>
    rw [makeFrom] at made
    rw [placeFrom]
    by_cases idle : isIdle name = true
    · rw [if_pos (by exact idle)] at made ⊢
      obtain ⟨furnishes, later⟩ := ih made
      refine ⟨furnishes, fun stands => ?_⟩
      exact ⟨.stay (stands.mono furnishes).self idle (later stands).1, (later stands).2⟩
    rw [if_neg (by exact idle)] at made ⊢
    by_cases up : name = ".."
    · subst up
      obtain ⟨furnishes, later⟩ := ih made
      refine ⟨furnishes, fun stands => ?_⟩
      exact ⟨.up (stands.mono furnishes).self (later stands.above).1, (later stands.above).2⟩
    rw [if_neg (by simpa using up)] at made ⊢
    by_cases long : 255 < name.utf8ByteSize
    · rw [if_pos long] at made
      cases made
    rw [if_neg long] at made
    -- A name of its own: the directory is made, or it is there already.
    have step (middle : FileTree) (first : Furnishes tree middle)
        (directory : middle.entry? (here ++ [name]) = some .directory)
        (made : middle.makeFrom (here ++ [name]) rest = .ok tree') :
        Furnishes tree tree' ∧ (Stands tree here →
          Leads tree' here (name :: rest) (placeFrom (here ++ [name]) rest) ∧
          Stands tree' (placeFrom (here ++ [name]) rest)) := by
      obtain ⟨furnishes, later⟩ := ih made
      refine ⟨first.trans furnishes, fun stands => ?_⟩
      obtain ⟨leads, ends⟩ := later ((stands.mono first).down directory)
      exact ⟨.down ((stands.mono first).mono furnishes).self idle up (by omega) leads, ends⟩
    dsimp only at made
    cases found : tree.entry? (here ++ [name]) with
    | none =>
      rw [found] at made
      exact step _ (.put found) (entry?_put_self (by simp [found]) _) made
    | some e =>
      rw [found] at made
      cases e with
      | directory => exact step tree (.refl tree) found made
      | text _ => cases made
      | binary => cases made

theorem stands_startOf (tree : FileTree) (path : String) : Stands tree (startOf path) := by
  intro k
  have anchors : isAnchor ((startOf path).take k) = true := by
    unfold startOf
    split
    · cases k with
      | zero => rfl
      | succ k => simp [isAnchor]
    · rw [List.take_nil]
      rfl
  exact entry?_anchor tree anchors

theorem makeDirectory_ok (made : tree.makeDirectory path = .ok tree') :
    Furnishes tree tree' ∧ Leads tree' (startOf path) (pathNames path) (destination path) ∧
      Stands tree' (destination path) := by
  unfold makeDirectory at made
  split at made
  · cases made
  · split at made
    · rename_i empty
      cases made
      obtain rfl : path = "" := by simpa using empty
      exact ⟨.refl _, .stay (stands_startOf _ "").self rfl .stop, stands_startOf _ ""⟩
    · obtain ⟨furnishes, leads⟩ := makeFrom_ok made
      exact ⟨furnishes, leads (stands_startOf tree path)⟩

/-- A directory that is there does not have to be made. -/
theorem makeDirectory_eq (proper : path.toList.any (·.toNat == 0) = false)
    (leads : Leads tree (startOf path) (pathNames path) place) (ends : tree.entry? place = some .directory) :
    tree.makeDirectory path = .ok tree := by
  unfold makeDirectory
  rw [proper, leads.makeFrom_eq ends]
  simp

/-! ## Reading and writing -/

theorem read_ok_iff {content : String} : tree.read path = .ok content ↔
    tree.place path = .ok (destination path) ∧ tree.entry? (destination path) = some (.text content) := by
  unfold FileTree.read
  cases found : tree.place path with
  | error e => simp [bind, Except.bind]
  | ok place =>
    obtain rfl := place_eq_destination found
    cases stands : tree.entry? (destination path) with
    | none => simp [bind, Except.bind, stands]
    | some e => cases e <;> simp [bind, Except.bind, stands]

theorem write_ok {content : String} (written : tree.write path content = .ok tree') :
    tree.place path = .ok (destination path) ∧ tree.entry? (destination path) ≠ some .directory ∧
      tree' = tree.put (destination path) (.text content) := by
  unfold FileTree.write at written
  cases found : tree.place path with
  | error e =>
    rw [found] at written
    cases written
  | ok place =>
    obtain rfl := place_eq_destination found
    simp only [found, bind, Except.bind] at written
    split at written
    · cases written
    · rename_i other
      split at written
      · cases written
        exact ⟨rfl, other, rfl⟩
      · cases written

theorem write_eq {content : String} (found : tree.place path = .ok place)
    (vacant : tree.entry? place ≠ some .directory) (above : tree.entry? place.dropLast = some .directory) :
    tree.write path content = .ok (tree.put place (.text content)) := by
  unfold FileTree.write
  simp only [found, bind, Except.bind]
  rw [if_pos (by simpa using above)]

/-! ## Paths below a directory -/

/-- A name that is one step down. -/
structure IsFileName (name : String) : Prop where
  free : ∀ c ∈ name.toList, c ≠ '/'
  busy : isIdle name ≠ true
  proper : name ≠ ".."

theorem pathNames_of_free (free : ∀ c ∈ name.toList, c ≠ '/') : pathNames name = [name] := by
  unfold pathNames
  rw [splitBy_of_free (by simpa using free)]
  simp

theorem pathNames_of_slash {before : List Char} (cut : path.toList = before ++ '/' :: name.toList) :
    pathNames path = (splitBy (· == '/') before).map String.ofList ++ pathNames name := by
  rw [pathNames, cut, splitBy_append rfl, List.map_append, pathNames]

theorem startOf_append {directory : String} (some : directory ≠ "") (name : String) :
    startOf (directory ++ name) = startOf directory := by
  have present : directory.toList ≠ [] := by simpa using some
  obtain ⟨c, rest, starts⟩ := List.exists_cons_of_ne_nil present
  rw [startOf, startOf, isAbsolute, isAbsolute, String.toList_append, starts]
  rfl

/-- Below a directory stand the names of its path, but for an empty one at the end, and the name. -/
theorem join_names (directory : String) (named : IsFileName name) :
    startOf (join directory name) = startOf directory ∧
      ∃ front, pathNames (join directory name) = front ++ [name] ∧
        (pathNames directory = front ∨ pathNames directory = front ++ [""]) := by
  have relative : isAbsolute name = false := by
    cases starts : name.toList with
    | nil => simp [isAbsolute, starts]
    | cons c rest => simpa [isAbsolute, starts] using named.free c (by simp [starts])
  unfold join
  rw [relative, Bool.false_or]
  by_cases empty : directory = ""
  · subst empty
    refine ⟨?_, [], pathNames_of_free named.free, .inr rfl⟩
    rw [if_pos (by rfl), startOf, relative]
    rfl
  rw [if_neg (by simpa using empty)]
  -- A slash at the end of the directory is not doubled; it stands for an empty name in the directory's path.
  by_cases slash : directory.toList.getLast? = some '/'
  · obtain ⟨before, cut⟩ := List.getLast?_eq_some_iff.1 slash
    rw [if_pos (by simpa using slash)]
    refine ⟨startOf_append empty name, (splitBy (· == '/') before).map String.ofList, ?_, .inr ?_⟩
    · rw [pathNames_of_slash (by simp [cut]; rfl), pathNames_of_free named.free]
    · exact pathNames_of_slash (show directory.toList = before ++ '/' :: "".toList by simp [cut])
  · rw [if_neg (by simpa using slash)]
    refine ⟨by rw [String.append_assoc, startOf_append empty], pathNames directory, ?_, .inl rfl⟩
    rw [pathNames_of_slash (by simp; rfl), pathNames_of_free named.free, pathNames]

theorem placeFrom_append (front back : List String) :
    placeFrom here (front ++ back) = placeFrom (placeFrom here front) back := by
  fun_induction placeFrom here front with
  | case1 => rfl
  | case2 here name rest idle ih => rw [List.cons_append, placeFrom, if_pos idle, ih]
  | case3 here name rest busy up ih => rw [List.cons_append, placeFrom, if_neg busy, if_pos up, ih]
  | case4 here name rest busy proper ih => rw [List.cons_append, placeFrom, if_neg busy, if_neg proper, ih]

theorem destination_join (directory : String) (named : IsFileName name) :
    destination (join directory name) = destination directory ++ [name] := by
  obtain ⟨starts, front, names, isFront⟩ := join_names directory named
  have step : ∀ place, placeFrom place [name] = place ++ [name] := by
    intro place
    rw [placeFrom, if_neg (by exact named.busy), if_neg (by simpa using named.proper)]
    rfl
  rw [destination, destination, starts, names, placeFrom_append, step]
  rcases isFront with same | more
  · rw [same]
  · rw [more, placeFrom_append]
    rfl

section

variable {directory name : String} (leads : Leads tree (startOf directory) (pathNames directory) place)
  (ends : tree.entry? place = some .directory) (named : IsFileName name) (short : name.utf8ByteSize ≤ 255)
include leads ends named short

theorem leads_join :
    Leads tree (startOf (join directory name)) (pathNames (join directory name)) (place ++ [name]) := by
  obtain ⟨starts, front, names, isFront⟩ := join_names directory named
  have toFront : Leads tree (startOf directory) front place := by
    rcases isFront with same | more
    · rwa [same] at leads
    · rw [more] at leads
      exact leads.of_append_empty
  rw [starts, names]
  exact toFront.append (.down ends named.busy named.proper short .stop)

/-- A path below a directory can be looked up if its parts can. -/
theorem place_join (proper : directory.toList.any (·.toNat == 0) = false)
    (properName : name.toList.any (·.toNat == 0) = false) :
    tree.place (join directory name) = .ok (place ++ [name]) := by
  refine place_ok_iff.2 ⟨?_, ?_, leads_join leads ends named short⟩
  · unfold join
    split
    · exact properName
    · split
      · simp [proper, properName]
      · simp [proper, properName]
  · have some : name ≠ "" := by
      rintro rfl
      exact named.busy rfl
    unfold join
    split
    · simpa using some
    · split
      · simp [some]
      · simp

end

end YangStubs.FileTree
