import YangStubs.Proofs.Schema.DataTree
import YangStubs.Proofs.Schema.Scoping
import YangStubs.Proofs.Text.Split

/-! # The targets of leafrefs

A leafref whose path goes up and then down, or down from a module, has a target only if climbing from the
target passes the names of the path in reverse and ends where the path starts.
-/

namespace YangStubs.Schema

open YangStubs.Text

/-! ## Paths as texts -/

/-- Some steps up from a leaf, then down by names. -/
def DataPath.fromLeaf (up : Nat) (names : List (Option String × String)) : DataPath :=
  ⟨false, List.replicate up .up ++ names.map fun x => .down x.1 x.2⟩

/-- Down from a module by names. -/
def DataPath.fromModule (names : List (Option String × String)) : DataPath :=
  ⟨true, names.map fun x => .down x.1 x.2⟩

/-- A step as it is written. -/
def Step.text : Step → List Char
  | .up => ['.', '.']
  | .down none name => name.toList
  | .down (some qualifier) name => qualifier.toList ++ ':' :: name.toList

/-- A path as it is written. -/
def DataPath.text (path : DataPath) : List Char :=
  (if path.absolute then ['/'] else []) ++ joinWith ['/'] (path.steps.map Step.text)

/-- A character that has no meaning of its own in a path. -/
def isPlainInPath (c : Char) : Bool :=
  !(c == '/' || c == '[' || c == ']' || c == ':' || isBlank c)

/-- A step whose names can be told from the signs of a path. -/
def Step.IsPlain : Step → Prop
  | .up => True
  | .down none name => name ≠ "" ∧ name ≠ ".." ∧ ∀ c ∈ name.toList, isPlainInPath c
  | .down (some qualifier) name => ∀ c ∈ qualifier.toList ++ name.toList, isPlainInPath c

instance : DecidablePred Step.IsPlain
  | .up => isTrue trivial
  | .down none name =>
    decidable_of_iff (name ≠ "" ∧ name ≠ ".." ∧ name.toList.all isPlainInPath)
      (by simp only [Step.IsPlain, List.all_eq_true])
  | .down (some qualifier) name =>
    decidable_of_iff ((qualifier.toList ++ name.toList).all isPlainInPath)
      (by simp only [Step.IsPlain, List.all_eq_true])

theorem dropWhile_of_all_false {p : Char → Bool} {cs : List Char} (free : ∀ c ∈ cs, p c = false) :
    cs.dropWhile p = cs := by
  cases cs with
  | nil => rfl
  | cons c rest => rw [List.dropWhile_cons_of_neg (by simp [free c List.mem_cons_self])]

theorem trim_of_free {cs : List Char} (free : ∀ c ∈ cs, isBlank c = false) : trim cs = cs := by
  rw [trim, trimStart, dropWhile_of_all_false free, dropEndWhile,
    dropWhile_of_all_false fun c member => free c (List.mem_reverse.1 member), List.reverse_reverse]

theorem cutAt?_of_free {sep : Char} {cs : List Char} (free : ∀ c ∈ cs, c ≠ sep) : cutAt? sep cs = none := by
  induction cs with
  | nil => rfl
  | cons c rest ih =>
    obtain ⟨first, others⟩ := List.forall_mem_cons.1 free
    rw [cutAt?, ih others]
    simp [first]

theorem cutAt?_append {sep : Char} {before : List Char} (free : ∀ c ∈ before, c ≠ sep) (after : List Char) :
    cutAt? sep (before ++ sep :: after) = some (before, after) := by
  induction before with
  | nil => simp [cutAt?]
  | cons c rest ih =>
    obtain ⟨first, others⟩ := List.forall_mem_cons.1 free
    rw [List.cons_append, cutAt?, ih others]
    simp [first]

theorem isPlainInPath_iff {c : Char} :
    isPlainInPath c = true ↔ c ≠ '/' ∧ c ≠ '[' ∧ c ≠ ']' ∧ c ≠ ':' ∧ isBlank c = false := by
  simp only [isPlainInPath, Bool.not_eq_true', Bool.or_eq_false_iff, beq_eq_false_iff_ne, ne_eq, and_assoc]

namespace Step.IsPlain

variable {step : Step}

theorem text_chars (plain : step.IsPlain) : ∀ c ∈ step.text, c ≠ '/' ∧ isBlank c = false := by
  have dot : '.' ≠ '/' ∧ isBlank '.' = false := by decide
  have colon : ':' ≠ '/' ∧ isBlank ':' = false := by decide
  have ofPlain : ∀ {c}, isPlainInPath c = true → c ≠ '/' ∧ isBlank c = false := fun isPlain =>
    have chars := isPlainInPath_iff.1 isPlain
    ⟨chars.1, chars.2.2.2.2⟩
  cases step with
  | up => simpa [text] using dot
  | down qualifier name =>
    cases qualifier with
    | none => exact fun c member => ofPlain (plain.2.2 c member)
    | some qualifier =>
      obtain ⟨before, after⟩ := List.forall_mem_append.1 plain
      refine List.forall_mem_append.2 ⟨fun c member => ofPlain (before c member), ?_⟩
      exact List.forall_mem_cons.2 ⟨colon, fun c member => ofPlain (after c member)⟩

theorem text_ne_nil (plain : step.IsPlain) : step.text ≠ [] := by
  cases step with
  | up => exact List.cons_ne_nil _ _
  | down qualifier name =>
    cases qualifier with
    | none => exact fun empty => plain.1 (String.toList_eq_nil_iff.1 empty)
    | some qualifier => exact List.append_ne_nil_of_right_ne_nil _ (List.cons_ne_nil _ _)

theorem stepOf_text (plain : step.IsPlain) : stepOf step.text = step := by
  cases step with
  | up => rfl
  | down qualifier name =>
    have noColon : ∀ {cs : List Char}, (∀ c ∈ cs, isPlainInPath c = true) → ∀ c ∈ cs, c ≠ ':' :=
      fun isPlain c member => (isPlainInPath_iff.1 (isPlain c member)).2.2.2.1
    cases qualifier with
    | none =>
      have notUp : (name.toList == ['.', '.']) = false := by
        refine beq_eq_false_iff_ne.2 fun same => plain.2.1 ?_
        rw [← String.ofList_toList (s := name), same]
      rw [text, stepOf, notUp, splitQualifier, String.toList_ofList, cutAt?_of_free (noColon plain.2.2),
        String.ofList_toList]
      rfl
    | some qualifier =>
      obtain ⟨before, -⟩ := List.forall_mem_append.1 plain
      have notUp : (qualifier.toList ++ ':' :: name.toList == ['.', '.']) = false := by
        refine beq_eq_false_iff_ne.2 fun same => ?_
        have colon : ':' ∈ ['.', '.'] := same ▸ List.mem_append_right _ List.mem_cons_self
        exact absurd colon (by decide)
      rw [text, stepOf, notUp, splitQualifier, String.toList_ofList, cutAt?_append (noColon before)]
      simp

end Step.IsPlain

namespace DataPath

variable {steps : List Step}

section

variable (plain : ∀ step ∈ steps, step.IsPlain) (absolute : Bool)
include plain absolute

theorem text_free : ∀ c ∈ text ⟨absolute, steps⟩, isBlank c = false := by
  have slash : isBlank '/' = false := by decide
  refine List.forall_mem_append.2 ⟨by cases absolute <;> simp [slash], ?_⟩
  refine forall_mem_joinWith (List.forall_mem_singleton.2 slash) _ fun piece isPiece c member => ?_
  obtain ⟨step, inPath, rfl⟩ := List.mem_map.1 isPiece
  exact ((plain step inPath).text_chars c member).2

/-- Cutting at the slashes gives the steps as they are written, and perhaps empty pieces. -/
theorem segments_text : (splitBy (· == '/') (text ⟨absolute, steps⟩)).filter (!·.isEmpty) = steps.map Step.text := by
  have cut : (splitBy (· == '/') (joinWith ['/'] (steps.map Step.text))).filter (!·.isEmpty) =
      steps.map Step.text := by
    cases steps with
    | nil => rfl
    | cons first rest =>
      rw [splitBy_joinWith (by simp) (by simp)]
      · refine List.filter_eq_self.2 fun piece isPiece => ?_
        obtain ⟨step, inPath, rfl⟩ := List.mem_map.1 isPiece
        simpa using (plain step inPath).text_ne_nil
      · intro piece isPiece c member
        obtain ⟨step, inPath, rfl⟩ := List.mem_map.1 isPiece
        simpa using ((plain step inPath).text_chars c member).1
  cases absolute with
  | false => exact cut
  | true =>
    rw [text, if_pos rfl, List.singleton_append, splitBy_cons_of_sep (by simp)]
    exact cut

theorem head?_text : ((text ⟨absolute, steps⟩).head? == some '/') = absolute := by
  cases absolute with
  | true => rfl
  | false =>
    cases steps with
    | nil => rfl
    | cons first rest =>
      have isPlain := plain first List.mem_cons_self
      obtain ⟨c, cs, isText⟩ := List.exists_cons_of_ne_nil isPlain.text_ne_nil
      have notSlash : c ≠ '/' := (isPlain.text_chars c (isText ▸ List.mem_cons_self)).1
      cases rest <;> simp [text, joinWith, isText, notSlash]

end

/-- Reading a path that is written out, whatever its predicates are, gives it back. -/
theorem ofString_text {path : DataPath} (plain : ∀ step ∈ path.steps, step.IsPlain) {written : String}
    (isText : withoutPredicates written.toList = path.text) : ofString written = path := by
  obtain ⟨absolute, steps⟩ := path
  have free := text_free plain absolute
  have trimmed : (splitBy (· == '/') (text ⟨absolute, steps⟩)).map trim =
      splitBy (· == '/') (text ⟨absolute, steps⟩) := by
    refine (List.map_congr_left fun piece isPiece => ?_).trans (List.map_id _)
    exact trim_of_free fun c member => free c (mem_of_mem_splitBy piece isPiece c member)
  have back : steps.map (stepOf ∘ Step.text) = steps :=
    (List.map_congr_left fun step inPath => (plain step inPath).stepOf_text).trans (List.map_id _)
  -- Blanks are removed around the path and around its pieces; there are none.
  simp only [ofString, isText, trim_of_free free, trimmed, segments_text plain, head?_text plain, List.map_map, back]

end DataPath

/-! ## Leafrefs and their leafs -/

namespace Resolved

/-- A type that refers to a leaf by a path, with the leaf that it is the type of. -/
structure IsLeafref (schema : Resolved) (type leaf : Statement) (path : String) : Prop where
  known : leaf ∈ schema.all
  inside : type ∈ leaf.subs
  isLeaf : isLeafKeyword leaf.keyword
  keyword : type.keyword = "type"
  arg : type.arg = some "leafref"
  path : type.argOf? "path" = some path

/-- What refers to a target is a leafref, and the type of a leaf. -/
def RefersFromLeafs (schema : Resolved) : Prop :=
  ∀ s ∈ schema.all, ∀ type ∈ s.subs, (schema.targets.lookup type.id).isSome →
    isLeafKeyword s.keyword ∧ type.name = "leafref"

variable {schema : Resolved}

theorem isLeafref_of_mem {type leaf : Statement} {path : String}
    (member : (type, leaf, path) ∈ schema.statements.filterMap leafref?) : schema.IsLeafref type leaf path := by
  obtain ⟨p, listed, isLeafref⟩ := List.mem_filterMap.1 member
  unfold leafref? at isLeafref
  obtain ⟨_, isType, inLeaf⟩ := Option.bind_eq_some_iff.1 isLeafref
  obtain ⟨leaf, around, isLeaf⟩ := Option.bind_eq_some_iff.1 inLeaf
  obtain ⟨_, ofLeaf, withPath⟩ := Option.bind_eq_some_iff.1 isLeaf
  obtain ⟨path, hasPath, same⟩ := Option.bind_eq_some_iff.1 withPath
  cases same
  obtain ⟨known, sub⟩ := around_spec listed around
  have types : p.statement.keyword = "type" ∧ p.statement.arg = some "leafref" := by
    simpa [guard] using isType
  exact ⟨known, sub, by simpa [guard] using ofLeaf, types.1, types.2, hasPath⟩

/-- The leaf that the type of a statement refers to. -/
def leafTarget? (schema : Resolved) (id : Nat) : Option Nat :=
  (schema.statement? id).bind fun s => (s.sub? "type").bind fun type => schema.targets.lookup type.id

theorem Sound.leafTarget?_eq (sound : schema.Sound) {s type : Statement} (known : s ∈ schema.all)
    (isType : s.sub? "type" = some type) : schema.leafTarget? s.id = schema.targets.lookup type.id := by
  rw [leafTarget?, sound.statement?_eq known, Option.bind_some, isType, Option.bind_some]

/-- A statement that refers to a leaf is one itself, and its type is a leafref. -/
theorem leafTarget?_spec (refers : schema.RefersFromLeafs) {id target : Nat}
    (isTarget : schema.leafTarget? id = some target) :
    ∃ s ∈ schema.all, s.id = id ∧ isLeafKeyword s.keyword ∧
      ∃ type, s.sub? "type" = some type ∧ type.name = "leafref" := by
  obtain ⟨s, stated, ofType⟩ := Option.bind_eq_some_iff.1 isTarget
  obtain ⟨type, isType, found⟩ := Option.bind_eq_some_iff.1 ofType
  obtain ⟨known, atId⟩ := Sound.statement?_spec stated
  obtain ⟨isLeaf, isLeafref⟩ := refers s known type (List.mem_of_find?_eq_some isType) (by rw [found]; rfl)
  exact ⟨s, known, atId, isLeaf, type, isType, isLeafref⟩

theorem Sound.isLeaf_of_leafTarget? (sound : schema.Sound) {id : Nat} {s : Statement} (known : s ∈ schema.all)
    (isTarget : schema.leafTarget? id = some s.id) : isLeafKeyword s.keyword := by
  obtain ⟨_, -, ofType⟩ := Option.bind_eq_some_iff.1 isTarget
  obtain ⟨type, -, found⟩ := Option.bind_eq_some_iff.1 ofType
  obtain ⟨t, known', atId, isLeaf⟩ := sound.targets _ (mem_of_lookup_eq_some found)
  rwa [sound.eq_of_id_eq known known' atId.symm]

theorem Sound.eq_of_mem_subs (sound : schema.Sound) {s s' t : Statement} (known : s ∈ schema.all)
    (known' : s' ∈ schema.all) (sub : t ∈ s.subs) (sub' : t ∈ s'.subs) : s = s' := by
  have listed : ∀ {x : Statement}, x ∈ schema.all → t ∈ x.subs → ⟨some x.id, some x, t⟩ ∈ schema.statements := by
    intro x known sub
    cases List.mem_append.1 known with
    | inl inForest => exact List.mem_append_left _ (Statement.mem_listingOfAll_sub sub _ inForest)
    | inr isMade =>
      obtain ⟨_, isRoot, inside⟩ := Statement.mem_withinAll.1 isMade
      obtain ⟨m, member, rfl⟩ := List.mem_map.1 isRoot
      refine List.mem_append_right _ (List.mem_flatMap.2 ⟨m, member, ?_⟩)
      exact List.mem_cons_of_mem _ (Statement.mem_listingBelow_sub sub _ inside)
  have ids : (schema.statements.map (·.statement.id)).Nodup := by
    have nodup := sound.nodup
    rw [← statements_eq_all, List.map_map] at nodup
    exact nodup
  have same := List.inj_on_of_nodup_map ids (listed known sub) (listed known' sub') rfl
  simpa using congrArg (·.around) same

end Resolved

/-! ## Where paths lead -/

namespace Resolved

/-- The data node that is reached by going up a number of steps. -/
def dataAncestor? (schema : Resolved) : Nat → Nat → Option Nat
  | 0, id => some id
  | up + 1, id => (schema.dataParent? id).bind (schema.dataAncestor? up)

/-- Going up by data nodes passes nodes of these names, the lowest first, before it comes to another one. -/
inductive Passes (schema : Resolved) : Nat → List String → Nat → Prop
  | here (id : Nat) : Passes schema id [] id
  | up {id parent top : Nat} {s : Statement} {names : List String} (known : schema.statement? id = some s)
      (above : schema.dataParent? id = some parent) (outer : Passes schema parent names top) :
      Passes schema id (s.name :: names) top

/-- A leaf that a path leads to, seen from there: back past the names of the path to where it starts. -/
structure LeadsTo (schema : Resolved) (leaf : Statement) (path : DataPath) (target : Nat) : Prop where
  fromLeaf : ∀ up names, path = .fromLeaf up names →
    ∃ start, schema.dataAncestor? up leaf.id = some start ∧ schema.Passes target (names.map (·.2)).reverse start
  fromModule : ∀ first rest, path = .fromModule (first :: rest) →
    ∃ name start, (first.1 = none → name = leaf.home) ∧
      (∀ qualifier, first.1 = some qualifier → schema.Denotes leaf.home qualifier name) ∧
      schema.module? name = some start ∧ schema.Passes target ((first :: rest).map (·.2)).reverse start

variable {schema : Resolved}

theorem Passes.snoc {id between top : Nat} {names : List String} {s : Statement}
    (passes : schema.Passes id names between) (known : schema.statement? between = some s)
    (above : schema.dataParent? between = some top) : schema.Passes id (names ++ [s.name]) top := by
  induction passes with
  | here id => exact .up known above (.here top)
  | up known' above' _ ih => exact .up known' above' (ih known above)

namespace Sound

variable {directory : Directory} {home : String}

theorem passes_of_follow? (sound : schema.Sound) {q : Position} :
    ∀ (names : List (Option String × String)) {start : Position}, start.Stands schema.trees →
      isSeenThrough start.node.keyword = false →
      follow? directory schema.modules home (some start) (names.map fun x => .down x.1 x.2) = some (some q) →
      schema.Passes q.node.id (names.map (·.2)).reverse start.node.id
  | [], start, _, _, followed => by
    cases followed
    exact .here _
  | (qualifier, name) :: rest, start, stands, isData, followed => by
    obtain ⟨next, down, followed⟩ := Option.bind_eq_some_iff.1 followed
    obtain ⟨below, isNode, named, -⟩ := stands.down? down
    have back : schema.dataParent? next.node.id = some start.node.id := by
      rw [sound.dataParent?_position below, stands.up?_of_down? isData down, Option.map_some]
    -- Names are passed on the way back, so that the first step of the path comes last.
    have passes := (sound.passes_of_follow? rest below isNode followed).snoc (sound.statement?_position below) back
    rw [List.map_cons, List.reverse_cons, ← named]
    exact passes

theorem dataAncestor?_of_follow? (sound : schema.Sound) {steps : List Step} {finish : Option Position} :
    ∀ (up : Nat) {p : Position}, p.Stands schema.trees →
      follow? directory schema.modules home (some p) (List.replicate up .up ++ steps) = some finish →
      ∃ q : Position, q.Stands schema.trees ∧ schema.dataAncestor? up p.node.id = some q.node.id ∧
        (isSeenThrough p.node.keyword = false → isSeenThrough q.node.keyword = false) ∧
        follow? directory schema.modules home (some q) steps = some finish
  | 0, p, stands, followed => ⟨p, stands, rfl, fun isData => isData, followed⟩
  | up + 1, p, stands, followed => by
    rw [List.replicate_succ, List.cons_append] at followed
    obtain ⟨next, isAbove, followed⟩ := Option.bind_eq_some_iff.1 followed
    obtain ⟨above, isData⟩ := stands.up? isAbove
    obtain ⟨q, inTrees, climbed, dataToo, rest⟩ := sound.dataAncestor?_of_follow? up above followed
    refine ⟨q, inTrees, ?_, fun _ => dataToo isData, rest⟩
    rw [dataAncestor?, sound.dataParent?_position stands, isAbove, Option.map_some, Option.bind_some, climbed]

theorem leafPosition_spec (sound : schema.Sound) {leaf : Statement} (known : leaf ∈ schema.all) :
    (leafPosition schema.modules schema.groupings leaf).node.statement = leaf ∧
      ((leafPosition schema.modules schema.groupings leaf).Stands schema.trees ∨
        leafPosition schema.modules schema.groupings leaf = ⟨⟨leaf, [], none⟩, []⟩) := by
  have unfolded : leafPosition schema.modules schema.groupings leaf =
      (schema.position? leaf.id).getD ⟨⟨leaf, [], none⟩, []⟩ := rfl
  cases located : schema.position? leaf.id with
  | none =>
    rw [unfolded, located, Option.getD_none]
    exact ⟨rfl, .inr rfl⟩
  | some p =>
    rw [unfolded, located, Option.getD_some]
    obtain ⟨stands, atId⟩ := position?_spec located
    exact ⟨sound.eq_of_id_eq (sound.node_known stands.node_mem) known atId, .inl stands⟩

end Sound

end Resolved

theorem exists_position_of_leafrefTarget? {directory : Directory} {trees : SchemaTrees} {leaf : Position}
    {path : String} {target : SchemaNode} (found : leafrefTarget? directory trees leaf path = some target) :
    ∃ q : Position, q.node = target ∧ follow? directory trees leaf.node.statement.home
      (if (DataPath.ofString path).absolute then none else some leaf) (DataPath.ofString path).steps =
        some (some q) := by
  unfold leafrefTarget? at found
  obtain ⟨finish, followed, reached⟩ := Option.bind_eq_some_iff.1 found
  obtain ⟨q, rfl, checked⟩ := Option.bind_eq_some_iff.1 reached
  obtain ⟨-, -, same⟩ := Option.bind_eq_some_iff.1 checked
  exact ⟨q, Option.some.inj same, followed⟩

namespace Library.LinksTo

variable {library : Library} {schema : Resolved}

theorem exists_leafref (way : library.LinksTo schema) {type target : Nat}
    (found : schema.targets.lookup type = some target) :
    ∃ s leaf path node, s.id = type ∧ schema.IsLeafref s leaf path ∧
      leafrefTarget? library.directory schema.modules (leafPosition schema.modules schema.groupings leaf) path =
        some node ∧ node.id = target := by
  have listed := mem_of_lookup_eq_some found
  rw [way.targets, linkLeafrefs_eq] at listed
  obtain ⟨⟨s, leaf, path⟩, isItem, isLink⟩ := List.mem_filterMap.1 listed
  obtain ⟨node, leads, same⟩ := Option.map_eq_some_iff.1 isLink
  cases same
  exact ⟨s, leaf, path, node, rfl, Resolved.isLeafref_of_mem isItem, leads, rfl⟩

/-- Only the type of a leaf, and only a leafref, refers to a target. -/
theorem refersFromLeafs (way : library.LinksTo schema) (sound : library.Sound) : schema.RefersFromLeafs := by
  intro s known type sub refers
  have schemaSound := way.sound sound
  obtain ⟨target, found⟩ := Option.isSome_iff_exists.1 refers
  obtain ⟨type', leaf, path, -, sameId, isLeafref, -, -⟩ := way.exists_leafref found
  have same := schemaSound.eq_of_id_eq (Resolved.Sound.subs_known isLeafref.known isLeafref.inside)
    (Resolved.Sound.subs_known known sub) sameId
  rw [same] at isLeafref
  refine ⟨?_, by rw [Statement.name, isLeafref.arg, Option.getD_some]⟩
  rw [schemaSound.eq_of_mem_subs known isLeafref.known sub isLeafref.inside]
  exact isLeafref.isLeaf

theorem leadsTo (way : library.LinksTo schema) (sound : library.Sound) {leaf : Statement} {path : String}
    {target : SchemaNode} (known : leaf ∈ schema.all) (isLeaf : isLeafKeyword leaf.keyword)
    (found : leafrefTarget? library.directory schema.modules
      (leafPosition schema.modules schema.groupings leaf) path = some target) :
    schema.LeadsTo leaf (DataPath.ofString path) target.id := by
  have schemaSound := way.sound sound
  obtain ⟨sameLeaf, stands⟩ := schemaSound.leafPosition_spec known
  obtain ⟨q, rfl, followed⟩ := exists_position_of_leafrefTarget? found
  generalize leafPosition schema.modules schema.groupings leaf = p at *
  obtain ⟨⟨statement, children, augment⟩, above⟩ := p
  subst sameLeaf
  constructor
  · intro up names isPath
    rw [isPath] at followed
    cases stands with
    | inl inTrees =>
      have isData : isSeenThrough statement.keyword = false := by
        rcases (by simpa [isLeafKeyword] using isLeaf : statement.keyword = "leaf" ∨ _) with same | same <;>
          rw [same] <;> rfl
      obtain ⟨start, atStart, climbed, dataToo, rest⟩ :=
        schemaSound.dataAncestor?_of_follow? up inTrees followed
      exact ⟨start.node.id, climbed, schemaSound.passes_of_follow? names atStart (dataToo isData) rest⟩
    | inr alone =>
      cases alone
      -- From a leaf that is in no tree a path leads only to the leaf itself.
      cases up with
      | succ up => exact absurd followed nofun
      | zero =>
        cases names with
        | cons first rest => exact absurd followed nofun
        | nil =>
          cases followed
          exact ⟨_, rfl, .here _⟩
  · intro first rest isPath
    rw [isPath] at followed
    obtain ⟨name, isModule, followed⟩ := Option.bind_eq_some_iff.1 followed
    obtain ⟨tree, loaded, followed⟩ := Option.bind_eq_some_iff.1 followed
    have atRoot : Position.Stands schema.trees ⟨tree, []⟩ :=
      .root (List.mem_append_left _ (List.mem_map_of_mem (mem_of_lookup_eq_some loaded)))
    have isData : isSeenThrough tree.keyword = false := by
      rw [(schemaSound.modules _ (mem_of_lookup_eq_some loaded)).2.1]
      rfl
    refine ⟨name, tree.id, fun unqualified => ?_, fun qualifier qualified => ?_, ?_, ?_⟩
    · rw [unqualified] at isModule
      exact (Option.some.inj isModule).symm
    · rw [qualified] at isModule
      exact (way.denotes_iff sound).1 isModule
    · rw [Resolved.module?, loaded, Option.map_some]
    · exact schemaSound.passes_of_follow? (first :: rest) atRoot isData followed

end Library.LinksTo

namespace Resolved

/-- Data nodes above and below each other agree, and leafrefs refer to what their paths lead to. -/
structure LeafrefsSound (schema : Resolved) : Prop where
  /-- The next data node above is the one that the links of the statements lead to. -/
  above : ∀ id parent, schema.dataParent? id = some parent ↔ schema.DataParent id parent
  /-- Going down finds something just if a data node of that name is below. -/
  below : ∀ n ∈ schema.records, n.keyword ∉ ["augment", "choice", "case"] → ∀ name,
    (schema.dataChild? n.id name).isSome ↔ ∃ c s, schema.DataParent c n.id ∧ schema.statement? c = some s ∧
      s.name = name ∧ isSeenThrough s.keyword = false
  /-- Going up from what is found below comes back. -/
  back : ∀ n ∈ schema.records, n.keyword ∉ ["augment", "choice", "case"] → ∀ name c,
    schema.dataChild? n.id name = some c → schema.dataParent? c = some n.id
  /-- What a leafref refers to is a leaf, and its path leads there. -/
  targets : ∀ type target, schema.targets.lookup type = some target →
    ∃ s leaf path t, schema.statement? type = some s ∧ schema.IsLeafref s leaf path ∧
      schema.statement? target = some t ∧ isLeafKeyword t.keyword ∧
      schema.LeadsTo leaf (DataPath.ofString path) target

end Resolved

theorem Library.LinksTo.leafrefsSound {library : Library} {schema : Resolved} (way : library.LinksTo schema)
    (sound : library.Sound) : schema.LeafrefsSound := by
  have schemaSound := way.sound sound
  have isData : ∀ n ∈ schema.records, n.keyword ∉ ["augment", "choice", "case"] →
      ∀ s, schema.statement? n.id = some s → isSeenThrough s.keyword = false := by
    intro n isRecord notSeen s found
    obtain ⟨⟨t, known, atId, keyword⟩, -⟩ := Resolved.records_spec isRecord
    rw [atId, schemaSound.statement?_eq known] at found
    cases found
    rw [keyword] at notSeen
    simp only [List.mem_cons, List.not_mem_nil, or_false, not_or] at notSeen
    simp [isSeenThrough, notSeen]
  refine ⟨fun id parent => schemaSound.dataParent?_eq_some_iff, ?_, ?_, ?_⟩
  · exact fun n isRecord notSeen name => schemaSound.dataChild?_isSome_iff (isData n isRecord notSeen)
  · exact fun n isRecord notSeen name c found =>
      schemaSound.dataParent?_of_dataChild? (isData n isRecord notSeen) found
  · intro type target found
    obtain ⟨s, leaf, path, node, rfl, isLeafref, leads, rfl⟩ := way.exists_leafref found
    obtain ⟨t, known, atId, isLeaf⟩ := schemaSound.targets _ (mem_of_lookup_eq_some found)
    refine ⟨s, leaf, path, t, schemaSound.statement?_eq (Resolved.Sound.subs_known isLeafref.known isLeafref.inside),
      isLeafref, ?_, isLeaf, way.leadsTo sound isLeafref.known isLeafref.isLeaf leads⟩
    have found' := schemaSound.statement?_eq known
    rw [atId] at found'
    exact found'

theorem resolve_refersFromLeafs {texts : List String} {sources : List Source} {files : FileTree}
    {schema : Resolved}
    (resolved : ((Library.ofTexts texts).resolve sources files).result = .ok schema) :
    schema.RefersFromLeafs := by
  obtain ⟨loaded, sound, linked⟩ := Library.resolve_eq_link (Library.sound_ofTexts texts) resolved
  obtain ⟨way⟩ := Library.link_ok linked
  exact way.refersFromLeafs sound

/-- Whatever texts are added and whichever modules the sources give, leafrefs refer to the leafs to which their
    paths lead, and paths that are written out are read as they are meant. -/
theorem resolve_leafrefsSound (texts : List String) (sources : List Source) (files : FileTree)
    (schema : Resolved)
    (resolved : ((Library.ofTexts texts).resolve sources files).result = .ok schema) :
    schema.LeafrefsSound ∧ ∀ (path : DataPath) (written : String), (∀ step ∈ path.steps, step.IsPlain) →
      withoutPredicates written.toList = path.text → DataPath.ofString written = path := by
  obtain ⟨loaded, sound, linked⟩ := Library.resolve_eq_link (Library.sound_ofTexts texts) resolved
  obtain ⟨way⟩ := Library.link_ok linked
  exact ⟨way.leafrefsSound sound, fun _ _ plain isText => DataPath.ofString_text plain isText⟩

/-- A module in which two leafrefs, one from below and one from the module, refer to a leaf in a case. -/
def leafrefsIntoChoice : String :=
  "<module name='m' xmlns='urn:ietf:params:xml:ns:yang:yin:1'><prefix value='p'/><container name='c'>" ++
  "<choice name='h'><case name='k'><leaf name='x'><type name='string'/></leaf></case></choice>" ++
  "<leaf name='r'><type name='leafref'><path value='../x'/></type></leaf>" ++
  "<leaf name='a'><type name='leafref'><path value='/p:c/p:x'/></type></leaf></container></module>"

theorem resolve_leafrefsSound_leafrefsIntoChoice :
    ∃ schema, ((Library.ofTexts [leafrefsIntoChoice]).resolve [] ⟨[]⟩).result = .ok schema ∧
      schema.LeafrefsSound ∧ schema.targets = [(9, 6), (12, 6)] ∧
      schema.dataChild? 3 "x" = some 6 ∧ schema.dataParent? 6 = some 3 ∧ schema.schemaParent? 6 = some 5 ∧
      DataPath.ofString "../y[k = current()/../i]/p:x" = .fromLeaf 1 [(none, "y"), (some "p", "x")] := by
  have outcome : ((Library.ofTexts [leafrefsIntoChoice]).resolve [] ⟨[]⟩).result.toOption.any (fun schema =>
      schema.targets == [(9, 6), (12, 6)] && schema.dataChild? 3 "x" == some 6 &&
        schema.schemaParent? 6 == some 5 && schema.records.any (fun n => n.id == 3 && n.keyword == "container")) =
      true := by
    decide +kernel
  obtain ⟨schema, resolved, values⟩ := exists_ok outcome
  simp only [Bool.and_eq_true, beq_iff_eq, List.any_eq_true] at values
  obtain ⟨⟨⟨targets, child⟩, parent⟩, n, isRecord, atId, keyword⟩ := values
  obtain ⟨sound, read⟩ := resolve_leafrefsSound _ _ _ schema resolved
  have back := sound.back n isRecord (by rw [keyword]; decide) "x" 6 (by rw [atId]; exact child)
  rw [atId] at back
  exact ⟨schema, resolved, sound, targets, child, back, parent, read _ _ (by decide) (by decide)⟩

end YangStubs.Schema
