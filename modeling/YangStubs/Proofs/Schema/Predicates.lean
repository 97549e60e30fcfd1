import YangStubs.Schema.DataPath

/-! # Predicates in data paths

Reading a path leaves out what stands in brackets, however deep they are nested, and nothing else.  So a leafref
leads where its path leads without the predicates.
-/

namespace YangStubs.Schema

/-! ## Texts with brackets -/

def BracketFree (cs : List Char) : Prop :=
  ∀ c ∈ cs, c ≠ '[' ∧ c ≠ ']'

/-- A text in which every bracket has its partner. -/
inductive BracketBalanced : List Char → Prop
  | nil : BracketBalanced []
  | plain {c : Char} {rest : List Char} (notBracket : c ≠ '[' ∧ c ≠ ']') (others : BracketBalanced rest) :
      BracketBalanced (c :: rest)
  | group {inner rest : List Char} (inside : BracketBalanced inner) (others : BracketBalanced rest) :
      BracketBalanced ('[' :: inner ++ ']' :: rest)

/-- What stands between the brackets of a predicate, and what follows it up to the next one. -/
structure PredicatedPart where
  predicate : List Char
  after : List Char
  balanced : BracketBalanced predicate
  free : BracketFree after

/-- A path with predicates: what comes before the first, then each with what follows it. -/
structure PredicatedPath where
  start : List Char
  parts : List PredicatedPart
  free : BracketFree start

def PredicatedPath.text (path : PredicatedPath) : List Char :=
  path.start ++ path.parts.flatMap fun part => '[' :: part.predicate ++ ']' :: part.after

/-- The path without its predicates. -/
def PredicatedPath.plain (path : PredicatedPath) : List Char :=
  path.start ++ path.parts.flatMap (·.after)

/-! ## What is outside of brackets -/

theorem outsideBrackets_cons {c : Char} (notBracket : c ≠ '[' ∧ c ≠ ']') (depth : Nat) (rest : List Char) :
    outsideBrackets depth (c :: rest) =
      if depth == 0 then c :: outsideBrackets depth rest else outsideBrackets depth rest := by
  simp [outsideBrackets, notBracket]

theorem BracketFree.outsideBrackets_append {cs : List Char} (free : BracketFree cs) (rest : List Char) :
    outsideBrackets 0 (cs ++ rest) = cs ++ outsideBrackets 0 rest := by
  induction cs with
  | nil => rfl
  | cons c more ih =>
    obtain ⟨notBracket, others⟩ := List.forall_mem_cons.1 free
    rw [List.cons_append, outsideBrackets_cons notBracket, ih others]
    rfl

/-- Inside of brackets a balanced text leaves nothing and changes no depth. -/
theorem BracketBalanced.outsideBrackets_append {cs : List Char} (balanced : BracketBalanced cs) (depth : Nat)
    (rest : List Char) : outsideBrackets (depth + 1) (cs ++ rest) = outsideBrackets (depth + 1) rest := by
  induction balanced generalizing depth rest with
  | nil => rfl
  | plain notBracket _ ih =>
    rw [List.cons_append, outsideBrackets_cons notBracket]
    exact ih depth rest
  | @group inner more _ _ inside others =>
    calc outsideBrackets (depth + 1) ('[' :: inner ++ ']' :: more ++ rest)
        = outsideBrackets (depth + 2) (inner ++ ']' :: (more ++ rest)) := by simp [outsideBrackets]
      _ = outsideBrackets (depth + 2) (']' :: (more ++ rest)) := inside (depth + 1) _
      _ = outsideBrackets (depth + 1) (more ++ rest) := by simp [outsideBrackets]
      _ = outsideBrackets (depth + 1) rest := others depth rest

theorem outsideBrackets_parts (parts : List PredicatedPart) :
    outsideBrackets 0 (parts.flatMap fun part => '[' :: part.predicate ++ ']' :: part.after) =
      parts.flatMap (·.after) := by
  induction parts with
  | nil => rfl
  | cons part others ih =>
    rw [List.flatMap_cons, List.flatMap_cons, ← ih, ← part.free.outsideBrackets_append]
    simp [outsideBrackets, part.balanced.outsideBrackets_append]

theorem outsideBrackets_free (depth : Nat) (cs : List Char) : BracketFree (outsideBrackets depth cs) := by
  fun_induction outsideBrackets depth cs with
  | case1 => simp [BracketFree]
  | case2 _ _ ih => exact ih
  | case3 _ _ ih => exact ih
  | case4 _ c _ notOpen notClose _ ih => exact List.forall_mem_cons.2 ⟨⟨notOpen, notClose⟩, ih⟩
  | case5 _ _ _ _ _ _ ih => exact ih

theorem outsideBrackets_sublist (depth : Nat) (cs : List Char) : (outsideBrackets depth cs).Sublist cs := by
  fun_induction outsideBrackets depth cs with
  | case1 => exact .slnil
  | case2 _ _ ih => exact ih.cons _
  | case3 _ _ ih => exact ih.cons _
  | case4 _ _ _ _ _ _ ih => exact ih.cons_cons _
  | case5 _ _ _ _ _ _ ih => exact ih.cons _

/-! ## Leaving out predicates -/

theorem BracketFree.withoutPredicates_eq {cs : List Char} (free : BracketFree cs) : withoutPredicates cs = cs := by
  have whole := free.outsideBrackets_append []
  rwa [List.append_nil, outsideBrackets, List.append_nil] at whole

theorem withoutPredicates_idem (cs : List Char) : withoutPredicates (withoutPredicates cs) = withoutPredicates cs :=
  (outsideBrackets_free 0 cs).withoutPredicates_eq

theorem PredicatedPath.withoutPredicates_text (path : PredicatedPath) : withoutPredicates path.text = path.plain := by
  rw [withoutPredicates, text, path.free.outsideBrackets_append, outsideBrackets_parts]
  rfl

/-- Paths that are the same without predicates lead from a leaf to the same node. -/
theorem leafrefTarget?_congr {path path' : String}
    (same : withoutPredicates path.toList = withoutPredicates path'.toList) (directory : Directory)
    (trees : SchemaTrees) (leaf : Position) :
    leafrefTarget? directory trees leaf path = leafrefTarget? directory trees leaf path' := by
  have samePath : DataPath.ofString path = DataPath.ofString path' := by
    rw [DataPath.ofString, same, DataPath.ofString]
  rw [leafrefTarget?, samePath, leafrefTarget?]

/-- Just the predicates of a path are left out, and a leafref with the path has the target that it has with the path
    that is left.  Of any text, what is left has no bracket, stands in the text in this order, and is left as it is
    when predicates are left out again. -/
theorem withoutPredicates_exact :
    (∀ path : PredicatedPath, withoutPredicates path.text = path.plain ∧
      ∀ directory trees leaf, leafrefTarget? directory trees leaf (String.ofList path.text) =
        leafrefTarget? directory trees leaf (String.ofList path.plain)) ∧
    ∀ cs : List Char, BracketFree (withoutPredicates cs) ∧ (withoutPredicates cs).Sublist cs ∧
      withoutPredicates (withoutPredicates cs) = withoutPredicates cs := by
  refine ⟨fun path => ⟨path.withoutPredicates_text, leafrefTarget?_congr ?_⟩, fun cs => ?_⟩
  · rw [String.toList_ofList, String.toList_ofList, ← path.withoutPredicates_text, withoutPredicates_idem]
  · exact ⟨outsideBrackets_free 0 cs, outsideBrackets_sublist 0 cs, withoutPredicates_idem cs⟩

/-- `/a[b=c[d]]/e[f]`, where one predicate stands in another. -/
def nestedPredicates : PredicatedPath where
  start := ['/', 'a']
  parts :=
    [⟨['b', '=', 'c', '[', 'd', ']'], ['/', 'e'],
      .plain (by decide) (.plain (by decide) (.plain (by decide) (.group (.plain (by decide) .nil) .nil))),
      by simp [BracketFree]⟩,
     ⟨['f'], [], .plain (by decide) .nil, by simp [BracketFree]⟩]
  free := by simp [BracketFree]

theorem withoutPredicates_exact_nestedPredicates :
    withoutPredicates "/a[b=c[d]]/e[f]".toList = "/a/e".toList :=
  (withoutPredicates_exact.1 nestedPredicates).1

-- slashes and `..` in a predicate are no steps
example : DataPath.ofString "/a/b[k = current()/../c[d]]/e" =
    ⟨true, [.down none "a", .down none "b", .down none "e"]⟩ := by
  decide

end YangStubs.Schema
