import YangStubs.Proofs.Schema.Confluence
import YangStubs.Proofs.Schema.Mirroring
import YangStubs.Proofs.Schema.Relinking

/-! # Augments with other numbers, and augments without nodes

With other numbers augments are applied in the same way.  An augment that has no nodes changes nothing, but it
needs a target as any other does.
-/

namespace YangStubs.Schema

open SchemaNode (updateFirst)

/-- The trees with other numbers. -/
def SchemaTrees.renumber (ρ : Nat → Nat) (trees : SchemaTrees) : SchemaTrees :=
  trees.map fun tree => (tree.1, tree.2.renumber ρ)

section Paths

variable (ρ : Nat → Nat)

theorem SchemaNode.at?_renumber (path : List String) :
    ∀ node : SchemaNode, (node.renumber ρ).at? path = (node.at? path).map (SchemaNode.renumber ρ) := by
  induction path with
  | nil => exact fun _ => rfl
  | cons name rest ih =>
    intro node
    simp only [SchemaNode.at?, SchemaNode.child?, SchemaNode.renumber_children, List.find?_map,
      Function.comp_def, SchemaNode.renumber_name]
    cases node.children.find? (·.name == name) with
    | none => rfl
    | some child => exact ih child

theorem updateFirst_renumber {name : String} {f f' : SchemaNode → SchemaNode}
    (same : ∀ node, f' (node.renumber ρ) = (f node).renumber ρ) (l : List SchemaNode) :
    updateFirst (·.name == name) f' (l.map (SchemaNode.renumber ρ)) =
      (updateFirst (·.name == name) f l).map (SchemaNode.renumber ρ) := by
  induction l with
  | nil => rfl
  | cons node rest ih =>
    simp only [List.map_cons, updateFirst, SchemaNode.renumber_name]
    split
    · rw [List.map_cons, same]
    · rw [List.map_cons, ih]

theorem SchemaNode.attachAt_renumber (new : List SchemaNode) (path : List String) :
    ∀ node : SchemaNode, (node.renumber ρ).attachAt path (new.map (SchemaNode.renumber ρ)) =
      (node.attachAt path new).renumber ρ := by
  induction path with
  | nil =>
    intro node
    simp only [SchemaNode.attachAt, SchemaNode.renumber_mk, SchemaNode.renumber_children,
      SchemaNode.renumber_statement, SchemaNode.renumber_augment, List.map_append]
  | cons name rest ih =>
    intro node
    simp only [SchemaNode.attachAt, SchemaNode.renumber_mk, SchemaNode.renumber_children,
      SchemaNode.renumber_statement, SchemaNode.renumber_augment, updateFirst_renumber ρ ih]

theorem SchemaTrees.lookup_renumber (trees : SchemaTrees) (name : String) :
    (trees.renumber ρ).lookup name = (trees.lookup name).map (SchemaNode.renumber ρ) := by
  induction trees with
  | nil => rfl
  | cons tree rest ih =>
    rw [SchemaTrees.renumber] at ih
    rw [SchemaTrees.renumber, List.map_cons, List.lookup_cons, List.lookup_cons, ih]
    cases name == tree.1 <;> rfl

theorem SchemaTrees.at?_renumber (trees : SchemaTrees) (path : String × List String) :
    (trees.renumber ρ).at? path = (trees.at? path).map (SchemaNode.renumber ρ) := by
  rw [SchemaTrees.at?, SchemaTrees.at?, SchemaTrees.lookup_renumber]
  cases trees.lookup path.1 with
  | none => rfl
  | some tree => exact SchemaNode.at?_renumber ρ path.2 tree

theorem SchemaTrees.attachAt_renumber (trees : SchemaTrees) (path : String × List String)
    (new : List SchemaNode) :
    (trees.renumber ρ).attachAt path (new.map (SchemaNode.renumber ρ)) = (trees.attachAt path new).renumber ρ := by
  simp only [SchemaTrees.renumber, SchemaTrees.attachAt, List.map_map, Function.comp_def]
  refine List.map_congr_left fun tree _ => ?_
  split
  · rw [SchemaNode.attachAt_renumber]
  · rfl

end Paths

/-! ## Rounds -/

theorem graft_mirrors (ρ : Nat → Nat) (augment : Nat) (site : Site) (nodes : List SchemaNode) :
    Mirrors ρ (List.map (SchemaNode.renumber ρ)) (graft augment site nodes)
      (graft (ρ augment) (site.renumber ρ) (nodes.map (SchemaNode.renumber ρ))) := by
  induction nodes with
  | nil => exact Mirrors.pure []
  | cons node rest ih =>
    rw [List.map_cons, graft, graft, ← SchemaNode.renumber_marked]
    exact (placeAt_mirrors ρ site _).bind fun placed => ih.bind fun others => Mirrors.pure (placed :: others)

section Equations

variable {directory : Directory}

theorem augmentRound_found {trees : SchemaTrees} {a target : SchemaNode} {path : String × List String}
    (found : augmentTarget? directory trees a = some (path, target)) (rest : List SchemaNode) :
    augmentRound directory trees (a :: rest) = (do
      reportGrowth .debug ("augmenting " ++ Text.quoted a.name ++ " from module " ++ a.statement.home)
      let new ← graft a.id target.statement.site a.children
      augmentRound directory (trees.attachAt path new) rest) := by
  rw [augmentRound.eq_2, ← augmentTarget?.eq_1, found]

theorem augmentRound_missing {trees : SchemaTrees} {a : SchemaNode}
    (missing : augmentTarget? directory trees a = none) (rest : List SchemaNode) :
    augmentRound directory trees (a :: rest) = (do
      let r ← augmentRound directory trees rest
      pure (r.1, a :: r.2)) := by
  rw [augmentRound.eq_2, ← augmentTarget?.eq_1, missing]

theorem augmentRounds_cons (bound : Nat) (trees : SchemaTrees) (a : SchemaNode) (rest : List SchemaNode) :
    augmentRounds directory (bound + 1) trees (a :: rest) = (do
      let r ← augmentRound directory trees (a :: rest)
      if r.2.length == (a :: rest).length then pure r
      else augmentRounds directory bound r.1 r.2) := rfl

end Equations

section Rounds

variable {ρ : Nat → Nat} {directory directory' : Directory}
  (qualifiers : ∀ home qualifier, directory'.moduleFor? home qualifier = directory.moduleFor? home qualifier)
include qualifiers

theorem augmentPath?_renumber (a : Statement) : augmentPath? directory' (a.renumber ρ) = augmentPath? directory a := by
  simp only [augmentPath?, Statement.renumber_name, Statement.renumber_home, qualifiers]

theorem augmentTarget?_renumber (trees : SchemaTrees) (a : SchemaNode) :
    augmentTarget? directory' (trees.renumber ρ) (a.renumber ρ) =
      (augmentTarget? directory trees a).map fun found => (found.1, found.2.renumber ρ) := by
  rw [augmentTarget?, augmentTarget?, SchemaNode.renumber_statement, augmentPath?_renumber qualifiers]
  cases augmentPath? directory a.statement with
  | none => rfl
  | some path =>
    simp only [Option.bind_some, SchemaTrees.at?_renumber]
    cases trees.at? path <;> rfl

/-- What augmenting leaves, with other numbers. -/
def renumberRound (ρ : Nat → Nat) (r : SchemaTrees × List SchemaNode) : SchemaTrees × List SchemaNode :=
  (r.1.renumber ρ, r.2.map (SchemaNode.renumber ρ))

theorem augmentRound_mirrors (pending : List SchemaNode) : ∀ trees : SchemaTrees,
    Mirrors ρ (renumberRound ρ) (augmentRound directory trees pending)
      (augmentRound directory' (trees.renumber ρ) (pending.map (SchemaNode.renumber ρ))) := by
  induction pending with
  | nil => exact fun trees => Mirrors.pure (trees, [])
  | cons a rest ih =>
    intro trees
    have target := augmentTarget?_renumber (ρ := ρ) qualifiers trees a
    cases found : augmentTarget? directory trees a with
    | none =>
      rw [found] at target
      rw [List.map_cons, augmentRound_missing found, augmentRound_missing target]
      exact (ih trees).bind fun r => Mirrors.pure (r.1, a :: r.2)
    | some result =>
      obtain ⟨path, node⟩ := result
      rw [found] at target
      rw [List.map_cons, augmentRound_found found, augmentRound_found target]
      have reports : Mirrors ρ (fun i => i)
          (reportGrowth .debug ("augmenting " ++ Text.quoted a.name ++ " from module " ++ a.statement.home))
          (reportGrowth .debug ("augmenting " ++ Text.quoted (a.renumber ρ).name ++ " from module " ++
            (a.renumber ρ).statement.home)) :=
        Mirrors.idle (a := ()) (fun _ => ⟨rfl, rfl, rfl⟩) fun _ => ⟨rfl, rfl, rfl⟩
      refine reports.bind fun _ => ?_
      rw [SchemaNode.renumber_id, SchemaNode.renumber_statement, Statement.renumber_site, SchemaNode.renumber_children]
      refine (graft_mirrors ρ a.id node.statement.site a.children).bind fun new => ?_
      rw [SchemaTrees.attachAt_renumber]
      exact ih _

theorem augmentRounds_mirrors : ∀ (bound : Nat) (trees : SchemaTrees) (pending : List SchemaNode),
    Mirrors ρ (renumberRound ρ) (augmentRounds directory bound trees pending)
      (augmentRounds directory' bound (trees.renumber ρ) (pending.map (SchemaNode.renumber ρ)))
  | 0, trees, [] => Mirrors.pure (trees, [])
  | _ + 1, trees, [] => Mirrors.pure (trees, [])
  | 0, trees, a :: rest => Mirrors.pure (trees, a :: rest)
  | bound + 1, trees, a :: rest => by
    rw [List.map_cons, augmentRounds_cons, augmentRounds_cons, ← List.map_cons]
    refine (augmentRound_mirrors qualifiers (a :: rest) trees).bind fun r => ?_
    simp only [renumberRound, List.length_map]
    split
    · exact Mirrors.pure r
    · exact augmentRounds_mirrors bound r.1 r.2

/-- Augments with other numbers are applied in the same way, or the same one has no target. -/
theorem augmentAll_mirrors (trees : SchemaTrees) (augments : List SchemaNode) :
    Mirrors ρ (Except.map (SchemaTrees.renumber ρ)) (augmentAll directory trees augments)
      (augmentAll directory' (trees.renumber ρ) (augments.map (SchemaNode.renumber ρ))) := by
  rw [augmentAll, augmentAll, List.length_map]
  refine (augmentRounds_mirrors qualifiers augments.length trees augments).bind fun r => ?_
  obtain ⟨final, left⟩ := r
  cases left with
  | nil => exact Mirrors.pure (Except.ok final)
  | cons a rest =>
    simp only [renumberRound, List.map_cons, SchemaNode.renumber_name, SchemaNode.renumber_statement,
      Statement.renumber_home]
    exact Mirrors.pure (Except.error (SchemaError.augmentTarget a.name a.statement.home))

end Rounds

/-! ## Augments without nodes -/

theorem updateFirst_self {p : SchemaNode → Bool} {f : SchemaNode → SchemaNode} (same : ∀ node, f node = node)
    (l : List SchemaNode) : updateFirst p f l = l := by
  induction l with
  | nil => rfl
  | cons node rest ih => rw [updateFirst, same, ih, ite_self]

theorem SchemaNode.attachAt_nil (path : List String) : ∀ node : SchemaNode, node.attachAt path [] = node := by
  induction path with
  | nil =>
    intro node
    cases node
    simp only [SchemaNode.attachAt, List.append_nil]
  | cons name rest ih =>
    intro node
    cases node
    simp only [SchemaNode.attachAt, updateFirst_self ih]

theorem SchemaTrees.attachAt_nil (trees : SchemaTrees) (path : String × List String) :
    trees.attachAt path [] = trees := by
  simp only [SchemaTrees.attachAt, SchemaNode.attachAt_nil, ite_self, List.map_id']

/-- A list of augments, and the same one with others in between. -/
inductive Padded (P : SchemaNode → Prop) : List SchemaNode → List SchemaNode → Prop
  | nil : Padded P [] []
  | keep (a : SchemaNode) {l l' : List SchemaNode} (rest : Padded P l l') : Padded P (a :: l) (a :: l')
  | idle {a : SchemaNode} (more : P a) {l l' : List SchemaNode} (rest : Padded P l l') :
      Padded P l (a :: l')

namespace Padded

variable {P : SchemaNode → Prop} {l l' : List SchemaNode}

theorem subset (padded : Padded P l l') : l ⊆ l' := by
  induction padded with
  | nil => exact List.nil_subset []
  | keep a _ ih => exact List.cons_subset_cons a ih
  | idle _ _ ih => exact fun b member => List.mem_cons_of_mem _ (ih member)

theorem of_nil (padded : Padded P [] l') : ∀ a ∈ l', P a := by
  generalize empty : ([] : List SchemaNode) = k at padded
  induction padded with
  | nil => exact fun a member => absurd member List.not_mem_nil
  | keep => cases empty
  | idle more _ ih =>
    intro b member
    cases List.mem_cons.1 member with
    | inl here => exact here ▸ more
    | inr later => exact ih empty b later

end Padded

/-- The same state, apart from what has been reported. -/
structure Growth.Like (g g' : Growth) : Prop where
  next : g'.next = g.next
  made : g'.made = g.made

theorem graftAt_like (a target : SchemaNode) {g g' : Growth} (like : g.Like g') :
    (graftAt a target g').1 = (graftAt a target g).1 ∧ (graftAt a target g).2.Like (graftAt a target g').2 := by
  -- The log is not looked at, so that the same numbers give the same nodes.
  obtain ⟨n, fresh, next, made, same⟩ := graft_mirrors (fun i => i) a.id target.statement.site a.children
    ((reportGrowth .debug ("augmenting " ++ Text.quoted a.name ++ " from module " ++ a.statement.home)).run g).2
  obtain ⟨nodes, next', made'⟩ := same
    ((reportGrowth .debug ("augmenting " ++ Text.quoted a.name ++ " from module " ++ a.statement.home)).run g').2
    fun k _ => congrArg (· + k) like.next.symm
  rw [← SchemaNode.renumberAll_eq_map, SchemaNode.renumberAll_self] at nodes next' made'
  rw [← SchemaNode.renumberAll_eq_map, SchemaNode.renumberAll_self] at nodes
  have unchanged : fresh.map (Made.renumber fun i => i) = fresh :=
    (List.map_congr_left fun m _ => by rw [Made.renumber, Statement.renumber_self]; rfl).trans (List.map_id fresh)
  refine ⟨nodes, ?_, ?_⟩
  · exact next'.trans ((congrArg (· + n) like.next).trans next.symm)
  · rw [unchanged] at made'
    exact made'.trans ((congrArg (· ++ fresh) like.made).trans made.symm)

theorem graftAt_idle {a : SchemaNode} (nothing : a.children = []) (target : SchemaNode) (g : Growth) :
    (graftAt a target g).1 = [] ∧ g.Like (graftAt a target g).2 := by
  rw [graftAt, nothing]
  exact ⟨rfl, rfl, rfl⟩

section Progress

variable {directory : Directory}

theorem augmentRound_all_missing {pending : List SchemaNode} {trees : SchemaTrees}
    (missing : ∀ a ∈ pending, augmentTarget? directory trees a = none) (g : Growth) :
    (augmentRound directory trees pending).run g = ((trees, pending), g) := by
  induction pending with
  | nil => rfl
  | cons a rest ih =>
    rw [augmentRound_cons_run, missing a List.mem_cons_self]
    simp only [ih fun b member => missing b (List.mem_cons_of_mem a member)]

theorem augmentRounds_nil (bound : Nat) (trees : SchemaTrees) (g : Growth) :
    (augmentRounds directory bound trees []).run g = ((trees, []), g) := by
  cases bound <;> rfl

/-- Rounds that leave nothing: there was nothing, or some augment had a target and the rounds went on. -/
theorem augmentRounds_done {bound : Nat} {trees final : SchemaTrees} {l : List SchemaNode} {g h : Growth}
    (done : (augmentRounds directory bound trees l).run g = ((final, []), h)) :
    (l = [] ∧ final = trees ∧ h = g) ∨ ((∃ a ∈ l, augmentTarget? directory trees a ≠ none) ∧
      ∃ bound', let r := (augmentRound directory trees l).run g
        (augmentRounds directory bound' r.1.1 r.1.2).run r.2 = ((final, []), h)) := by
  cases l with
  | nil =>
    rw [augmentRounds_nil] at done
    cases done
    exact .inl ⟨rfl, rfl, rfl⟩
  | cons a rest =>
    refine .inr ?_
    cases bound with
    | zero => cases done
    | succ bound =>
      rw [augmentRounds_succ_run] at done
      have progress : ((augmentRound directory trees (a :: rest)).run g).1.2.length ≠ (a :: rest).length := by
        intro stuck
        simp only [stuck, beq_self_eq_true, if_true] at done
        rw [done] at stuck
        cases stuck
      constructor
      · by_contra none
        push Not at none
        rw [augmentRound_all_missing none] at progress
        exact progress rfl
      · simp only [beq_iff_eq, progress, if_false] at done
        exact ⟨bound, done⟩

end Progress

section Padding

variable {directory : Directory} {P : SchemaNode → Prop} (nothing : ∀ a, P a → a.children = [])
include nothing

theorem augmentRound_padded {l l' : List SchemaNode} (padded : Padded P l l') :
    ∀ (trees : SchemaTrees) (g g' : Growth), g.Like g' →
      let r := (augmentRound directory trees l).run g
      let r' := (augmentRound directory trees l').run g'
      r'.1.1 = r.1.1 ∧ Padded P r.1.2 r'.1.2 ∧ r.2.Like r'.2 := by
  induction padded with
  | nil => exact fun trees g g' like => ⟨rfl, .nil, like⟩
  | keep a rest ih =>
    intro trees g g' like
    rw [augmentRound_cons_run, augmentRound_cons_run]
    cases augmentTarget? directory trees a with
    | none =>
      obtain ⟨same, left, still⟩ := ih trees g g' like
      exact ⟨same, .keep a left, still⟩
    | some found =>
      obtain ⟨new, still⟩ := graftAt_like a found.2 like
      simp only [new]
      exact ih (trees.attachAt found.1 (graftAt a found.2 g).1) _ _ still
  | @idle a more l l' rest ih =>
    intro trees g g' like
    rw [augmentRound_cons_run directory trees a]
    cases augmentTarget? directory trees a with
    | none =>
      obtain ⟨same, left, still⟩ := ih trees g g' like
      exact ⟨same, .idle more left, still⟩
    | some found =>
      -- Grafting no nodes leaves the trees as they are.
      obtain ⟨new, still⟩ := graftAt_idle (nothing a more) found.2 g'
      simp only [new, SchemaTrees.attachAt_nil]
      exact ih trees g _ ⟨still.next.trans like.next, still.made.trans like.made⟩

/-- Augments without nodes do not matter, provided that they have a target in the end. -/
theorem augmentRounds_padded {final : SchemaTrees} {h : Growth}
    (leads : ∀ a, P a → augmentTarget? directory final a ≠ none) :
    ∀ (bound' bound : Nat) (l l' : List SchemaNode) (trees : SchemaTrees) (g g' : Growth),
      Padded P l l' → g.Like g' → l'.length ≤ bound' →
      (augmentRounds directory bound trees l).run g = ((final, []), h) →
      ∃ h', (augmentRounds directory bound' trees l').run g' = ((final, []), h') ∧ h.Like h'
  | bound', bound, l, [], trees, g, g', padded, like, _, done => by
    obtain rfl := List.eq_nil_of_subset_nil padded.subset
    rw [augmentRounds_nil] at done
    cases done
    exact ⟨g', augmentRounds_nil bound' _ g', like⟩
  | bound' + 1, bound, l, a :: rest, trees, g, g', padded, like, enough, done => by
    obtain ⟨same, left, still⟩ := @augmentRound_padded directory P nothing l (a :: rest) padded trees g g' like
    have shorter := augmentRound_length_le directory (a :: rest) trees g'
    have goesOn : (∃ b ∈ a :: rest, augmentTarget? directory trees b ≠ none) ∧
        ∃ bound₁, let r := (augmentRound directory trees l).run g
          (augmentRounds directory bound₁ r.1.1 r.1.2).run r.2 = ((final, []), h) := by
      cases augmentRounds_done done with
      | inl isOver =>
        -- What is left are augments without nodes, all of which have a target by now.
        obtain ⟨rfl, rfl, rfl⟩ := isOver
        exact ⟨⟨a, List.mem_cons_self, leads a (padded.of_nil a List.mem_cons_self)⟩, bound, done⟩
      | inr more =>
        obtain ⟨⟨b, member, found⟩, rounds⟩ := more
        exact ⟨⟨b, padded.subset member, found⟩, rounds⟩
    obtain ⟨⟨b, member, found⟩, bound₁, rounds⟩ := goesOn
    have progress : ((augmentRound directory trees (a :: rest)).run g').1.2.length ≠ (a :: rest).length :=
      fun stuck => found ((augmentRound_stuck directory (a :: rest) trees g' stuck).2 b member)
    rw [augmentRounds_succ_run]
    simp only [beq_iff_eq, progress, if_false, same]
    refine augmentRounds_padded leads bound' bound₁ _ _ _ _ _ left still ?_ rounds
    simp only [List.length_cons] at enough shorter progress
    omega

theorem augmentAll_padded {trees final : SchemaTrees} {l l' : List SchemaNode} {g h : Growth}
    (leads : ∀ a, P a → augmentTarget? directory final a ≠ none) (padded : Padded P l l')
    (done : (augmentAll directory trees l).run g = (.ok final, h)) :
    ∃ h', (augmentAll directory trees l').run g = (.ok final, h') ∧ h.Like h' := by
  obtain ⟨h', rounds, like⟩ := augmentRounds_padded nothing leads l'.length l.length l l' trees g g padded
    ⟨rfl, rfl⟩ (Nat.le_refl _) (augmentAll_eq_ok.1 done)
  exact ⟨h', augmentAll_eq_ok.2 rounds, like⟩

end Padding

end YangStubs.Schema
