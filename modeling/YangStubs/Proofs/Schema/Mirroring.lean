import YangStubs.Proofs.Schema.Meaning
import YangStubs.Proofs.Schema.Renumbering

/-! # Growing with other numbers

What grows does not depend on the numbers of the statements it grows from, nor on the first number that is
free: with other numbers the same nodes grow and the same statements are made, with other numbers.  `Mirrors`
says this of two computations; the numbers that the first one takes have to be renumbered to those that the
second one takes.
-/

namespace YangStubs.Schema

/-- The second computation does what the first one does, with other numbers. -/
def Mirrors {α β : Type} (ρ : Nat → Nat) (view : α → β) (x : StateM Growth α) (x' : StateM Growth β) : Prop :=
  ∀ g : Growth, ∃ (n : Nat) (fresh : List Made),
    (x.run g).2.next = g.next + n ∧ (x.run g).2.made = g.made ++ fresh ∧
      ∀ g' : Growth, (∀ k < n, ρ (g.next + k) = g'.next + k) →
        (x'.run g').1 = view (x.run g).1 ∧ (x'.run g').2.next = g'.next + n ∧
          (x'.run g').2.made = g'.made ++ fresh.map (Made.renumber ρ)

section Mirrors

variable {α β α' β' : Type} {ρ : Nat → Nat}

theorem Mirrors.idle {view : α → β} {x : StateM Growth α} {x' : StateM Growth β} {a : α}
    (same : ∀ g, (x.run g).1 = a ∧ (x.run g).2.next = g.next ∧ (x.run g).2.made = g.made)
    (same' : ∀ g, (x'.run g).1 = view a ∧ (x'.run g).2.next = g.next ∧ (x'.run g).2.made = g.made) :
    Mirrors ρ view x x' := by
  intro g
  obtain ⟨result, next, made⟩ := same g
  refine ⟨0, [], next, by rw [made, List.append_nil], fun g' _ => ?_⟩
  obtain ⟨result', next', made'⟩ := same' g'
  exact ⟨by rw [result', result], next', by rw [made', List.map_nil, List.append_nil]⟩

theorem Mirrors.pure {view : α → β} (a : α) : Mirrors ρ view (Pure.pure a) (Pure.pure (view a)) :=
  Mirrors.idle (fun _ => ⟨rfl, rfl, rfl⟩) fun _ => ⟨rfl, rfl, rfl⟩

theorem Mirrors.bind {view : α → α'} {view' : β → β'} {x : StateM Growth α} {x' : StateM Growth α'}
    {f : α → StateM Growth β} {f' : α' → StateM Growth β'} (first : Mirrors ρ view x x')
    (second : ∀ a, Mirrors ρ view' (f a) (f' (view a))) : Mirrors ρ view' (x >>= f) (x' >>= f') := by
  intro g
  obtain ⟨n, fresh, next, made, mirror⟩ := first g
  obtain ⟨m, fresh', next', made', mirror'⟩ := second (x.run g).1 (x.run g).2
  refine ⟨n + m, fresh ++ fresh', ?_, ?_, fun h block => ?_⟩
  · rw [run_bind, next', next, Nat.add_assoc]
  · rw [run_bind, made', made, List.append_assoc]
  · obtain ⟨result, nextH, madeH⟩ := mirror h fun k before => block k (by omega)
    -- The second part takes its numbers where the first part has stopped.
    obtain ⟨result', nextH', madeH'⟩ := mirror' (x'.run h).2 fun k before => by
      rw [next, nextH, Nat.add_assoc, Nat.add_assoc]
      exact block (n + k) (by omega)
    rw [← result] at result' nextH' madeH'
    rw [run_bind, run_bind]
    refine ⟨result', by rw [nextH', nextH, Nat.add_assoc], ?_⟩
    rw [madeH', madeH, List.map_append, List.append_assoc]

end Mirrors

/-! ## Placing and copying -/

theorem placeAt_mirrors (ρ : Nat → Nat) (site : Site) (node : SchemaNode) :
    Mirrors ρ (SchemaNode.renumber ρ) (placeAt site node) (placeAt (site.renumber ρ) (node.renumber ρ)) := by
  intro g
  have sameNeed : needsCase (site.renumber ρ) (node.renumber ρ).keyword = needsCase site node.keyword := by
    rw [SchemaNode.renumber_keyword]
    rfl
  by_cases needed : needsCase site node.keyword = true
  · refine ⟨1, [⟨site.id, caseFor g.next node⟩], ?_, ?_, fun g' block => ?_⟩
    · rw [placeAt_run, if_pos needed]
    · rw [placeAt_run, if_pos needed]
    · have first : ρ g.next = g'.next := block 0 Nat.one_pos
      have sameCase : caseFor g'.next (node.renumber ρ) = (caseFor g.next node).renumber ρ := by
        simp [caseFor, Statement.renumber, Statement.renumberAll, first]
      rw [placeAt_run, placeAt_run, sameNeed, if_pos needed, if_pos needed, sameCase]
      refine ⟨?_, rfl, rfl⟩
      rw [SchemaNode.renumber_mk, SchemaNode.renumber_augment]
      rfl
  · refine ⟨0, [], ?_, ?_, fun g' _ => ?_⟩
    · rw [placeAt_run, if_neg needed]
      rfl
    · rw [placeAt_run, if_neg needed, List.append_nil]
    · rw [placeAt_run, placeAt_run, sameNeed, if_neg needed, if_neg needed]
      exact ⟨rfl, rfl, by simp⟩

theorem copyTo_mirrors (ρ : Nat → Nat) (site : Site) (template : Statement) :
    Mirrors ρ (Statement.renumber ρ) (copyTo site template) (copyTo (site.renumber ρ) (template.renumber ρ)) := by
  intro g
  refine ⟨template.size, [⟨site.id, (template.copyFrom g.next).1⟩], ?_, rfl, fun g' block => ?_⟩
  · exact Statement.copyFrom_next g.next template
  · have copy := Statement.copyFrom_renumber template block
    refine ⟨copy, ?_, ?_⟩
    · refine (Statement.copyFrom_next g'.next _).trans ?_
      rw [Statement.renumber_size]
    · show g'.made ++ [⟨ρ site.id, ((template.renumber ρ).copyFrom g'.next).1⟩] = _
      rw [copy]
      rfl

/-! ## Growing nodes -/

theorem grow_eq (expand : Expander) (busy : List Nat) (s : Statement) :
    grow expand busy s =
      if isSchemaNode s.keyword then do
        let children ← growAll expand busy s.site s.subs
        pure ⟨s, children, none⟩
      else pure ⟨s, [], none⟩ := by
  refine StateT.ext fun g => ?_
  rw [grow_run]
  split <;> rfl

theorem growAll_cons (expand : Expander) (busy : List Nat) (site : Site) (s : Statement)
    (rest : List Statement) :
    growAll expand busy site (s :: rest) = (do
      let here ← contribution expand (grow expand busy) busy site s
      let others ← growAll expand busy site rest
      pure (here ++ others)) :=
  StateT.ext fun g => growAll_cons_run expand busy site s rest g

theorem copyAllTo_cons (expand : Expander) (busy : List Nat) (site : Site) (s : Statement)
    (rest : List Statement) :
    copyAllTo expand busy site (s :: rest) = (do
      let here ← contribution expand (growCopy expand busy site) busy site s
      let others ← copyAllTo expand busy site rest
      pure (here ++ others)) :=
  StateT.ext fun g => copyAllTo_cons_run expand busy site s rest g

/-- An expander that brings the same nodes as another one, with other numbers. -/
def Expander.Mirrors (ρ : Nat → Nat) (expand expand' : Expander) (busy : List Nat) : Prop :=
  ∀ site uses, YangStubs.Schema.Mirrors ρ (List.map (SchemaNode.renumber ρ)) (expand busy site uses)
    (expand' (busy.map ρ) (site.renumber ρ) (uses.renumber ρ))

section Growing

variable {ρ : Nat → Nat} {expand expand' : Expander} {busy : List Nat}

theorem contribution_mirrors (mirrors : expand.Mirrors ρ expand' busy)
    {one one' : Statement → StateM Growth SchemaNode} {s : Statement}
    (single : Mirrors ρ (SchemaNode.renumber ρ) (one s) (one' (s.renumber ρ))) (site : Site) :
    Mirrors ρ (List.map (SchemaNode.renumber ρ)) (contribution expand one busy site s)
      (contribution expand' one' (busy.map ρ) (site.renumber ρ) (s.renumber ρ)) := by
  rw [contribution, contribution, Statement.renumber_keyword]
  split
  · exact mirrors site s
  · split
    · refine single.bind fun node => (placeAt_mirrors ρ site node).bind fun placed => ?_
      exact Mirrors.pure [placed]
    · exact Mirrors.pure []

/-- Lists of nodes that are brought one after the other. -/
theorem Mirrors.append {x y : StateM Growth (List SchemaNode)} {x' y' : StateM Growth (List SchemaNode)}
    (first : Mirrors ρ (List.map (SchemaNode.renumber ρ)) x x')
    (second : Mirrors ρ (List.map (SchemaNode.renumber ρ)) y y') :
    Mirrors ρ (List.map (SchemaNode.renumber ρ))
      (do let here ← x; let others ← y; Pure.pure (here ++ others))
      (do let here ← x'; let others ← y'; Pure.pure (here ++ others)) := by
  refine first.bind fun here => second.bind fun others => ?_
  rw [← List.map_append]
  exact Mirrors.pure (here ++ others)

mutual
theorem grow_mirrors (mirrors : expand.Mirrors ρ expand' busy) :
    ∀ s : Statement, Mirrors ρ (SchemaNode.renumber ρ) (grow expand busy s) (grow expand' (busy.map ρ) (s.renumber ρ))
  | ⟨id, keyword, arg, home, origin, grouping, typedef, subs⟩ => by
    rw [grow_eq, grow_eq, Statement.renumber_keyword]
    split
    · refine (growAll_mirrors mirrors ⟨id, keyword⟩ subs).bind fun children => ?_
      rw [← Option.map_none (f := ρ), ← SchemaNode.renumber_mk]
      exact Mirrors.pure _
    · exact Mirrors.pure _

theorem growAll_mirrors (mirrors : expand.Mirrors ρ expand' busy) (site : Site) :
    ∀ l : List Statement, Mirrors ρ (List.map (SchemaNode.renumber ρ)) (growAll expand busy site l)
      (growAll expand' (busy.map ρ) (site.renumber ρ) (Statement.renumberAll ρ l))
  | [] => Mirrors.pure []
  | s :: rest => by
    rw [Statement.renumberAll, growAll_cons, growAll_cons]
    exact (contribution_mirrors mirrors (grow_mirrors mirrors s) site).append (growAll_mirrors mirrors site rest)
end

theorem copyAllTo_mirrors (mirrors : expand.Mirrors ρ expand' busy) (site : Site) (l : List Statement) :
    Mirrors ρ (List.map (SchemaNode.renumber ρ)) (copyAllTo expand busy site l)
      (copyAllTo expand' (busy.map ρ) (site.renumber ρ) (l.map (Statement.renumber ρ))) := by
  induction l with
  | nil => exact Mirrors.pure []
  | cons s rest ih =>
    rw [List.map_cons, copyAllTo_cons, copyAllTo_cons]
    have single : Mirrors ρ (SchemaNode.renumber ρ) (growCopy expand busy site s)
        (growCopy expand' (busy.map ρ) (site.renumber ρ) (s.renumber ρ)) :=
      (copyTo_mirrors ρ site s).bind fun copy => grow_mirrors mirrors copy
    exact (contribution_mirrors mirrors single site).append ih

end Growing

/-! ## Expanding groupings -/

/-- The groupings of two forests, the second with other numbers and perhaps with more groupings. -/
def GroupingsMatch (ρ : Nat → Nat) (groupings groupings' : List Statement) : Prop :=
  ∀ id, groupings'.find? (·.id == ρ id) = (groupings.find? (·.id == id)).map (Statement.renumber ρ)

section Groupings

variable {ρ : Nat → Nat} {groupings groupings' : List Statement}

theorem groupingOf?_renumber (same : GroupingsMatch ρ groupings groupings') (uses : Statement) :
    groupingOf? groupings' (uses.renumber ρ) = (groupingOf? groupings uses).map (Statement.renumber ρ) := by
  rw [groupingOf?, groupingOf?, Statement.renumber_grouping]
  cases uses.grouping with
  | none => rfl
  | some id => exact same id

theorem contains_map_iff (injective : Function.Injective ρ) (busy : List Nat) (id : Nat) :
    (busy.map ρ).contains (ρ id) = busy.contains id := by
  rw [Bool.eq_iff_iff, List.contains_iff_mem, List.contains_iff_mem, List.mem_map_of_injective injective]

theorem expander_succ (groupings : List Statement) (bound : Nat) (busy : List Nat) (site : Site)
    (uses : Statement) :
    expander groupings (bound + 1) busy site uses =
      match groupingOf? groupings uses with
      | none => pure []
      | some grouping =>
        if busy.contains grouping.id then do
          reportRecursiveUse uses
          pure []
        else copyAllTo (expander groupings bound) (grouping.id :: busy) site grouping.subs := by
  cases found : groupingOf? groupings uses with
  | none => simp only [expander, ← groupingOf?.eq_1, found]
  | some grouping => simp only [expander, ← groupingOf?.eq_1, found]

theorem reportRecursiveUse_mirrors (uses : Statement) :
    Mirrors ρ (List.map (SchemaNode.renumber ρ)) (do reportRecursiveUse uses; pure [])
      (do reportRecursiveUse (uses.renumber ρ); pure []) :=
  Mirrors.idle (a := []) (fun _ => ⟨rfl, rfl, rfl⟩) fun _ => ⟨rfl, rfl, rfl⟩

/-- A larger bound brings nothing more, once it is large enough. -/
theorem expander_mirrors (injective : Function.Injective ρ) (same : GroupingsMatch ρ groupings groupings') :
    ∀ (bound bound' : Nat) (busy : List Nat), unopened groupings busy ≤ bound → bound ≤ bound' →
      Expander.Mirrors ρ (expander groupings bound) (expander groupings' bound') busy
  | 0, 0, _, _, _ => fun _ uses => reportRecursiveUse_mirrors uses
  | 0, bound' + 1, busy, few, _ => by
    intro site uses
    rw [expander_succ, groupingOf?_renumber same]
    cases found : groupingOf? groupings uses with
    | none => exact Mirrors.idle (a := []) (fun _ => ⟨rfl, rfl, rfl⟩) fun _ => ⟨rfl, rfl, rfl⟩
    | some grouping =>
      -- No grouping is left to open, so this one is open already.
      have isOpen : busy.contains grouping.id = true := by
        by_contra closed
        have counted := unopened_lt (groupingOf?_mem found) (by simpa using closed)
        omega
      simp only [Option.map_some, Statement.renumber_id, contains_map_iff injective, isOpen, if_true]
      exact reportRecursiveUse_mirrors uses
  | bound + 1, 0, _, _, larger => absurd larger (Nat.not_succ_le_zero bound)
  | bound + 1, bound' + 1, busy, few, larger => by
    intro site uses
    rw [expander_succ, expander_succ, groupingOf?_renumber same]
    cases found : groupingOf? groupings uses with
    | none => exact Mirrors.pure []
    | some grouping =>
      simp only [Option.map_some, Statement.renumber_id, contains_map_iff injective, Statement.renumber_subs]
      split
      · exact reportRecursiveUse_mirrors uses
      · rename_i closed
        have counted := unopened_lt (groupingOf?_mem found) (by simpa using closed)
        have inner := expander_mirrors injective same bound bound' (grouping.id :: busy) (by omega) (by omega)
        exact copyAllTo_mirrors inner site grouping.subs

end Groupings

/-! ## Modules, groupings and augments -/

theorem growModules_cons (expand : Expander) (s : Statement) (rest : List Statement) :
    growModules expand (s :: rest) = (do
      let node ← grow expand [] s
      let others ← growModules expand rest
      pure (node :: others)) := rfl

theorem growDefinitions_append (expand : Expander) (l k : List Statement.Placed) :
    growDefinitions expand (l ++ k) = (do
      let first ← growDefinitions expand l
      let second ← growDefinitions expand k
      pure (first.1 ++ second.1, first.2 ++ second.2)) := by
  induction l with
  | nil => rfl
  | cons p rest ih =>
    refine StateT.ext fun g => ?_
    rw [List.cons_append, growDefinitions_cons_run, run_bind, growDefinitions_cons_run]
    split
    · rw [ih]
      rfl
    · split
      · rw [ih]
        rfl
      · rw [ih]
        rfl

/-- The expanded groupings and augments with other numbers. -/
def renumberDefinitions (ρ : Nat → Nat) (definitions : List SchemaNode × List SchemaNode) :
    List SchemaNode × List SchemaNode :=
  (definitions.1.map (SchemaNode.renumber ρ), definitions.2.map (SchemaNode.renumber ρ))

theorem isTopAugment_renumber (ρ : Nat → Nat) (p : Statement.Placed) :
    isTopAugment (p.renumber ρ) = isTopAugment p := by
  rw [isTopAugment, isTopAugment, Statement.Placed.renumber, Statement.renumber_keyword]
  cases p.around with
  | none => rfl
  | some s => simp

section Definitions

variable {ρ : Nat → Nat} {expand expand' : Expander} (mirrors : ∀ busy, expand.Mirrors ρ expand' busy)
include mirrors

theorem growModules_mirrors (tops : List Statement) :
    Mirrors ρ (List.map (SchemaNode.renumber ρ)) (growModules expand tops)
      (growModules expand' (tops.map (Statement.renumber ρ))) := by
  induction tops with
  | nil => exact Mirrors.pure []
  | cons s rest ih =>
    rw [List.map_cons, growModules_cons, growModules_cons]
    exact (grow_mirrors (mirrors []) s).bind fun node => ih.bind fun others => Mirrors.pure (node :: others)

theorem growDefinitions_mirrors (listing : List Statement.Placed) :
    Mirrors ρ (renumberDefinitions ρ) (growDefinitions expand listing)
      (growDefinitions expand' (listing.map (Statement.Placed.renumber ρ))) := by
  induction listing with
  | nil => exact Mirrors.pure ([], [])
  | cons p rest ih =>
    have sameKeyword : (p.renumber ρ).statement.keyword = p.statement.keyword :=
      Statement.renumber_keyword ρ p.statement
    have sameId : (p.renumber ρ).statement.id = ρ p.statement.id := Statement.renumber_id ρ p.statement
    rw [List.map_cons, growDefinitions, growDefinitions, sameKeyword, isTopAugment_renumber, sameId]
    split
    · exact (grow_mirrors (mirrors [p.statement.id]) p.statement).bind fun node =>
        ih.bind fun others => Mirrors.pure (node :: others.1, others.2)
    · split
      · exact (grow_mirrors (mirrors []) p.statement).bind fun node =>
          ih.bind fun others => Mirrors.pure (others.1, node :: others.2)
      · exact ih

end Definitions

end YangStubs.Schema
