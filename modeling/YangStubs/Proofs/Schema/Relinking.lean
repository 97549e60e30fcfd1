import YangStubs.Proofs.Schema.Renumbering

/-! # Linking with other numbers

Names are looked up by what statements say, so linking statements with other numbers gives the same links,
with other numbers, or the same error.
-/

namespace YangStubs.Schema

theorem Logged.bind_run_ok {α β : Type} {x : Logged α} {log mid : Log} {a : α}
    (run : x.run.run log = (.ok a, mid)) (f : α → Logged β) : (x >>= f).run.run log = (f a).run.run mid := by
  simp only [ExceptT.run_bind, StateT.run_bind, run]
  rfl

theorem Logged.bind_run_error {α β : Type} {x : Logged α} {log mid : Log} {e : SchemaError}
    (run : x.run.run log = (.error e, mid)) (f : α → Logged β) : (x >>= f).run.run log = (.error e, mid) := by
  simp only [ExceptT.run_bind, StateT.run_bind, run]
  rfl

/-- The second computation has the result of the first one, in another view; reports may differ. -/
def Logged.Mirrors {α β : Type} (view : α → β) (x : Logged α) (x' : Logged β) : Prop :=
  ∀ log log' : Log, (x'.run.run log').1 = (x.run.run log).1.map view

namespace Logged.Mirrors

variable {α β α' β' : Type}

theorem pure {view : α → β} (a : α) : Mirrors view (Pure.pure a) (Pure.pure (view a)) :=
  fun _ _ => rfl

theorem bind {view : α → α'} {view' : β → β'} {x : Logged α} {x' : Logged α'} {f : α → Logged β}
    {f' : α' → Logged β'} (first : Mirrors view x x') (second : ∀ a, Mirrors view' (f a) (f' (view a))) :
    Mirrors view' (x >>= f) (x' >>= f') := by
  intro log log'
  have here := first log log'
  cases run : x.run.run log with
  | mk result mid =>
    cases run' : x'.run.run log' with
    | mk result' mid' =>
      rw [run, run'] at here
      cases result with
      | error e =>
        cases here
        rw [Logged.bind_run_error run, Logged.bind_run_error run']
        rfl
      | ok a =>
        cases here
        rw [Logged.bind_run_ok run, Logged.bind_run_ok run']
        exact second a mid mid'

end Logged.Mirrors

/-! ## Looking up names -/

/-- A directory of the same modules, whose statements have other numbers. -/
structure Directory.Renumbers (ρ : Nat → Nat) (directory directory' : Directory) : Prop where
  modules : ∀ name, directory'.modules.lookup name = (directory.modules.lookup name).map (Statement.renumber ρ)
  qualifiers : ∀ name, directory'.qualifiers.lookup name = directory.qualifiers.lookup name

section Lookup

variable {ρ : Nat → Nat} {directory directory' : Directory}

theorem Directory.Renumbers.moduleFor? (same : directory.Renumbers ρ directory') (home : String)
    (qualifier : Option String) : directory'.moduleFor? home qualifier = directory.moduleFor? home qualifier := by
  cases qualifier with
  | none => rfl
  | some qualifier => simp only [Directory.moduleFor?, same.qualifiers]

theorem Directory.definedIn?_renumber (ρ : Nat → Nat) (scope : List Statement) (keyword name : String) :
    Directory.definedIn? (scope.map (Statement.renumber ρ)) keyword name =
      (Directory.definedIn? scope keyword name).map (Statement.renumber ρ) := by
  simp only [Directory.definedIn?, List.find?_map, Function.comp_def, Statement.renumber_keyword,
    Statement.renumber_name]

theorem findSome?_definedIn?_renumber (ρ : Nat → Nat) (scopes : List (List Statement))
    (keyword name : String) :
    (scopes.map (List.map (Statement.renumber ρ))).findSome? (Directory.definedIn? · keyword name) =
      (scopes.findSome? (Directory.definedIn? · keyword name)).map (Statement.renumber ρ) := by
  induction scopes with
  | nil => rfl
  | cons scope rest ih =>
    rw [List.map_cons, List.findSome?_cons, List.findSome?_cons, Directory.definedIn?_renumber]
    cases Directory.definedIn? scope keyword name with
    | none => exact ih
    | some d => rfl

theorem Directory.Renumbers.find? (same : directory.Renumbers ρ directory') (home : String)
    (scopes : List (List Statement)) (keyword name : String) :
    directory'.find? home (scopes.map (List.map (Statement.renumber ρ))) keyword name =
      (directory.find? home scopes keyword name).map (Option.map (Statement.renumber ρ)) := by
  simp only [Directory.find?, same.moduleFor?]
  cases directory.moduleFor? home (splitQualifier name).1 with
  | none => rfl
  | some target =>
    simp only
    split
    · rw [findSome?_definedIn?_renumber]
      rfl
    · rw [same.modules]
      cases directory.modules.lookup target with
      | none => rfl
      | some top =>
        simp only [Option.map_some, Option.bind_some, Statement.renumber_subs, Directory.definedIn?_renumber]
        rfl

/-! ## Linking -/

theorem linksOf_mirrors (same : directory.Renumbers ρ directory') (scopes : List (List Statement))
    (keyword name home : String) :
    Logged.Mirrors (Prod.map (Option.map ρ) (Option.map ρ)) (linksOf directory scopes keyword name home)
      (linksOf directory' (scopes.map (List.map (Statement.renumber ρ))) keyword name home) := by
  intro log log'
  simp only [linksOf, same.find?]
  split
  · rcases directory.find? home scopes "grouping" name with e | (_ | d) <;> try rfl
    simp only [Except.map, Option.map_some, Statement.renumber_id]
    rfl
  · split
    · rcases directory.find? home scopes "typedef" name with e | (_ | d) <;> try rfl
      simp only [Except.map, Option.map_some, Statement.renumber_id]
      rfl
    · rfl

mutual
theorem link_mirrors (same : directory.Renumbers ρ directory') (scopes : List (List Statement)) :
    ∀ s : Statement, Logged.Mirrors (Statement.renumber ρ) (link directory scopes s)
      (link directory' (scopes.map (List.map (Statement.renumber ρ))) (s.renumber ρ))
  | ⟨id, keyword, arg, home, origin, grouping, typedef, subs⟩ => by
    simp only [Statement.renumber, link]
    refine (linksOf_mirrors same scopes keyword (arg.getD keyword) home).bind fun links => ?_
    have inside := linkAll_mirrors same (subs :: scopes) subs
    rw [List.map_cons, ← Statement.renumberAll_eq_map ρ subs] at inside
    refine inside.bind fun linked => ?_
    exact Logged.Mirrors.pure (⟨id, keyword, arg, home, origin, links.1, links.2, linked⟩ : Statement)

theorem linkAll_mirrors (same : directory.Renumbers ρ directory') (scopes : List (List Statement)) :
    ∀ l : List Statement, Logged.Mirrors (Statement.renumberAll ρ) (linkAll directory scopes l)
      (linkAll directory' (scopes.map (List.map (Statement.renumber ρ))) (Statement.renumberAll ρ l))
  | [] => Logged.Mirrors.pure []
  | s :: rest => by
    simp only [Statement.renumberAll, linkAll]
    refine (link_mirrors same scopes s).bind fun first => ?_
    exact (linkAll_mirrors same scopes rest).bind fun others => Logged.Mirrors.pure (first :: others)
end

end Lookup

/-- What becomes of a tree at the top level. -/
def linkTree (directory : Directory) (s : Statement) : Except SchemaError Statement :=
  ((link directory [] s).run.run []).1

theorem linkTree_renumber {ρ : Nat → Nat} {directory directory' : Directory}
    (same : directory.Renumbers ρ directory') (s : Statement) :
    linkTree directory' (s.renumber ρ) = (linkTree directory s).map (Statement.renumber ρ) :=
  link_mirrors same [] s [] []

theorem Directory.Renumbers.refl (directory : Directory) : directory.Renumbers (fun i => i) directory := by
  refine ⟨fun name => ?_, fun _ => rfl⟩
  cases directory.modules.lookup name with
  | none => rfl
  | some top => rw [Option.map_some, Statement.renumber_self]

theorem linkTree_id {directory : Directory} {s s' : Statement} (linked : linkTree directory s = .ok s') :
    s'.id = s.id := by
  obtain ⟨id, keyword, arg, home, origin, grouping, typedef, subs⟩ := s
  have run : (link directory [] ⟨id, keyword, arg, home, origin, grouping, typedef, subs⟩).run.run [] =
      (.ok s', ((link directory [] ⟨id, keyword, arg, home, origin, grouping, typedef, subs⟩).run.run []).2) :=
    Prod.ext linked rfl
  simp only [link] at run
  obtain ⟨links, mid, -, run⟩ := Logged.bind_ok run
  obtain ⟨inner, mid', -, run⟩ := Logged.bind_ok run
  cases Logged.pure_ok run
  rfl

theorem link_eq_linkTree (directory : Directory) (s : Statement) (log : Log) :
    ((link directory [] s).run.run log).1 = linkTree directory s := by
  have same := link_mirrors (Directory.Renumbers.refl directory) [] s [] log
  rw [Statement.renumber_self, List.map_nil] at same
  rw [same, linkTree]
  cases ((link directory [] s).run.run []).1 with
  | error e => rfl
  | ok linked => rw [Except.map, Statement.renumber_self]

/-- Trees are linked one by one, up to the first error. -/
theorem linkAll_eq_mapM (directory : Directory) (l : List Statement) :
    ∀ log : Log, ((linkAll directory [] l).run.run log).1 = l.mapM (linkTree directory) := by
  induction l with
  | nil => exact fun _ => rfl
  | cons s rest ih =>
    intro log
    rw [List.mapM_cons, ← link_eq_linkTree directory s log]
    simp only [linkAll]
    cases run : (link directory [] s).run.run log with
    | mk result mid =>
      cases result with
      | error e =>
        rw [Logged.bind_run_error run]
        rfl
      | ok first =>
        rw [Logged.bind_run_ok run, ← ih mid]
        cases run' : (linkAll directory [] rest).run.run mid with
        | mk result' mid' =>
          cases result' with
          | error e =>
            rw [Logged.bind_run_error run']
            rfl
          | ok others =>
            rw [Logged.bind_run_ok run']
            rfl

end YangStubs.Schema
