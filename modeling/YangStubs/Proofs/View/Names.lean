import Mathlib.Data.List.Nodup
import YangStubs.Proofs.Model.Module
import YangStubs.View.ModuleItems

/-! # One space of names

The nodes of a model are gone through in the order of their numbers.  Each has one item at most, and an item
takes one name, or two for a procedure.  A name belongs to the kind of the first item that takes it; an item
is kept if its names belong to its kind and no item of its kind and name was there before.
-/

namespace YangStubs.View

open YangStubs.Model
open YangStubs.Schema (Library run_bind)

variable {e : Entry} {x : String}

/-! ## Items of any kind -/

/-- An item of any kind. -/
inductive Entry where
  | ofClass (item : ClassItem)
  | ofEnum (item : EnumItem)
  | ofUnion (item : UnionItem)
  | ofAlias (item : AliasItem)
  | ofRpc (item : RpcItem)
  deriving DecidableEq

namespace Entry

def kind : Entry → ItemKind
  | ofClass _ => .classes
  | ofEnum _ => .enums
  | ofUnion _ => .unions
  | ofAlias _ => .aliases
  | ofRpc _ => .rpcs

def name : Entry → String
  | ofClass item => item.name
  | ofEnum item => item.name
  | ofUnion item => item.name
  | ofAlias item => item.name
  | ofRpc item => item.name

/-- The names of the messages of a procedure. -/
def messages (rpc : String) : List String :=
  [rpc ++ "Input", rpc ++ "Output"]

/-- The names that an item takes. -/
def names : Entry → List String
  | ofRpc item => messages item.name
  | e => [e.name]

/-- Adds an item to a view, whichever kind it is of. -/
def put : Entry → Drafting Unit
  | ofClass item => putClass item
  | ofEnum item => putEnum item
  | ofUnion item => putUnion item
  | ofAlias item => putAlias item
  | ofRpc item => putRpc item

/-- What is done with an item once it has its names. -/
def accept (d : Draft) : Entry → Draft
  | ofClass item =>
    { d with
      view := { d.view with classes := (admitItem d.view.classes item).1 }
      log := d.log ++ (admitItem d.view.classes item).2 }
  | ofEnum item =>
    { d with
      view := { d.view with enums := (admitItem d.view.enums item).1 }
      log := d.log ++ (admitItem d.view.enums item).2 }
  | ofUnion item =>
    { d with
      view := { d.view with unions := (admitItem d.view.unions item).1 }
      log := d.log ++ (admitItem d.view.unions item).2 }
  | ofAlias item =>
    { d with
      view := { d.view with aliases := (admitItem d.view.aliases item).1 }
      log := d.log ++ (admitItem d.view.aliases item).2 }
  | ofRpc item =>
    { d with
      view := { d.view with rpcs := (admitItem d.view.rpcs item).1 }
      log := d.log ++ (admitItem d.view.rpcs item).2 }

theorem names_eq_of_kind_name {e' : Entry} (kind : e.kind = e'.kind) (name : e.name = e'.name) :
    e.names = e'.names := by
  cases e <;> cases e' <;> simp_all [Entry.kind, Entry.name, names]

theorem name_eq_of_mem_names (other : e.kind ≠ .rpcs) (member : x ∈ e.names) : x = e.name := by
  cases e <;> simp_all [Entry.kind, names]

theorem name_mem_names (other : e.kind ≠ .rpcs) : e.name ∈ e.names := by
  cases e <;> simp_all [Entry.kind, names]

theorem names_of_rpc (isRpc : e.kind = .rpcs) : e.names = messages e.name := by
  cases e <;> simp_all [Entry.kind, names, Entry.name]

end Entry

/-- The items of a kind. -/
def ModuleItems.entries (view : ModuleItems) : ItemKind → List Entry
  | .classes => view.classes.map .ofClass
  | .enums => view.enums.map .ofEnum
  | .unions => view.unions.map .ofUnion
  | .aliases => view.aliases.map .ofAlias
  | .rpcs => view.rpcs.map .ofRpc

/-- The names that the items of a view have: those of its classes, enums, unions and aliases, and those of
    the messages of its procedures. -/
def ModuleItems.names (view : ModuleItems) : List String :=
  view.classes.map (·.name) ++ (view.enums.map (·.name) ++ (view.unions.map (·.name) ++
    (view.aliases.map (·.name) ++ view.rpcs.flatMap fun rpc => Entry.messages rpc.name)))

/-! ## Taking names -/

theorem lookup_append_singleton (taken : List (String × ItemKind)) (name : String) (kind : ItemKind)
    (x : String) :
    (taken ++ [(name, kind)]).lookup x = (taken.lookup x).or (if x = name then some kind else none) := by
  rw [List.lookup_append, List.lookup_cons]
  by_cases here : x = name
  · simp [here]
  · have elsewhere : (x == name) = false := by simpa using here
    simp [here, elsewhere]

/-- Taking a name: it belongs to whom it belonged to before, if to anyone, and the answer says whether that
    is the kind for which it is taken. -/
theorem takeName_run (kind : ItemKind) (name : String) (d : Draft) :
    let r := (takeName kind name).run d
    r.1 = decide (r.2.taken.lookup name = some kind) ∧ r.2.view = d.view ∧
      ∀ x, r.2.taken.lookup x = (d.taken.lookup x).or (if x = name then some kind else none) := by
  have current : ((get : Drafting Draft).run d) = (d, d) := rfl
  simp only [takeName, run_bind, current]
  cases found : d.taken.lookup name with
  | none =>
    have added := lookup_append_singleton d.taken name kind
    refine ⟨?_, rfl, added⟩
    show true = decide ((d.taken ++ [(name, kind)]).lookup name = some kind)
    rw [added, found]
    simp
  | some first =>
    -- Nothing is added, and a name that is taken is not given to anyone else.
    have same : ∀ x, d.taken.lookup x = (d.taken.lookup x).or (if x = name then some kind else none) := by
      intro x
      by_cases here : x = name
      · rw [here, found, Option.some_or]
      · rw [if_neg here, Option.or_none]
    by_cases own : first = kind
    · simp only [own, beq_self_eq_true, if_true]
      refine ⟨?_, rfl, same⟩
      show true = decide (d.taken.lookup name = some kind)
      simp [found, own]
    · simp only [beq_iff_eq, own, if_false]
      refine ⟨?_, rfl, same⟩
      show false = decide (d.taken.lookup name = some kind)
      simp [found, own]

/-- Takes several names for an item. -/
def takeNames (kind : ItemKind) : List String → Drafting Bool
  | [] => return true
  | name :: rest => do
    let own ← takeName kind name
    let others ← takeNames kind rest
    return own && others

theorem takeNames_nil_run (kind : ItemKind) (d : Draft) : (takeNames kind []).run d = (true, d) := rfl

theorem takeNames_cons_run (kind : ItemKind) (name : String) (rest : List String) (d : Draft) :
    (takeNames kind (name :: rest)).run d =
      (let first := (takeName kind name).run d
       let others := (takeNames kind rest).run first.2
       (first.1 && others.1, others.2)) := rfl

theorem takeNames_run (kind : ItemKind) (names : List String) :
    ∀ d : Draft, let r := (takeNames kind names).run d
      r.1 = decide (∀ x ∈ names, r.2.taken.lookup x = some kind) ∧ r.2.view = d.view ∧
        ∀ x, r.2.taken.lookup x = (d.taken.lookup x).or (if x ∈ names then some kind else none) := by
  induction names with
  | nil =>
    intro d
    rw [takeNames_nil_run]
    simp
  | cons name rest ih =>
    intro d
    rw [takeNames_cons_run]
    obtain ⟨answer, view, taken⟩ := takeName_run kind name d
    obtain ⟨answer', view', taken'⟩ := ih ((takeName kind name).run d).2
    -- The first name belongs to someone by now, so the others leave it there.
    have stays : ((takeNames kind rest).run ((takeName kind name).run d).2).2.taken.lookup name =
        ((takeName kind name).run d).2.taken.lookup name := by
      rw [taken', taken]
      cases d.taken.lookup name <;> simp
    refine ⟨?_, view'.trans view, fun x => ?_⟩
    · simp only [answer, answer', stays, List.forall_mem_cons, Bool.decide_and]
    · simp only [taken', taken, Option.or_assoc]
      by_cases here : x = name <;> simp [here]

/-- Adding an item: it takes its names, and is admitted if all of them belong to its kind. -/
theorem Entry.put_run (e : Entry) (d : Draft) :
    (e.put.run d).2 =
      (let r := (takeNames e.kind e.names).run d
       if r.1 then e.accept r.2 else r.2) := by
  have guarded : ∀ (take : Drafting Bool) (f : Draft → Draft),
      ((take >>= fun own => if own then modify f else pure ()).run d).2 =
        if (take.run d).1 then f (take.run d).2 else (take.run d).2 := by
    intro take f
    rw [run_bind]
    cases (take.run d).1 <;> rfl
  have single : ∀ (kind : ItemKind) (name : String), (takeNames kind [name]).run d = (takeName kind name).run d := by
    intro kind name
    exact Prod.ext (Bool.and_true _) rfl
  cases e with
  | ofClass item => exact (guarded _ _).trans (by rw [← single]; rfl)
  | ofEnum item => exact (guarded _ _).trans (by rw [← single]; rfl)
  | ofUnion item => exact (guarded _ _).trans (by rw [← single]; rfl)
  | ofAlias item => exact (guarded _ _).trans (by rw [← single]; rfl)
  | ofRpc item =>
    let input := (takeName .rpcs (item.name ++ "Input")).run d
    let output := (takeName .rpcs (item.name ++ "Output")).run input.2
    have both : (takeNames .rpcs (messages item.name)).run d = (input.1 && output.1, output.2) :=
      Prod.ext (congrArg (input.1 && ·) (Bool.and_true _)) rfl
    show ((putRpc item).run d).2 = _
    simp only [kind, names, both]
    rw [putRpc, run_bind, run_bind]
    cases (input.1 && output.1) <;> rfl

/-! ## Admitting items -/

theorem admitItem_items {α : Type} [Item α] (items : List α) (item : α) :
    (admitItem items item).1 =
      if Item.name item ∈ items.map Item.name then items else items ++ [item] := by
  unfold admitItem
  cases found : items.find? fun first => Item.name first == Item.name item with
  | none =>
    have absent : Item.name item ∉ items.map Item.name := by
      simpa [List.find?_eq_none] using found
    rw [if_neg absent]
  | some first =>
    have present : Item.name item ∈ items.map Item.name :=
      List.mem_map.2 ⟨first, List.mem_of_find?_eq_some found, by simpa using List.find?_some found⟩
    simp only [if_pos present]
    split <;> rfl

namespace Entry

theorem accept_taken (e : Entry) (d : Draft) : (e.accept d).taken = d.taken := by
  cases e <;> rfl

theorem accept_entries (e : Entry) (d : Draft) (k : ItemKind) :
    (e.accept d).view.entries k =
      if k = e.kind ∧ e.name ∉ (d.view.entries k).map name then d.view.entries k ++ [e]
      else d.view.entries k := by
  have append : ∀ {α : Type} [Item α] (wrap : α → Entry) (_ : ∀ a, (wrap a).name = Item.name a)
      (items : List α) (item : α),
      (admitItem items item).1.map wrap =
        if (wrap item).name ∉ (items.map wrap).map name then items.map wrap ++ [wrap item]
        else items.map wrap := by
    intro α _ wrap named items item
    have names : (items.map wrap).map name = items.map Item.name := by
      rw [List.map_map]
      exact List.map_congr_left fun a _ => named a
    rw [admitItem_items, names, named]
    by_cases present : Item.name item ∈ items.map Item.name
    · simp only [present, if_true, not_true_eq_false, if_false]
    · simp only [present, if_false, not_false_eq_true, if_true, List.map_append, List.map_singleton]
  by_cases own : k = e.kind
  · have ofKind : (e.accept d).view.entries e.kind =
        if e.name ∉ (d.view.entries e.kind).map name then d.view.entries e.kind ++ [e]
        else d.view.entries e.kind := by
      cases e with
      | ofClass item => exact append ofClass (fun _ => rfl) d.view.classes item
      | ofEnum item => exact append ofEnum (fun _ => rfl) d.view.enums item
      | ofUnion item => exact append ofUnion (fun _ => rfl) d.view.unions item
      | ofAlias item => exact append ofAlias (fun _ => rfl) d.view.aliases item
      | ofRpc item => exact append ofRpc (fun _ => rfl) d.view.rpcs item
    subst own
    simp only [ofKind, true_and]
  · rw [if_neg fun both => own both.1]
    cases e <;> cases k <;> first | rfl | exact absurd rfl own

/-- What one item does to the names that are taken. -/
theorem put_taken (e : Entry) (d : Draft) (x : String) :
    (e.put.run d).2.taken.lookup x = (d.taken.lookup x).or (if x ∈ e.names then some e.kind else none) := by
  obtain ⟨-, -, taken⟩ := takeNames_run e.kind e.names d
  rw [put_run]
  simp only
  split
  · rw [accept_taken, taken]
  · rw [taken]

/-- What one item does to the items of a view: it is the last of its kind, or nothing changes. -/
theorem put_entries (e : Entry) (d : Draft) (k : ItemKind) :
    (e.put.run d).2.view.entries k =
      if k = e.kind ∧ (∀ x ∈ e.names, (e.put.run d).2.taken.lookup x = some e.kind) ∧
          e.name ∉ (d.view.entries k).map name
        then d.view.entries k ++ [e] else d.view.entries k := by
  obtain ⟨answer, view, taken⟩ := takeNames_run e.kind e.names d
  simp only [put_taken, ← taken]
  rw [put_run]
  by_cases own : ∀ x ∈ e.names, ((takeNames e.kind e.names).run d).2.taken.lookup x = some e.kind
  · have accepted : ((takeNames e.kind e.names).run d).1 = true := answer.trans (decide_eq_true own)
    simp only [accepted, if_true, accept_entries, view]
    exact if_congr (and_congr_right fun _ => (and_iff_right own).symm) rfl rfl
  · have refused : ((takeNames e.kind e.names).run d).1 = false := answer.trans (decide_eq_false own)
    simp only [refused, Bool.false_eq_true, if_false, view]
    rw [if_neg fun all => own all.2.1]

end Entry

/-! ## All items -/

/-- The kind to which a name belongs after some items: that of the first that takes it. -/
def holder? (items : List Entry) (x : String) : Option ItemKind :=
  (items.find? fun e => e.names.contains x).map Entry.kind

theorem holder?_append (items more : List Entry) (x : String) :
    holder? (items ++ more) x = (holder? items x).or (holder? more x) := by
  rw [holder?, List.find?_append, holder?, holder?]
  cases items.find? fun e => e.names.contains x <;> rfl

theorem holder?_singleton (e : Entry) (x : String) : holder? [e] x = if x ∈ e.names then some e.kind else none := by
  by_cases takes : x ∈ e.names <;> simp [holder?, takes]

theorem exists_holder {items : List Entry} (member : e ∈ items) (takes : x ∈ e.names) :
    ∃ k, holder? items x = some k := by
  cases found : items.find? fun e => e.names.contains x with
  | none =>
    have never := List.find?_eq_none.1 found e member
    simp [takes] at never
  | some first => exact ⟨first.kind, by rw [holder?, found]; rfl⟩

/-- An item that is kept: the first of its kind and name, with names that belong to its kind. -/
def Prevails (items : List Entry) (e : Entry) : Prop :=
  ∃ before after, items = before ++ e :: after ∧
    (∀ other ∈ before, other.kind = e.kind → other.name ≠ e.name) ∧
    ∀ x ∈ e.names, holder? items x = some e.kind

/-- A draft after some items. -/
structure Filled (items : List Entry) (d : Draft) : Prop where
  taken : ∀ x, d.taken.lookup x = holder? items x
  kept : ∀ e k, e ∈ d.view.entries k ↔ e.kind = k ∧ Prevails items e
  distinct : ∀ k, ((d.view.entries k).map Entry.name).Nodup

/-- Items that come later do not take a name away. -/
theorem Prevails.later {items : List Entry} {e : Entry} (prevails : Prevails items e)
    (more : List Entry) : Prevails (items ++ more) e := by
  obtain ⟨before, after, split, first, names⟩ := prevails
  refine ⟨before, after ++ more, by rw [split, List.append_assoc, List.cons_append], first, ?_⟩
  intro x takes
  rw [holder?_append, names x takes, Option.some_or]

theorem exists_prevails {items : List Entry} (member : e ∈ items)
    (names : ∀ x ∈ e.names, holder? items x = some e.kind) :
    ∃ first, Prevails items first ∧ first.kind = e.kind ∧ first.name = e.name := by
  have some : (items.find? fun other => other.kind == e.kind && other.name == e.name).isSome := by
    rw [List.find?_isSome]
    exact ⟨e, member, by simp⟩
  obtain ⟨first, found⟩ := Option.isSome_iff_exists.1 some
  obtain ⟨same, before, after, split, earlier⟩ := List.find?_eq_some_iff_append.1 found
  simp only [Bool.and_eq_true, beq_iff_eq] at same
  refine ⟨first, ⟨before, after, split, ?_, ?_⟩, same⟩
  · intro other isEarlier sameKind sameName
    have differs := earlier other isEarlier
    simp [sameKind, sameName, same] at differs
  · rw [Entry.names_eq_of_kind_name same.1 same.2, same.1]
    exact names

/-- What one item more can change: only the new item itself may come to prevail. -/
theorem prevails_append_singleton {items : List Entry} {other : Entry} :
    Prevails (items ++ [e]) other ↔ Prevails items other ∨
      other = e ∧ (∀ earlier ∈ items, earlier.kind = e.kind → earlier.name ≠ e.name) ∧
        ∀ x ∈ e.names, holder? (items ++ [e]) x = some e.kind := by
  constructor
  · rintro ⟨before, after, split, first, own⟩
    cases List.eq_nil_or_concat after with
    | inl last =>
      subst last
      obtain ⟨rfl, same⟩ := List.append_inj' split rfl
      obtain rfl := List.singleton_inj.1 same
      exact .inr ⟨rfl, first, own⟩
    | inr inner =>
      obtain ⟨after', last, rfl⟩ := inner
      have atEnd : items ++ [e] = (before ++ other :: after') ++ [last] := by simpa using split
      obtain ⟨same, -⟩ := List.append_inj' atEnd rfl
      have member : other ∈ items := by simp [same]
      refine .inl ⟨before, after', same, first, fun x takes => ?_⟩
      obtain ⟨k, holds⟩ := exists_holder member takes
      have held := own x takes
      rw [holder?_append, holds, Option.some_or] at held
      rw [holds, held]
  · rintro (prevails | ⟨rfl, first, own⟩)
    · exact prevails.later [e]
    · exact ⟨items, [], rfl, first, own⟩

/-- One item more. -/
theorem Filled.step {items : List Entry} {d : Draft} (filled : Filled items d) (e : Entry) :
    Filled (items ++ [e]) (e.put.run d).2 := by
  have taken : ∀ x, (e.put.run d).2.taken.lookup x = holder? (items ++ [e]) x := by
    intro x
    rw [e.put_taken, filled.taken, holder?_append, holder?_singleton]
  -- Once the names are its own, an item is refused only for one of its kind and name, and then for the
  -- first of these, which has been kept.
  have absent_iff : (∀ x ∈ e.names, holder? (items ++ [e]) x = some e.kind) →
      (e.name ∉ (d.view.entries e.kind).map Entry.name ↔
        ∀ earlier ∈ items, earlier.kind = e.kind → earlier.name ≠ e.name) := by
    intro own
    constructor
    · intro absent earlier member sameKind sameName
      have names := Entry.names_eq_of_kind_name sameKind sameName
      obtain ⟨first, prevails, firstKind, firstName⟩ := exists_prevails member fun x takes => by
        obtain ⟨k, holds⟩ := exists_holder member takes
        have held := own x (names ▸ takes)
        rw [holder?_append, holds, Option.some_or] at held
        rw [holds, held, sameKind]
      have isKept := (filled.kept first e.kind).2 ⟨firstKind.trans sameKind, prevails⟩
      exact absent (List.mem_map.2 ⟨first, isKept, firstName.trans sameName⟩)
    · intro none present
      obtain ⟨earlier, isKept, sameName⟩ := List.mem_map.1 present
      obtain ⟨sameKind, before, after, split, -⟩ := (filled.kept earlier e.kind).1 isKept
      exact none earlier (by rw [split]; simp) sameKind sameName
  refine ⟨taken, fun other k => ?_, fun k => ?_⟩
  · rw [e.put_entries, prevails_append_singleton]
    simp only [taken]
    split
    · rename_i added
      obtain ⟨rfl, own, absent⟩ := added
      rw [List.mem_append, List.mem_singleton, filled.kept, and_or_left]
      refine or_congr_right ⟨?_, fun spec => spec.2.1⟩
      rintro rfl
      exact ⟨rfl, rfl, (absent_iff own).1 absent, own⟩
    · rename_i refused
      rw [filled.kept, and_or_left]
      refine (or_iff_left ?_).symm
      rintro ⟨rfl, rfl, first, own⟩
      exact refused ⟨rfl, own, (absent_iff own).2 first⟩
  · rw [e.put_entries]
    split
    · rename_i added
      rw [List.map_append, List.map_singleton, List.nodup_append]
      refine ⟨filled.distinct k, List.nodup_singleton _, ?_⟩
      rintro name isKept name' same rfl
      exact added.2.2 (List.mem_singleton.1 same ▸ isKept)
    · exact filled.distinct k

theorem Filled.run {done : List Entry} {d : Draft} (filled : Filled done d) (items : List Entry) :
    Filled (done ++ items) ((items.forM Entry.put).run d).2 := by
  induction items generalizing done d with
  | nil =>
    rw [List.append_nil]
    exact filled
  | cons e rest ih =>
    have after := ih (filled.step e)
    rwa [List.append_assoc] at after

/-! ## Names of items -/

theorem messages_ne {rpc rpc' : String} : rpc ++ "Input" ≠ rpc' ++ "Output" := by
  intro same
  have shorter : (rpc ++ "In") ++ "put" = (rpc' ++ "Out") ++ "put" := by
    simpa [String.append_assoc] using same
  have ends := congrArg (fun s => s.toList.getLast?) ((String.append_left_inj "put").1 shorter)
  simp at ends

theorem messages_nodup (rpc : String) : (Entry.messages rpc).Nodup := by
  simp [Entry.messages]

/-- A name is that of a message of one procedure at most. -/
theorem eq_of_mem_messages {rpc rpc' : String} (member : x ∈ Entry.messages rpc) (member' : x ∈ Entry.messages rpc') :
    rpc = rpc' := by
  simp only [Entry.messages, List.mem_cons, List.not_mem_nil, or_false] at member member'
  rcases member with rfl | rfl <;> rcases member' with same | same
  · exact (String.append_left_inj "Input").1 same
  · exact absurd same messages_ne
  · exact absurd same.symm messages_ne
  · exact (String.append_left_inj "Output").1 same

theorem Entry.names_nodup (e : Entry) : e.names.Nodup := by
  cases e with
  | ofRpc item => exact messages_nodup item.name
  | _ => exact List.nodup_singleton _

theorem Entry.name_eq_of_names_meet {e' : Entry} (kind : e.kind = e'.kind) (takes : x ∈ e.names)
    (takes' : x ∈ e'.names) : e.name = e'.name := by
  by_cases isRpc : e.kind = .rpcs
  · rw [names_of_rpc isRpc] at takes
    rw [names_of_rpc (kind ▸ isRpc)] at takes'
    exact eq_of_mem_messages takes takes'
  · rw [← name_eq_of_mem_names isRpc takes, ← name_eq_of_mem_names (kind ▸ isRpc) takes']

/-- All kinds, in the order in which a view lists them. -/
def ItemKind.all : List ItemKind :=
  [.classes, .enums, .unions, .aliases, .rpcs]

theorem ModuleItems.names_eq (view : ModuleItems) :
    view.names = ItemKind.all.flatMap fun k => (view.entries k).flatMap Entry.names := by
  have single : ∀ {α : Type} (wrap : α → Entry) (name : α → String)
      (_ : ∀ a, (wrap a).names = [name a]) (items : List α),
      (items.map wrap).flatMap Entry.names = items.map name := by
    intro α wrap name names items
    rw [List.flatMap_map, List.map_eq_flatMap]
    exact List.flatMap_congr fun a _ => names a
  simp only [ItemKind.all, ModuleItems.names, List.flatMap_cons, List.flatMap_nil, List.append_nil,
    ModuleItems.entries, single Entry.ofClass (·.name) fun _ => rfl,
    single Entry.ofEnum (·.name) fun _ => rfl, single Entry.ofUnion (·.name) fun _ => rfl,
    single Entry.ofAlias (·.name) fun _ => rfl, List.flatMap_map]
  rfl

theorem Filled.mem_names {items : List Entry} {d : Draft} (filled : Filled items d) :
    x ∈ d.view.names ↔ ∃ e, Prevails items e ∧ x ∈ e.names := by
  have all : ∀ k : ItemKind, k ∈ ItemKind.all := by
    intro k
    cases k <;> decide
  simp only [ModuleItems.names_eq, List.mem_flatMap, filled.kept]
  constructor
  · rintro ⟨k, -, e, ⟨-, prevails⟩, takes⟩
    exact ⟨e, prevails, takes⟩
  · rintro ⟨e, prevails, takes⟩
    exact ⟨e.kind, all e.kind, e, ⟨rfl, prevails⟩, takes⟩

/-- No two items of a view have a name in common. -/
theorem Filled.names_nodup {items : List Entry} {d : Draft} (filled : Filled items d) :
    d.view.names.Nodup := by
  have holds : ∀ {k e x}, e ∈ d.view.entries k → x ∈ e.names → holder? items x = some k := by
    intro k e x isKept takes
    obtain ⟨rfl, -, -, -, -, own⟩ := (filled.kept e k).1 isKept
    exact own x takes
  rw [ModuleItems.names_eq, List.nodup_flatMap]
  constructor
  · intro k _
    rw [List.nodup_flatMap]
    refine ⟨fun e _ => e.names_nodup, ?_⟩
    refine (List.pairwise_map.1 (filled.distinct k)).imp_of_mem ?_
    intro e e' isKept isKept' differ x takes takes'
    have kinds := ((filled.kept e k).1 isKept).1.trans ((filled.kept e' k).1 isKept').1.symm
    exact differ (Entry.name_eq_of_names_meet kinds takes takes')
  · have kinds : ItemKind.all.Nodup := by decide
    refine kinds.imp ?_
    intro k k' differ x inFirst inSecond
    obtain ⟨e, isKept, takes⟩ := List.mem_flatMap.1 inFirst
    obtain ⟨e', isKept', takes'⟩ := List.mem_flatMap.1 inSecond
    exact differ (Option.some.inj ((holds isKept takes).symm.trans (holds isKept' takes')))

/-! ## Items of nodes -/

namespace Lens

/-- The item that the type of a node defines. -/
def typeEntry? (lens : Lens) (node : Node) : Option Entry :=
  node.typing.bind fun typing =>
    match typing.enumeration, typing.union with
    | some enumeration, _ =>
      match (lens.node? enumeration).map Node.kind with
      | some (.enumeration enums) => some (.ofEnum (lens.enumOf node enums))
      | _ => none
    | none, some union =>
      match (lens.node? union).map Node.kind with
      | some (.union members) => some (.ofUnion (lens.unionOf node members))
      | _ => none
    | none, none => if node.kind == .typedef then some (.ofAlias (lens.aliasOf node)) else none

/-- The item of a node. -/
def entry? (lens : Lens) (node : Node) : Option Entry :=
  match node.kind with
  | .container | .list _ | .grouping | .case | .notification => some (.ofClass (lens.classOf node))
  | .rpc => some (.ofRpc (lens.rpcOf node))
  | .typedef | .leaf | .leafList => lens.typeEntry? node
  | _ => none

/-- The items of nodes, whether they are kept or not. -/
def entriesOf (lens : Lens) (nodes : List Node) : List Entry :=
  nodes.filterMap lens.entry?

end Lens

theorem putType_eq (lens : Lens) (node : Node) :
    putType lens node = (lens.typeEntry? node).elim (pure ()) Entry.put := by
  unfold putType Lens.typeEntry?
  cases node.typing with
  | none => rfl
  | some typing =>
    simp only [Option.bind_some]
    cases typing.enumeration with
    | some enumeration =>
      simp only
      cases (lens.node? enumeration).map Node.kind with
      | none => rfl
      | some kind => cases kind <;> rfl
    | none =>
      cases typing.union with
      | some union =>
        simp only
        cases (lens.node? union).map Node.kind with
        | none => rfl
        | some kind => cases kind <;> rfl
      | none => cases node.kind == .typedef <;> rfl

theorem putNode_eq (lens : Lens) (node : Node) : putNode lens node = (lens.entry? node).elim (pure ()) Entry.put := by
  unfold putNode Lens.entry?
  cases node.kind <;> first | rfl | exact putType_eq lens node

theorem putNodes_run (lens : Lens) (nodes : List Node) :
    ∀ d : Draft, (nodes.forM (putNode lens)).run d = ((lens.entriesOf nodes).forM Entry.put).run d := by
  induction nodes with
  | nil => exact fun _ => rfl
  | cons node rest ih =>
    intro d
    show (putNode lens node >>= fun _ => rest.forM (putNode lens)).run d = _
    rw [Lens.entriesOf, List.filterMap_cons, run_bind, putNode_eq, ih]
    cases lens.entry? node <;> rfl

/-- The nodes that a model shows: its own, without that of the module. -/
def shownNodes (m : Module) : List Node :=
  m.nodes.filter fun node => node.home == m.name && node.id != m.root.id

/-- The view of a model before any node. -/
def blankView (m : Module) : ModuleItems :=
  let header := match m.root.kind with
    | .module qualifier space => (qualifier, space)
    | _ => (none, none)
  ⟨m.name, header.1, header.2, m.root.description, [], [], [], [], []⟩

/-- A view of a model as it is after some nodes. -/
def draftOf (m : Module) (backend : Backend) (nodes : List Node) : Draft :=
  ((nodes.forM (putNode (Lens.ofModule m backend))).run ⟨blankView m, [], []⟩).2

theorem draftOf_filled (m : Module) (backend : Backend) (nodes : List Node) :
    Filled ((Lens.ofModule m backend).entriesOf nodes) (draftOf m backend nodes) := by
  have blank : Filled [] ⟨blankView m, [], []⟩ := by
    refine ⟨fun x => rfl, fun e k => ?_, fun k => ?_⟩
    · have nothing : ¬ Prevails [] e := by
        rintro ⟨before, after, split, -⟩
        simp at split
      cases k <;> simp [blankView, ModuleItems.entries, nothing]
    · cases k <;> exact List.nodup_nil
  rw [draftOf, putNodes_run]
  exact blank.run _

/-- What is in a view stays there, in its place, while other items are added. -/
theorem put_prefix (items : List Entry) (k : ItemKind) :
    ∀ d : Draft, d.view.entries k <+: ((items.forM Entry.put).run d).2.view.entries k := by
  induction items with
  | nil => exact fun _ => List.prefix_refl _
  | cons e rest ih =>
    intro d
    refine List.IsPrefix.trans ?_ (ih (e.put.run d).2)
    rw [e.put_entries]
    split
    · exact List.prefix_append _ _
    · exact List.prefix_refl _

theorem draftOf_prefix (m : Module) (backend : Backend) (before after : List Node) (k : ItemKind) :
    (draftOf m backend before).view.entries k <+: (draftOf m backend (before ++ after)).view.entries k := by
  have more : draftOf m backend (before ++ after) =
      ((after.forM (putNode (Lens.ofModule m backend))).run (draftOf m backend before)).2 :=
    congrArg (fun step : Drafting Unit => (step.run ⟨blankView m, [], []⟩).2) List.forM_append
  rw [more, putNodes_run]
  exact put_prefix _ k _

theorem prevails_entriesOf {lens : Lens} {nodes : List Node} :
    Prevails (lens.entriesOf nodes) e ↔ ∃ before node after, nodes = before ++ node :: after ∧
      lens.entry? node = some e ∧
      (∀ other ∈ before, ∀ e', lens.entry? other = some e' → e'.kind = e.kind → e'.name ≠ e.name) ∧
      ∀ x ∈ e.names, holder? (lens.entriesOf nodes) x = some e.kind := by
  constructor
  · rintro ⟨before, after, split, first, own⟩
    obtain ⟨nodesBefore, rest, rfl, rfl, others⟩ := List.filterMap_eq_append_iff.1 split
    obtain ⟨silent, node, nodesAfter, rfl, nothing, isEntry, -⟩ := List.filterMap_eq_cons_iff.1 others
    refine ⟨nodesBefore ++ silent, node, nodesAfter, by simp, isEntry, ?_, own⟩
    intro other member e' isOther
    cases List.mem_append.1 member with
    | inl earlier => exact first e' (List.mem_filterMap.2 ⟨other, earlier, isOther⟩)
    | inr isSilent => exact absurd isOther (by simp [nothing other isSilent])
  · rintro ⟨before, node, after, rfl, isEntry, first, own⟩
    refine ⟨lens.entriesOf before, lens.entriesOf after, ?_, ?_, own⟩
    · rw [Lens.entriesOf, List.filterMap_append, List.filterMap_cons_some isEntry]
      rfl
    · intro e' member
      obtain ⟨other, earlier, isOther⟩ := List.mem_filterMap.1 member
      exact first other earlier e' isOther

/-- One space of names, in which the first wins: the items of a view have different names across all kinds;
    an item is in the view exactly if no node before its own has one of its kind and name, and the first to
    take its names are of its kind; and whatever is in the view after some nodes stays there. -/
theorem ofModule_firstWins (m : Module) (backend : Backend) :
    let lens := Lens.ofModule m backend
    let view := (ModuleItems.ofModule m backend).1
    (m.nodes.Perm m.listing ∧ m.nodes.Pairwise (·.id ≤ ·.id)) ∧
    view.names.Nodup ∧
    (∀ e, e ∈ view.entries e.kind ↔ ∃ before node after, shownNodes m = before ++ node :: after ∧
      lens.entry? node = some e ∧
      (∀ other ∈ before, ∀ e', lens.entry? other = some e' → e'.kind = e.kind → e'.name ≠ e.name) ∧
      ∀ x ∈ e.names, holder? (lens.entriesOf (shownNodes m)) x = some e.kind) ∧
    ∀ before after, shownNodes m = before ++ after →
      ∀ k, (draftOf m backend before).view.entries k <+: view.entries k := by
  intro lens view
  have filled := draftOf_filled m backend (shownNodes m)
  refine ⟨⟨nodes_perm m, nodes_sorted m⟩, filled.names_nodup, fun e => ?_, fun before after split k => ?_⟩
  · exact (filled.kept e e.kind).trans ((and_iff_right rfl).trans prevails_entriesOf)
  · have later := draftOf_prefix m backend before after k
    rwa [← split] at later

/-- A module with a container, a notification, an enumeration and a procedure that meet in their names. -/
def sharedNames : String :=
  "<module name='m' xmlns='urn:ietf:params:xml:ns:yang:yin:1'><container name='x-output'/>" ++
  "<notification name='x-output'/><leaf name='x-output'><type name='enumeration'/></leaf>" ++
  "<rpc name='x'/><rpc name='y'/></module>"

/-- The container is kept and the procedure `X` is not; the first node leaves the class to the end. -/
theorem ofModule_firstWins_sharedNames :
    ∃ schema m, ((Library.ofTexts [sharedNames]).resolve [] ⟨[]⟩).result = .ok schema ∧
      m ∈ schema.modules ∧
      (let model := (Module.build schema (.root 0) m.2).1
       let view := (ModuleItems.ofModule model (.root 0)).1
       view.names.Nodup ∧ view.names = ["XOutput", "YInput", "YOutput"] ∧
       (draftOf model (.root 0) ((shownNodes model).take 1)).view.names = ["XOutput"] ∧
       (draftOf model (.root 0) ((shownNodes model).take 1)).view.entries .classes <+: view.entries .classes) := by
  have names : (((Library.ofTexts [sharedNames]).resolve [] ⟨[]⟩).result.toOption.map
      fun schema => schema.modules.map fun m =>
        let model := (Module.build schema (.root 0) m.2).1
        ((ModuleItems.ofModule model (.root 0)).1.names,
          (draftOf model (.root 0) ((shownNodes model).take 1)).view.names)) =
      some [(["XOutput", "YInput", "YOutput"], ["XOutput"])] := by
    decide +kernel
  obtain ⟨schema, m, resolved, isModule, both⟩ := exists_module names
  obtain ⟨final, first⟩ := Prod.mk.inj both
  obtain ⟨-, distinct, -, stays⟩ := ofModule_firstWins (Module.build schema (.root 0) m.2).1 (.root 0)
  exact ⟨schema, m, resolved, isModule, distinct, final, first, stays _ _ (List.take_append_drop 1 _).symm .classes⟩

end YangStubs.View
