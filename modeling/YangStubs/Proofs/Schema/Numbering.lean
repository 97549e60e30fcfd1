import YangStubs.Schema.Library

/-! # Numbers of statements

Statements are numbered without gaps, parents first: a tree that is read or copied from `next` on takes
exactly the numbers `next, next + 1, ...` in the order of its listing.  A library keeps this up whatever is
added to it, so a number stands for one statement.
-/

namespace YangStubs.Schema

open YangStubs.Markup

variable {s : Statement} {l : List Statement}

namespace Statement

/-! ## Everything written inside a statement -/

mutual
/-- A statement and all that is written inside it, parents first. -/
def within : Statement → List Statement
  | ⟨id, keyword, arg, home, origin, grouping, typedef, subs⟩ =>
    ⟨id, keyword, arg, home, origin, grouping, typedef, subs⟩ :: withinAll subs

/-- The statements of several trees, tree by tree. -/
def withinAll : List Statement → List Statement
  | [] => []
  | s :: rest => s.within ++ withinAll rest
end

theorem within_eq (s : Statement) : s.within = s :: withinAll s.subs := by
  cases s; rfl

@[simp] theorem withinAll_nil : withinAll [] = [] := rfl

@[simp] theorem withinAll_cons (s : Statement) (rest : List Statement) :
    withinAll (s :: rest) = s.within ++ withinAll rest := rfl

@[simp] theorem withinAll_append (left right : List Statement) :
    withinAll (left ++ right) = withinAll left ++ withinAll right := by
  induction left with
  | nil => rfl
  | cons s rest ih => simp [ih]

theorem mem_within_self (s : Statement) : s ∈ s.within := by
  rw [within_eq]
  exact List.mem_cons_self

theorem mem_withinAll : s ∈ withinAll l ↔ ∃ t ∈ l, s ∈ t.within := by
  induction l with
  | nil => simp
  | cons t rest ih => simp [ih]

theorem mem_withinAll_of_mem (member : s ∈ l) : s ∈ withinAll l :=
  mem_withinAll.2 ⟨s, member, mem_within_self s⟩

theorem sublist_withinAll (l : List Statement) : l.Sublist (withinAll l) := by
  induction l with
  | nil => exact List.Sublist.refl _
  | cons s rest ih =>
    rw [withinAll_cons, within_eq, List.cons_append]
    exact (ih.trans (List.sublist_append_right _ _)).cons_cons _

theorem size_eq (s : Statement) : s.size = 1 + sizeOfAll s.subs := by
  cases s; rfl

@[simp] theorem sizeOfAll_nil : sizeOfAll [] = 0 := rfl

@[simp] theorem sizeOfAll_cons (s : Statement) (rest : List Statement) :
    sizeOfAll (s :: rest) = s.size + sizeOfAll rest := rfl

@[simp] theorem sizeOfAll_append (left right : List Statement) :
    sizeOfAll (left ++ right) = sizeOfAll left + sizeOfAll right := by
  induction left with
  | nil => simp
  | cons s rest ih => simp [ih]; omega

mutual
theorem length_within : ∀ s : Statement, s.within.length = s.size
  | ⟨_, _, _, _, _, _, _, subs⟩ => by
    simp only [within, size, List.length_cons, length_withinAll subs]
    omega

theorem length_withinAll : ∀ l : List Statement, (withinAll l).length = sizeOfAll l
  | [] => rfl
  | s :: rest => by
    simp only [withinAll, sizeOfAll, List.length_append, length_within s, length_withinAll rest]
end

mutual
theorem within_trans {u : Statement} :
    ∀ (s : Statement) {t : Statement}, t ∈ s.within → u ∈ t.within → u ∈ s.within
  | ⟨_, _, _, _, _, _, _, subs⟩, t, outer, inner => by
    simp only [within, List.mem_cons] at outer
    rcases outer with rfl | outer
    · exact inner
    · exact List.mem_cons_of_mem _ (withinAll_trans subs outer inner)

/-- What is written inside a statement of some trees is in these trees. -/
theorem withinAll_trans {u : Statement} :
    ∀ (l : List Statement) {t : Statement}, t ∈ withinAll l → u ∈ t.within → u ∈ withinAll l
  | [], _, outer, _ => by simp at outer
  | s :: rest, t, outer, inner => by
    simp only [withinAll, List.mem_append] at outer ⊢
    rcases outer with outer | outer
    · exact .inl (within_trans s outer inner)
    · exact .inr (withinAll_trans rest outer inner)
end

theorem withinAll_of_mem_subs {t : Statement} (known : s ∈ withinAll l) (sub : t ∈ s.subs) : t ∈ withinAll l := by
  refine withinAll_trans l known ?_
  rw [within_eq]
  exact List.mem_cons_of_mem _ (mem_withinAll_of_mem sub)

/-- A statement is no larger than the trees that hold it. -/
theorem size_le_of_mem_withinAll : ∀ {l : List Statement}, s ∈ withinAll l → s.size ≤ sizeOfAll l
  | [], member => by simp at member
  | t :: rest, member => by
    simp only [withinAll_cons, within_eq, List.cons_append, List.mem_cons, List.mem_append] at member
    simp only [sizeOfAll_cons, size_eq t]
    rcases member with rfl | member | member
    · rw [size_eq]; omega
    · have := size_le_of_mem_withinAll member; omega
    · have := size_le_of_mem_withinAll member; omega
termination_by l => sizeOfAll l
decreasing_by all_goals simp_all [size_eq] <;> omega

/-! ## Listings -/

mutual
theorem listingBelow_statements :
    ∀ s : Statement, s.listingBelow.map (·.statement) = withinAll s.subs
  | ⟨_, _, _, _, _, _, _, subs⟩ => listingOfAll_statements _ _ subs

/-- A listing holds the statements of the trees, in the same order. -/
theorem listingOfAll_statements (parent : Option Nat) (around : Option Statement) :
    ∀ l : List Statement, (listingOfAll parent around l).map (·.statement) = withinAll l
  | [] => rfl
  | s :: rest => by
    simp only [listingOfAll, List.map_append, List.map_cons, withinAll_cons,
      listingBelow_statements s, listingOfAll_statements parent around rest, within_eq]
end

theorem listing_statements (parent : Option Nat) (s : Statement) :
    (s.listing parent).map (·.statement) = s.within := by
  simp only [listing, List.map_cons, listingBelow_statements, within_eq]

mutual
theorem listingBelow_around : ∀ (s : Statement), ∀ p ∈ s.listingBelow,
    ∃ a ∈ s.within, p.around = some a ∧ p.statement ∈ a.subs
  | ⟨id, keyword, arg, home, origin, grouping, typedef, subs⟩, p, member => by
    simp only [listingBelow] at member
    rcases listingOfAll_around _ _ subs p member with ⟨isTop, sub⟩ | ⟨a, inside, spec⟩
    · exact ⟨_, mem_within_self _, isTop, sub⟩
    · exact ⟨a, List.mem_cons_of_mem _ inside, spec⟩

/-- The statement around another one is in the same trees, or around these. -/
theorem listingOfAll_around (parent : Option Nat) (around : Option Statement) :
    ∀ (l : List Statement), ∀ p ∈ listingOfAll parent around l,
      (p.around = around ∧ p.statement ∈ l) ∨ ∃ a ∈ withinAll l, p.around = some a ∧ p.statement ∈ a.subs
  | [], p, member => by simp [listingOfAll] at member
  | s :: rest, p, member => by
    simp only [listingOfAll, List.cons_append, List.mem_cons, List.mem_append, withinAll_cons] at member ⊢
    rcases member with rfl | below | others
    · exact .inl ⟨rfl, .inl rfl⟩
    · obtain ⟨a, inside, spec⟩ := listingBelow_around s p below
      exact .inr ⟨a, .inl inside, spec⟩
    · rcases listingOfAll_around parent around rest p others with ⟨isTop, member⟩ | ⟨a, inside, spec⟩
      · exact .inl ⟨isTop, .inr member⟩
      · exact .inr ⟨a, .inr inside, spec⟩
end

theorem mem_listingOfAll_of_mem {t : Statement} (parent : Option Nat) (around : Option Statement) (member : t ∈ l) :
    ⟨parent, around, t⟩ ∈ listingOfAll parent around l := by
  induction l with
  | nil => cases member
  | cons s rest ih =>
    rw [listingOfAll, List.cons_append]
    cases List.mem_cons.1 member with
    | inl here => exact here ▸ List.mem_cons_self
    | inr later => exact List.mem_cons_of_mem _ (List.mem_append_right _ (ih later))

mutual
theorem mem_listingBelow_sub {s t : Statement} (sub : t ∈ s.subs) :
    ∀ (x : Statement), s ∈ x.within → ⟨some s.id, some s, t⟩ ∈ x.listingBelow
  | ⟨id, keyword, arg, home, origin, grouping, typedef, subs⟩, inside => by
    rw [within_eq, List.mem_cons] at inside
    rw [listingBelow]
    cases inside with
    | inl here =>
      subst here
      exact mem_listingOfAll_of_mem _ _ sub
    | inr below => exact mem_listingOfAll_sub sub subs below

/-- A statement is listed with the one that it is written in. -/
theorem mem_listingOfAll_sub {s t : Statement} (sub : t ∈ s.subs) {parent : Option Nat}
    {around : Option Statement} :
    ∀ (l : List Statement), s ∈ withinAll l → ⟨some s.id, some s, t⟩ ∈ listingOfAll parent around l
  | [], inside => by simp at inside
  | x :: rest, inside => by
    rw [withinAll_cons, List.mem_append] at inside
    rw [listingOfAll, List.cons_append]
    refine List.mem_cons_of_mem _ (List.mem_append.2 ?_)
    exact inside.imp (mem_listingBelow_sub sub x) (mem_listingOfAll_sub sub rest)
end

/-! ## Numbers without gaps -/

/-- Trees that take the numbers from `next` on, without gaps and parents first. -/
def Numbered (next : Nat) (l : List Statement) : Prop :=
  (withinAll l).map (·.id) = List.range' next (sizeOfAll l)

theorem numbered_nil (next : Nat) : Numbered next [] := rfl

theorem numbered_cons {next : Nat} {rest : List Statement} (first : s.id = next) (inside : Numbered (next + 1) s.subs)
    (others : Numbered (next + s.size) rest) : Numbered next (s :: rest) := by
  unfold Numbered at *
  rw [withinAll_cons, within_eq, List.map_append, List.map_cons, first, inside, others, sizeOfAll_cons, size_eq]
  have split : 1 + sizeOfAll s.subs + sizeOfAll rest = (sizeOfAll s.subs + sizeOfAll rest) + 1 := by omega
  rw [split, List.range'_succ, List.cons_append, ← List.range'_append_1]
  congr 3
  omega

theorem Numbered.append {next : Nat} {left right : List Statement} (first : Numbered next left)
    (second : Numbered (next + sizeOfAll left) right) : Numbered next (left ++ right) := by
  unfold Numbered at *
  rw [withinAll_append, List.map_append, first, second, sizeOfAll_append, List.range'_append_1]

theorem Numbered.mem_iff {next : Nat} (numbered : Numbered next l) (i : Nat) :
    i ∈ (withinAll l).map (·.id) ↔ next ≤ i ∧ i < next + sizeOfAll l := by
  rw [numbered, List.mem_range'_1]

theorem Numbered.nodup {next : Nat} {l : List Statement} (numbered : Numbered next l) :
    ((withinAll l).map (·.id)).Nodup := by
  rw [numbered]
  exact List.nodup_range'

mutual
theorem copyFrom_size (next : Nat) : ∀ s : Statement, (s.copyFrom next).1.size = s.size
  | ⟨_, _, _, _, _, _, _, subs⟩ => by
    simp only [copyFrom, size, copyAllFrom_size (next + 1) subs]

theorem copyAllFrom_size (next : Nat) :
    ∀ l : List Statement, sizeOfAll (copyAllFrom next l).1 = sizeOfAll l
  | [] => rfl
  | s :: rest => by
    simp only [copyAllFrom, sizeOfAll, copyFrom_size next s, copyAllFrom_size _ rest]
end

mutual
theorem copyFrom_next (next : Nat) : ∀ s : Statement, (s.copyFrom next).2 = next + s.size
  | ⟨_, _, _, _, _, _, _, subs⟩ => by
    simp only [copyFrom, size, copyAllFrom_next (next + 1) subs]
    omega

theorem copyAllFrom_next (next : Nat) :
    ∀ l : List Statement, (copyAllFrom next l).2 = next + sizeOfAll l
  | [] => rfl
  | s :: rest => by
    simp only [copyAllFrom, sizeOfAll, copyAllFrom_next _ rest, copyFrom_next next s]
    omega
end

mutual
theorem copyFrom_id_subs (next : Nat) :
    ∀ s : Statement, (s.copyFrom next).1.id = next ∧ Numbered (next + 1) (s.copyFrom next).1.subs
  | ⟨_, _, _, _, _, _, _, subs⟩ => ⟨rfl, copyAllFrom_numbered (next + 1) subs⟩

theorem copyAllFrom_numbered (next : Nat) :
    ∀ l : List Statement, Numbered next (copyAllFrom next l).1
  | [] => numbered_nil next
  | s :: rest => by
    refine numbered_cons (copyFrom_id_subs next s).1 (copyFrom_id_subs next s).2 ?_
    simp only [copyFrom_size, copyFrom_next next s]
    exact copyAllFrom_numbered (next + s.size) rest
end

theorem copyFrom_numbered (next : Nat) (s : Statement) : Numbered next [(s.copyFrom next).1] :=
  numbered_cons (copyFrom_id_subs next s).1 (copyFrom_id_subs next s).2 (numbered_nil _)

/-! ## Copies -/

/-- The keyword and the argument of a statement. -/
def heading (s : Statement) : String × Option String :=
  (s.keyword, s.arg)

/-- What a statement says, as far as the headings of its substatements. -/
def face (s : Statement) : (String × Option String) × String × List (String × Option String) :=
  (s.heading, s.home, s.subs.map heading)

theorem face_eq_iff {t : Statement} : s.face = t.face ↔ s.keyword = t.keyword ∧ s.arg = t.arg ∧
    s.home = t.home ∧ s.subs.map heading = t.subs.map heading := by
  simp only [face, heading, Prod.mk.injEq, and_assoc]

/-- The number of the statement that was read, which for a copy is the one it goes back to. -/
def source (s : Statement) : Nat :=
  s.origin.getD s.id

/-- A statement that says the same as another one and remembers where it came from. -/
structure CopyOf (template copy : Statement) : Prop where
  keyword : copy.keyword = template.keyword
  arg : copy.arg = template.arg
  home : copy.home = template.home
  grouping : copy.grouping = template.grouping
  typedef : copy.typedef = template.typedef
  origin : copy.origin = some (template.origin.getD template.id)
  subs : copy.subs.map heading = template.subs.map heading

theorem copyAllFrom_headings (l : List Statement) (next : Nat) :
    (copyAllFrom next l).1.map heading = l.map heading := by
  induction l generalizing next with
  | nil => rfl
  | cons s rest ih =>
    simp only [copyAllFrom, List.map_cons, ih]
    cases s
    rfl

mutual
theorem copyFrom_within (next : Nat) :
    ∀ (s : Statement), ∀ t ∈ (s.copyFrom next).1.within, ∃ u ∈ s.within, CopyOf u t
  | ⟨_, _, _, _, _, _, _, subs⟩, t, member => by
    simp only [copyFrom, within, List.mem_cons] at member
    rcases member with rfl | member
    · exact ⟨_, mem_within_self _, rfl, rfl, rfl, rfl, rfl, rfl, copyAllFrom_headings subs (next + 1)⟩
    · obtain ⟨u, inside, copy⟩ := copyAllFrom_within (next + 1) subs t member
      exact ⟨u, List.mem_cons_of_mem _ inside, copy⟩

/-- Everything in a copy is a copy. -/
theorem copyAllFrom_within (next : Nat) :
    ∀ (l : List Statement), ∀ t ∈ withinAll (copyAllFrom next l).1, ∃ u ∈ withinAll l, CopyOf u t
  | [], t, member => by simp [copyAllFrom] at member
  | s :: rest, t, member => by
    simp only [copyAllFrom, withinAll_cons, List.mem_append] at member ⊢
    rcases member with here | others
    · obtain ⟨u, inside, copy⟩ := copyFrom_within next s t here
      exact ⟨u, .inl inside, copy⟩
    · obtain ⟨u, inside, copy⟩ := copyAllFrom_within _ rest t others
      exact ⟨u, .inr inside, copy⟩
end

end Statement

end YangStubs.Schema
