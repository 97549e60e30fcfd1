import YangStubs.Schema.Keyword

/-! # Statements

A statement has a keyword, perhaps an argument, and substatements.  Every statement has a number of its
own, given out in the order of creation; a tree is numbered parents first.
-/

namespace YangStubs.Schema

structure Statement where
  id : Nat
  keyword : String
  arg : Option String
  home : String
  /-- For a copy made from a grouping: the statement that was read. -/
  origin : Option Nat
  /-- For `uses`: the grouping. -/
  grouping : Option Nat
  /-- For `type`: the typedef, if the type is not built in. -/
  typedef : Option Nat
  subs : List Statement
  deriving Repr, Inhabited

namespace Statement

/-- The argument, or the keyword of a statement without one. -/
def name (s : Statement) : String :=
  s.arg.getD s.keyword

def localName (s : Statement) : String :=
  (splitQualifier s.name).2

def subsWith (s : Statement) (keyword : String) : List Statement :=
  s.subs.filter (·.keyword == keyword)

def sub? (s : Statement) (keyword : String) : Option Statement :=
  s.subs.find? (·.keyword == keyword)

/-- The argument of the first substatement with a keyword. -/
def argOf? (s : Statement) (keyword : String) : Option String :=
  (s.sub? keyword).bind (·.arg)

mutual
def size : Statement → Nat
  | ⟨_, _, _, _, _, _, _, subs⟩ => 1 + sizeOfAll subs

def sizeOfAll : List Statement → Nat
  | [] => 0
  | s :: rest => s.size + sizeOfAll rest
end

structure Placed where
  parent : Option Nat
  around : Option Statement
  statement : Statement
  deriving Repr

mutual
def listingBelow : Statement → List Placed
  | ⟨id, keyword, arg, home, origin, grouping, typedef, subs⟩ =>
    listingOfAll (some id) (some ⟨id, keyword, arg, home, origin, grouping, typedef, subs⟩) subs

/-- The statements of several trees, tree by tree. -/
def listingOfAll (parent : Option Nat) (around : Option Statement) : List Statement → List Placed
  | [] => []
  | s :: rest => ⟨parent, around, s⟩ :: listingBelow s ++ listingOfAll parent around rest
end

def listing (parent : Option Nat) (s : Statement) : List Placed :=
  ⟨parent, none, s⟩ :: s.listingBelow

mutual
/-- A copy numbered from `next` on, which remembers where it came from. -/
def copyFrom (next : Nat) : Statement → Statement × Nat
  | ⟨id, keyword, arg, home, origin, grouping, typedef, subs⟩ =>
    let copies := copyAllFrom (next + 1) subs
    (⟨next, keyword, arg, home, some (origin.getD id), grouping, typedef, copies.1⟩, copies.2)

/-- Copies of several trees, numbered one after the other, and the next free number. -/
def copyAllFrom (next : Nat) : List Statement → List Statement × Nat
  | [] => ([], next)
  | s :: rest =>
    let first := s.copyFrom next
    let others := copyAllFrom first.2 rest
    (first.1 :: others.1, others.2)
end

end Statement

structure Import where
  name : String
  qualifier : Option String
  revision : Option String
  deriving DecidableEq, Repr

def Statement.imports (s : Statement) : List Import :=
  (s.subsWith "import").map fun i => ⟨i.name, i.argOf? "prefix", i.argOf? "revision-date"⟩

end YangStubs.Schema
