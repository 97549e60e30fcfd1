import YangStubs.Schema.Resolved

/-! # Statements one by one

A flat view of a resolved schema: every statement by its number, with its links to other statements.
-/

namespace YangStubs.Schema

/-- Where a node stands in the schema trees. -/
structure Standing where
  id : Nat
  children : List Nat
  parent : Option Nat
  augment : Option Nat
  deriving DecidableEq, Repr

mutual
def SchemaNode.standings (parent : Option Nat) : SchemaNode → List Standing
  | ⟨statement, children, augment⟩ =>
    ⟨statement.id, children.map (·.statement.id), parent, augment⟩ :: standingsOfAll (some statement.id) children

def standingsOfAll (parent : Option Nat) : List SchemaNode → List Standing
  | [] => []
  | node :: rest => node.standings parent ++ standingsOfAll parent rest
end

/-- A statement with all its links. -/
structure Record where
  id : Nat
  keyword : String
  arg : Option String
  home : String
  parent : Option Nat
  subs : List Nat
  children : List Nat
  schemaParent : Option Nat
  grouping : Option Nat
  typedef : Option Nat
  augment : Option Nat
  target : Option Nat
  origin : Option Nat
  deriving DecidableEq, Repr

namespace Resolved

/-- Where all schema nodes stand.  An augment lists the nodes that it brings in, which stand elsewhere. -/
def standings (schema : Resolved) : List Standing :=
  standingsOfAll none (schema.modules.map (·.2)) ++ standingsOfAll none schema.groupings ++
    schema.augments.map fun a => ⟨a.id, a.children.map (·.id), none, none⟩

def statements (schema : Resolved) : List Statement.Placed :=
  statementsOf schema.forest schema.made

/-- All statements as records, in the order of their numbers. -/
def records (schema : Resolved) : List Record :=
  let standings := schema.standings
  schema.statements.map fun s =>
    let standing := standings.find? (·.id == s.statement.id)
    { id := s.statement.id
      keyword := s.statement.keyword
      arg := s.statement.arg
      home := s.statement.home
      parent := s.parent
      subs := s.statement.subs.map (·.id)
      children := (standing.map (·.children)).getD []
      schemaParent := standing.bind (·.parent)
      grouping := s.statement.grouping
      typedef := s.statement.typedef
      augment := standing.bind (·.augment)
      target := schema.targets.lookup s.statement.id
      origin := s.statement.origin }

def statement? (schema : Resolved) (id : Nat) : Option Statement :=
  (schema.statements.find? (·.statement.id == id)).map (·.statement)

def parent? (schema : Resolved) (id : Nat) : Option Nat :=
  (schema.statements.find? (·.statement.id == id)).bind (·.parent)

def topWithin (schema : Resolved) : Nat → Nat → Nat
  | 0, id => id
  | bound + 1, id =>
    match schema.parent? id with
    | none => id
    | some parent => schema.topWithin bound parent

/-- The outermost statement around the one with that number; parents have smaller numbers. -/
def top (schema : Resolved) (id : Nat) : Nat :=
  schema.topWithin id id

def module? (schema : Resolved) (name : String) : Option Nat :=
  (schema.modules.lookup name).map (·.id)

end Resolved

end YangStubs.Schema
