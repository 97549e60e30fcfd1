import YangStubs.Backend.TypePattern
import YangStubs.Naming.Scheme
import YangStubs.Text.Sorted

/-! # Backends

A backend says how a schema is turned into a model for one target: which constructor each statement
keyword gets, what built-in types map to, and how things are named.  It is a stack of layers; what a
layer does not set is taken from the ones below.
-/

namespace YangStubs

open YangStubs.Naming (Scheme)
open YangStubs.Text

namespace Backend

inductive CustomPart where
  | nothing
  | members
  /-- The type of the statement. -/
  | typing
  deriving DecidableEq, Repr

/-- The ways to make a model node of a statement. -/
inductive Constructor where
  | module
  | container
  | grouping
  | list
  | choice
  | case
  | rpc
  | input
  | output
  | notification
  | leaf
  | leafList
  | typedef
  | enum
  | custom (part : CustomPart)
  deriving DecidableEq, Repr

/-- What a backend sets itself. -/
structure Layer where
  /-- Tells layers apart that have been made separately. -/
  serial : Nat
  name : String
  constructors : List (String × Constructor)
  patterns : List TypePattern
  naming : Option Scheme

end Backend

/-- A layer on top of those it inherits from, nearest first. -/
structure Backend where
  own : Backend.Layer
  inherited : List Backend.Layer

namespace Backend

def defaultName : String :=
  "default"

def standardConstructors : List (String × Constructor) :=
  [("module", .module), ("container", .container), ("grouping", .grouping), ("list", .list),
   ("choice", .choice), ("case", .case), ("rpc", .rpc), ("input", .input), ("output", .output),
   ("notification", .notification), ("leaf", .leaf), ("leaf-list", .leafList),
   ("typedef", .typedef), ("enum", .enum)]

def root (serial : Nat) : Backend :=
  ⟨⟨serial, defaultName, standardConstructors, [], some .standard⟩, []⟩

def name (backend : Backend) : String :=
  backend.own.name

def parent? (backend : Backend) : Option Backend :=
  match backend.inherited with
  | [] => none
  | layer :: rest => some ⟨layer, rest⟩

/-- Its layers, own one first. -/
def layers (backend : Backend) : List Layer :=
  backend.own :: backend.inherited

def lookup? (backend : Backend) (keyword : String) : Option Constructor :=
  backend.layers.findSome? (·.constructors.lookup keyword)

/-- All keywords with a constructor, in ascending order. -/
def keywords (backend : Backend) : List String :=
  sortedSet (backend.layers.flatMap fun layer => layer.constructors.map (·.1))

/-- What a built-in type maps to, by the first pattern that matches. -/
def mapping? (backend : Backend) (builtin : String) : Option String :=
  ((backend.layers.flatMap (·.patterns)).find? (·.isMatch builtin)).map (·.dataType)

def naming (backend : Backend) : Scheme :=
  (backend.layers.findSome? (·.naming)).getD .standard

def describePattern (pattern : TypePattern) : String :=
  "TypePattern \x7b regex: Regex(" ++ quoted pattern.text ++ "), data_type: " ++ quoted pattern.dataType ++ " \x7d"

def describe (backend : Backend) : String :=
  let parent := match backend.parent? with
    | some parent => "Some(" ++ quoted parent.name ++ ")"
    | none => "None"
  "Wool \x7b name: " ++ quoted backend.name ++ ", parent: " ++ parent ++ ", type_patterns: [" ++
    joinTexts ", " (backend.own.patterns.map describePattern) ++ "], .. \x7d"

/-- A backend to be: what it sets on top of its parent. -/
structure Draft where
  name : String
  parent : Backend
  constructors : List (String × Constructor)
  patterns : List (String × String)
  naming : Option Scheme

namespace Draft

def ofParent (name : String) (parent : Backend) : Draft :=
  ⟨name, parent, [], [], none⟩

def withConstructor (draft : Draft) (keyword : String) (constructor : Constructor) : Draft :=
  { draft with constructors := (keyword, constructor) :: draft.constructors }

/-- Reads the patterns and puts the layer on top of the parent. -/
def build (draft : Draft) (serial : Nat) : Except BackendError Backend := do
  let patterns ← draft.patterns.mapM fun (pattern, dataType) => TypePattern.compile pattern dataType
  return ⟨⟨serial, draft.name, draft.constructors, patterns, draft.naming⟩, draft.parent.layers⟩

end Draft

end Backend

end YangStubs
