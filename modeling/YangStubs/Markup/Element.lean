/-! # Element trees

A document is an element with its content: texts and further elements.  Names are resolved: a tag knows
the namespace of its element and all declarations in scope there.
-/

namespace YangStubs.Markup

structure Attribute where
  /-- The namespace, absent for a name without a qualifier. -/
  space : Option String
  name : String
  value : String
  deriving DecidableEq, Repr

/-- A namespace declaration; the default namespace has no qualifier. -/
structure Declaration where
  qualifier : Option String
  space : String
  deriving DecidableEq, Repr

structure Tag where
  space : Option String
  name : String
  attributes : List Attribute
  /-- The declarations in scope: the element's own in order, then those inherited. -/
  scope : List Declaration
  deriving DecidableEq, Repr

inductive Content where
  | text (characters : String)
  | element (tag : Tag) (content : List Content)
  deriving Repr

structure Element where
  tag : Tag
  content : List Content
  deriving Repr

/-- The value of the attribute of that name that has no namespace. -/
def Tag.attribute? (tag : Tag) (name : String) : Option String :=
  (tag.attributes.find? fun a => a.space.isNone && a.name == name).map (·.value)

def Tag.isNamed (tag : Tag) (space name : String) : Bool :=
  tag.space == some space && tag.name == name

mutual
/-- All characters in the content, markup stripped. -/
def Content.characters : Content → String
  | .text characters => characters
  | .element _ content => Content.charactersOf content

def Content.charactersOf : List Content → String
  | [] => ""
  | c :: rest => c.characters ++ Content.charactersOf rest
end

end YangStubs.Markup
