import YangStubs.Markup.Element
import YangStubs.Markup.Reference
import YangStubs.Markup.Token

/-! # Documents

The tokens of a document become its element tree: tags must match, names must be declared, and there is
one root element with nothing but white space around it.
-/

namespace YangStubs.Markup

open YangStubs.Text

/-- The name of a namespace that the standards body has set aside. -/
def reservedSpace (path : String) : String :=
  "http:" ++ "//www.w3.org/" ++ path

def xmlSpace : String :=
  reservedSpace "XML/1998/namespace"

def declarationsSpace : String :=
  reservedSpace "2000/xmlns/"

structure ReadAttribute where
  name : QName
  value : String
  deriving DecidableEq, Repr

structure TagParts where
  declarations : List Declaration
  attributes : List ReadAttribute
  deriving DecidableEq, Repr

def TagParts.declare? (parts : TagParts) (qualifier space : String) : Option TagParts := do
  guard (space != declarationsSpace)
  guard ((qualifier == "xml") == (space == xmlSpace))
  guard (!parts.declarations.any (·.qualifier == some qualifier))
  if space == xmlSpace then return parts
  return { parts with declarations := parts.declarations ++ [⟨some qualifier, space⟩] }

def TagParts.add? (parts : TagParts) (raw : RawAttribute) : Option TagParts := do
  let value := String.ofList (normalizeValue (← pieces? raw.value))
  if raw.name.qualifier == "xmlns" then parts.declare? raw.name.name value
  else if raw.name.name == "xmlns" then
    guard (value != xmlSpace && value != declarationsSpace)
    return { parts with declarations := parts.declarations ++ [⟨none, value⟩] }
  else return { parts with attributes := parts.attributes ++ [⟨raw.name, value⟩] }

/-- The declarations in scope: own ones first, then those of the parent that are not redeclared. -/
def nestedScope (own inherited : List Declaration) : List Declaration :=
  own ++ inherited.filter fun d => !own.any (·.qualifier == d.qualifier)

/-- The namespace that a qualifier stands for; only the empty one may be undeclared. -/
def spaceOf? (scope : List Declaration) (qualifier : String) : Option (Option String) :=
  let key := if qualifier.isEmpty then none else some qualifier
  match scope.find? (·.qualifier == key) with
  | some d => some (some d.space)
  | none => if qualifier.isEmpty then some none else none

/-- Resolves the names of attributes, which must differ from each other. -/
def resolveAttributes? (scope : List Declaration) (before : List Attribute) :
    List ReadAttribute → Option (List Attribute)
  | [] => some before
  | raw :: rest => do
    let space ←
      if raw.name.qualifier == "xml" then some (some xmlSpace)
      else if raw.name.qualifier.isEmpty then some none
      else spaceOf? scope raw.name.qualifier
    guard (!before.any fun a => a.space == space && a.name == raw.name.name)
    resolveAttributes? scope (before ++ [⟨space, raw.name.name, raw.value⟩]) rest

/-- The tag of a start tag, given the declarations in scope around it. -/
def tag? (inherited : List Declaration) (name : QName) (raw : List RawAttribute) : Option Tag := do
  guard (name.qualifier != "xmlns")
  let parts ← raw.foldlM TagParts.add? ⟨[], []⟩
  let scope := nestedScope parts.declarations inherited
  let attributes ← resolveAttributes? scope [] parts.attributes
  let space ← spaceOf? scope name.qualifier
  return ⟨space, name.name, attributes, scope⟩

/-- An element whose end tag is still to come. -/
structure Frame where
  name : QName
  tag : Tag
  content : List Content

/-- How much of a document has been put together: the open elements, innermost first, and the root
    once it is complete. -/
structure Assembly where
  frames : List Frame
  root : Option Element

def Assembly.addContent (assembly : Assembly) (content : Content) : Assembly :=
  match assembly.frames with
  | [] => assembly
  | frame :: frames =>
    { assembly with frames := { frame with content := content :: frame.content } :: frames }

/-- Adds a complete element: to the innermost open one, or as the root. -/
def Assembly.addElement? (assembly : Assembly) (tag : Tag) (content : List Content) : Option Assembly :=
  match assembly.frames, assembly.root with
  | [], some _ => none
  | [], none => some { assembly with root := some ⟨tag, content⟩ }
  | _ :: _, _ => some (assembly.addContent (.element tag content))

def Assembly.step? (assembly : Assembly) : Token → Option Assembly
  | .start name attributes closed => do
    guard (!(assembly.frames.isEmpty && assembly.root.isSome))
    let inherited := (assembly.frames.head?.map (·.tag.scope)).getD []
    let tag ← tag? inherited name attributes
    if closed then assembly.addElement? tag []
    else return { assembly with frames := ⟨name, tag, []⟩ :: assembly.frames }
  | .stop name =>
    match assembly.frames with
    | [] => none
    | frame :: frames =>
      if frame.name == name then
        Assembly.addElement? { assembly with frames } frame.tag frame.content.reverse
      else none
  | .text written =>
    if assembly.frames.isEmpty then
      if written.all isSpace then some assembly else none
    else do return assembly.addContent (.text (normalizeText (← pieces? written)))
  | .verbatim written =>
    if assembly.frames.isEmpty then none
    else some (assembly.addContent (.text (normalizeText (written.map Piece.literal))))

def Element.parse? (text : String) : Option Element := do
  let tokens ← tokens? text
  let assembly ← tokens.foldlM Assembly.step? ⟨[], none⟩
  guard assembly.frames.isEmpty
  assembly.root

end YangStubs.Markup
