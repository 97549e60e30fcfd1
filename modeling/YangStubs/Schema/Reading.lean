import YangStubs.Markup.Document
import YangStubs.Schema.Error
import YangStubs.Schema.Statement

/-! # Reading statements from element trees

Each element stands for a statement, apart from the elements that hold an argument.  Reading stops at the
first element that cannot be a statement; what has been read until then is kept.
-/

namespace YangStubs.Schema

open YangStubs.Markup

/-- What the start of an element says about its statement. -/
structure Heading where
  keyword : String
  arg : Option String
  argumentElement : Option String
  deriving DecidableEq, Repr

/-- The qualifier under which a namespace is known at an element. -/
def qualifierOf? (tag : Tag) (space : String) : Option String :=
  if space == xmlSpace then some "xml"
  else (tag.scope.find? (·.space == space)).bind (·.qualifier)

/-- The keyword of an element outside of the standard namespace: its name under the qualifier in scope. -/
def foreignKeyword (tag : Tag) : String :=
  match tag.space.bind (qualifierOf? tag) with
  | some qualifier => if qualifier.isEmpty then tag.name else qualifier ++ ":" ++ tag.name
  | none => tag.name

def argumentText? (name : String) : List Content → Option String
  | [] => none
  | .text _ :: rest => argumentText? name rest
  | .element tag content :: rest =>
    if tag.isNamed yinSpace name then some (Content.charactersOf content)
    else argumentText? name rest

/-- The heading of an element whose keyword and argument form are known. -/
def headingWith (home keyword : String) (form : Option ArgumentForm) (tag : Tag)
    (content : List Content) : Except SchemaError Heading :=
  match form with
  | some ⟨name, false⟩ =>
    match tag.attribute? name with
    | some arg => .ok ⟨keyword, some arg, none⟩
    | none => .error (.missingArgument keyword home)
  | some ⟨name, true⟩ =>
    match argumentText? name content with
    | some arg => .ok ⟨keyword, some arg, some name⟩
    | none => .error (.missingArgument keyword home)
  | none =>
    if isStandardKeyword keyword then .ok ⟨keyword, none, none⟩
    else .ok ⟨keyword, tag.attributes.head?.map (·.value), none⟩

def heading (home : String) (tag : Tag) (content : List Content) : Except SchemaError Heading :=
  if tag.space == some yinSpace then
    if isUnsupported tag.name then .error (.unsupported tag.name home)
    else headingWith home tag.name ((argumentForm? tag.name).bind id) tag content
  else headingWith home (foreignKeyword tag) none tag content

/-- What reading leaves behind: statements, the next free number, and the error that ended it. -/
structure Reading where
  statements : List Statement
  next : Nat
  error : Option SchemaError
  deriving Repr

mutual
/-- Reads what one piece of content stands for.  `skip` names the argument element of the statement
    around it. -/
def readContent (home : String) (skip : Option String) (next : Nat) : Content → Reading
  | .text _ => ⟨[], next, none⟩
  | .element tag content =>
    if skip.any (tag.isNamed yinSpace ·) then ⟨[], next, none⟩
    else match heading home tag content with
      | .error e => ⟨[], next, some e⟩
      | .ok h =>
        let inner := readContents home h.argumentElement (next + 1) content
        ⟨[⟨next, h.keyword, h.arg, home, none, none, none, inner.statements⟩], inner.next, inner.error⟩

def readContents (home : String) (skip : Option String) (next : Nat) : List Content → Reading
  | [] => ⟨[], next, none⟩
  | c :: rest =>
    let first := readContent home skip next c
    match first.error with
    | some _ => first
    | none =>
      let others := readContents home skip first.next rest
      ⟨first.statements ++ others.statements, others.next, others.error⟩
end

def moduleName (tag : Tag) : Except SchemaError String :=
  if tag.isNamed yinSpace "module" then
    match tag.attribute? "name" with
    | some name => .ok name
    | none => .error (.missingArgument "module" "")
  else if isUnsupported tag.name then .error (.unsupported tag.name ((tag.attribute? "name").getD ""))
  else .error (.notAModule tag.name)

/-- Reads the module that an element tree holds, numbering its statements from `next` on. -/
def readElement (home : String) (next : Nat) (root : Element) : Reading :=
  readContent home none next (.element root.tag root.content)

end YangStubs.Schema
