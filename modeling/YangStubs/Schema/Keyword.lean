import YangStubs.Text.Split

/-! # Keywords

The statements of the schema language: how each carries its argument in the XML form, and which of them
define schema nodes.
-/

namespace YangStubs.Schema

open YangStubs.Text

def yinSpace : String :=
  "urn:ietf:params:xml:ns:yang:yin:1"

/-- Where the XML form keeps the argument of a statement. -/
structure ArgumentForm where
  name : String
  /-- In a child element rather than in an attribute. -/
  isElement : Bool
  deriving DecidableEq, Repr

def ArgumentForm.attr (name : String) : Option ArgumentForm :=
  some ⟨name, false⟩

def ArgumentForm.elem (name : String) : Option ArgumentForm :=
  some ⟨name, true⟩

open ArgumentForm in
/-- Every standard keyword with the form of its argument, if it takes one. -/
def standardKeywords : List (String × Option ArgumentForm) :=
  [("action", attr "name"), ("anydata", attr "name"), ("anyxml", attr "name"),
   ("argument", attr "name"), ("augment", attr "target-node"), ("base", attr "name"),
   ("belongs-to", attr "module"), ("bit", attr "name"), ("case", attr "name"),
   ("choice", attr "name"), ("config", attr "value"), ("contact", elem "text"),
   ("container", attr "name"), ("default", attr "value"), ("description", elem "text"),
   ("deviate", attr "value"), ("deviation", attr "target-node"), ("enum", attr "name"),
   ("error-app-tag", attr "value"), ("error-message", elem "value"), ("extension", attr "name"),
   ("feature", attr "name"), ("fraction-digits", attr "value"), ("grouping", attr "name"),
   ("identity", attr "name"), ("if-feature", attr "name"), ("import", attr "module"),
   ("include", attr "module"), ("input", none), ("key", attr "value"), ("leaf", attr "name"),
   ("leaf-list", attr "name"), ("length", attr "value"), ("list", attr "name"),
   ("mandatory", attr "value"), ("max-elements", attr "value"), ("min-elements", attr "value"),
   ("modifier", attr "value"), ("module", attr "name"), ("must", attr "condition"),
   ("namespace", attr "uri"), ("notification", attr "name"), ("ordered-by", attr "value"),
   ("organization", elem "text"), ("output", none), ("path", attr "value"),
   ("pattern", attr "value"), ("position", attr "value"), ("prefix", attr "value"),
   ("presence", attr "value"), ("range", attr "value"), ("reference", elem "text"),
   ("refine", attr "target-node"), ("require-instance", attr "value"), ("revision", attr "date"),
   ("revision-date", attr "date"), ("rpc", attr "name"), ("status", attr "value"),
   ("submodule", attr "name"), ("type", attr "name"), ("typedef", attr "name"),
   ("unique", attr "tag"), ("units", attr "name"), ("uses", attr "name"), ("value", attr "value"),
   ("when", attr "condition"), ("yang-version", attr "value"), ("yin-element", attr "value")]

/-- The form of a keyword's argument; `none` for a keyword that is not standard. -/
def argumentForm? (keyword : String) : Option (Option ArgumentForm) :=
  standardKeywords.lookup keyword

def isStandardKeyword (keyword : String) : Bool :=
  (argumentForm? keyword).isSome

def builtinTypes : List String :=
  ["binary", "bits", "boolean", "decimal64", "empty", "enumeration", "identityref",
   "instance-identifier", "int8", "int16", "int32", "int64", "leafref", "string", "uint8", "uint16",
   "uint32", "uint64", "union"]

def isBuiltinType (name : String) : Bool :=
  builtinTypes.contains name

def dataDefinitions : List String :=
  ["action", "anydata", "anyxml", "case", "choice", "container", "input", "leaf", "leaf-list", "list",
   "notification", "output", "rpc"]

def isDataDefinition (keyword : String) : Bool :=
  dataDefinitions.contains keyword

def schemaNodes : List String :=
  ["action", "augment", "case", "choice", "container", "grouping", "input", "list", "module",
   "notification", "output", "rpc"]

def isSchemaNode (keyword : String) : Bool :=
  schemaNodes.contains keyword

/-- Whether statements with the keyword become children in the schema tree: data definitions, and every
    statement that is not standard. -/
def isTreeKeyword (keyword : String) : Bool :=
  isDataDefinition keyword || !isStandardKeyword keyword

/-- Keywords whose nodes are no part of data paths. -/
def isSeenThrough (keyword : String) : Bool :=
  keyword == "choice" || keyword == "case"

def isLeafKeyword (keyword : String) : Bool :=
  keyword == "leaf" || keyword == "leaf-list"

/-- The keywords that pull in submodules, which are refused. -/
def isUnsupported (keyword : String) : Bool :=
  keyword == "submodule" || keyword == "include"

def splitQualifier (name : String) : Option String × String :=
  match cutAt? ':' name.toList with
  | some (qualifier, rest) => (some (String.ofList qualifier), String.ofList rest)
  | none => (none, name)

end YangStubs.Schema
