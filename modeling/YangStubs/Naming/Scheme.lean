import YangStubs.Naming.Convention
import YangStubs.Naming.MixedCase

/-! # Naming schemes

A scheme turns the names of a schema into the names of generated items.  `standard` suits no language
in particular; `rust` follows the habits of Rust sources and keeps clear of the reserved words.
-/

namespace YangStubs.Naming

open YangStubs.Text

/-- How generated items are named after names of the schema. -/
structure Scheme where
  className : String → String
  variableName : String → String
  variantName : String → String
  /-- An enumeration or union declared inside a leaf, given the class around it. -/
  inlineName : Option String → String → String
  /-- How a class of another module is referred to: module name, then class name. -/
  importPath : String → String → String

/-- A name that would start with a digit gets an underscore in front. -/
def guardDigit (name : String) : String :=
  if name.toList.head?.any isAsciiDigit then "_" ++ name else name

/-- The language-neutral scheme around a choice of class names. -/
def Scheme.withClassName (className : String → String) : Scheme where
  className := className
  variableName := Convention.convert .kebab .camel
  variantName name := guardDigit (Convention.convert .kebab .screaming name)
  inlineName _ name := className name
  importPath home className :=
    String.ofList (replaceChar '-' '.' (lower home.toList)) ++ "." ++ className

/-- Classes in Pascal case, fields in camel case, variants in screaming snake case. -/
def Scheme.standard : Scheme :=
  Scheme.withClassName (Convention.convert .kebab .pascal)

def reservedWords : List String :=
  ["as", "break", "const", "continue", "crate", "else", "enum", "extern", "false", "fn", "for", "if",
   "impl", "in", "let", "loop", "match", "mod", "move", "mut", "pub", "ref", "return", "self", "Self",
   "static", "struct", "super", "trait", "true", "type", "unsafe", "use", "where", "while",
   "async", "await", "dyn",
   "abstract", "become", "box", "do", "final", "macro", "override", "priv", "typeof", "unsized",
   "virtual", "yield", "try"]

def pathWords : List String :=
  ["crate", "self", "super", "Self"]

def escapeReserved (name : String) : String :=
  if pathWords.contains name then name ++ "_"
  else if reservedWords.contains name then "r#" ++ name
  else name

/-- The name without the marks of a raw identifier at its start, however many there are. -/
def dropRaw : List Char → List Char
  | 'r' :: '#' :: rest => dropRaw rest
  | cs => cs

def Scheme.rust : Scheme where
  className name := escapeReserved (upperCamel name)
  variableName name := escapeReserved (snake name)
  variantName name :=
    let camel := upperCamel name
    if camel.toList.head?.any isAsciiDigit then "_" ++ camel else escapeReserved camel
  inlineName parent name :=
    let own := escapeReserved (upperCamel name)
    match parent with
    | some parent => parent ++ String.ofList (dropRaw own.toList)
    | none => own
  importPath home className := "super::" ++ snake home ++ "::" ++ className

end YangStubs.Naming
