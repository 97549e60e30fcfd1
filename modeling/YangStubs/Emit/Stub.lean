import YangStubs.Emit.TypeReader
import YangStubs.Text.Quoted

/-! # Stub files

A Rust source file with the types of a module: what it consists of, and how it is written.
-/

namespace YangStubs.Emit

open YangStubs.Naming (pathWords reservedWords)
open YangStubs.Text

/-! ## What a file consists of -/

/-- An identifier; a raw one may be a reserved word. -/
structure Identifier where
  name : String
  isRaw : Bool
  deriving DecidableEq, Repr

def Identifier.text (i : Identifier) : String :=
  if i.isRaw then "r#" ++ i.name else i.name

/-- Whether an identifier can be a name: a reserved word can only if it is raw, and some words not even
    then. -/
def Identifier.isUsable (i : Identifier) : Bool :=
  if i.isRaw then !pathWords.contains i.name else !reservedWords.contains i.name

structure Field where
  docs : List String
  name : Identifier
  type : Line

structure StubVariant where
  doc : String
  name : Identifier
  value : Option Int

structure StubMember where
  name : Identifier
  type : Line

structure Method where
  docs : List String
  name : Identifier
  input : Identifier
  output : Identifier

inductive StubItem where
  | use (path : String)
  | typeAlias (docs : List String) (name : Identifier) (type : Line)
  | enum (docs : List String) (isValued : Bool) (name : Identifier) (variants : List StubVariant)
  | union (docs : List String) (name : Identifier) (variants : List StubMember)
  | struct (docs : List String) (name : Identifier) (fields : List Field)
  | trait (doc : String) (name : Identifier) (methods : List Method)

structure StubFile where
  docs : List String
  items : List StubItem

def StubItem.identifiers : StubItem → List Identifier
  | .use _ => []
  | .typeAlias _ name _ => [name]
  | .enum _ _ name variants => name :: variants.map (·.name)
  | .union _ name variants => name :: variants.map (·.name)
  | .struct _ name fields => name :: fields.map (·.name)
  | .trait _ name methods => name :: methods.map (·.name)

def StubFile.identifiers (file : StubFile) : List Identifier :=
  file.items.flatMap StubItem.identifiers

def StubFile.misused? (file : StubFile) : Option Identifier :=
  file.identifiers.find? (!·.isUsable)

/-! ## Documentation -/

/-- Whether a text can stand in a comment with ends: its own comments are closed. -/
def isBalanced (depth : Nat) : List Char → Bool
  | '/' :: '*' :: rest => isBalanced (depth + 1) rest
  | '*' :: '/' :: rest =>
    match depth with
    | 0 => false
    | depth + 1 => isBalanced depth rest
  | _ :: rest => isBalanced depth rest
  | [] => depth == 0

/-- A text without blanks at the ends of its lines, the last one apart. -/
def trimLineEnds (text : List Char) : List Char :=
  let lines := splitBy (· == '\n') text
  joinWith ['\n'] (lines.dropLast.map (dropEndWhile (· == ' ')) ++ lines.getLast?.toList)

/-- A text of documentation as a comment, or as an attribute if no comment can hold it.  Documentation of
    the file itself is marked as such. -/
def docText (ofFile : Bool) (text : String) : String :=
  let cs := text.toList
  let startsWithAny (marks : List Char) : Bool := cs.head?.any marks.contains
  if !cs.contains '\n' && (ofFile || !startsWithAny ['/']) then
    (if ofFile then "//!" else "///") ++ String.ofList (dropEndWhile (· == ' ') cs)
  else if isBalanced 0 cs && (ofFile || !startsWithAny ['*', '/']) then
    (if ofFile then "/*!" else "/**") ++ String.ofList (trimLineEnds cs) ++ "*/"
  else (if ofFile then "#![doc = " else "#[doc = ") ++ quoted text ++ "]"

def docLines (indent : Nat) (docs : List String) : String :=
  String.join (docs.map fun doc => Layout.margin indent ++ docText false doc ++ "\n")

/-! ## Items -/

def block (head body : String) : String :=
  if body.isEmpty then head ++ " \x7b\x7d\n" else head ++ " \x7b\n" ++ body ++ "\x7d\n"

def Field.text (field : Field) : String :=
  docLines Layout.step field.docs ++
    Line.render Layout.step (.word ("pub " ++ field.name.text ++ ": ") :: field.type ++ [.word ","])

def StubVariant.text (variant : StubVariant) : String :=
  let value := variant.value.elim "" fun value => " = " ++ toString value ++ "i64"
  docLines Layout.step [variant.doc] ++ Layout.margin Layout.step ++ variant.name.text ++ value ++ ",\n"

def StubMember.text (variant : StubMember) : String :=
  Line.render Layout.step [.word variant.name.text, .list "(" ")" false [variant.type], .word ","]

def Method.text (method : Method) : String :=
  docLines Layout.step method.docs ++
    Line.render Layout.step
      [.word ("fn " ++ method.name.text),
       .list "(" ")" false [[.word "&self"], [.word ("input: " ++ method.input.text)]],
       .word (" -> " ++ method.output.text ++ ";")]

def StubItem.text : StubItem → String
  | .use path => "use " ++ path ++ ";\n"
  | .typeAlias docs name type =>
    docLines 0 docs ++ Line.render 0 (.word ("pub type " ++ name.text ++ " = ") :: type ++ [.word ";"])
  | .enum docs isValued name variants =>
    docLines 0 docs ++ "#[derive(Debug, PartialEq, Eq, Copy, Clone)]\n" ++
      (if isValued then "#[repr(i64)]\n" else "") ++
      block ("pub enum " ++ name.text) (String.join (variants.map StubVariant.text))
  | .union docs name variants =>
    docLines 0 docs ++ "#[derive(Debug, Clone, PartialEq)]\n" ++
      block ("pub enum " ++ name.text) (String.join (variants.map StubMember.text))
  | .struct docs name fields =>
    docLines 0 docs ++ "#[derive(Debug, Clone, PartialEq)]\n" ++
      block ("pub struct " ++ name.text) (String.join (fields.map Field.text))
  | .trait doc name methods =>
    docLines 0 [doc] ++ block ("pub trait " ++ name.text) (String.join (methods.map Method.text))

def StubFile.text (file : StubFile) : String :=
  String.join (file.docs.map fun doc => docText true doc ++ "\n") ++
    "#![allow(dead_code, unused_imports)]\n" ++ String.join (file.items.map StubItem.text)

end YangStubs.Emit
