import YangStubs.Tool.Options

/-! # Configuration files

A configuration is a TOML document with a fixed set of keys.  Texts, lists and tables are all it can hold;
a document with anything else is refused, be it for its form or for its contents.
-/

namespace YangStubs.Tool

open YangStubs.Text

/-! ## Texts -/

def isDocumentChar (c : Char) : Bool :=
  c == '\t' || (' ' ≤ c && c.toNat != 0x7F)

def isLineBlank (c : Char) : Bool :=
  c == ' ' || c == '\t'

def afterLineEnd? : List Char → Option (List Char)
  | '\n' :: rest => some rest
  | '\r' :: '\n' :: rest => some rest
  | _ => none

def hexDigit? (c : Char) : Option Nat :=
  if isAsciiDigit c then some (c.toNat - '0'.toNat)
  else if 'a' ≤ c && c ≤ 'f' then some (c.toNat - 'a'.toNat + 10)
  else if 'A' ≤ c && c ≤ 'F' then some (c.toNat - 'A'.toNat + 10)
  else none

def coded? (digits : List Char) : Option Char := do
  let values ← digits.mapM hexDigit?
  let code := values.foldl (fun n v => 16 * n + v) 0
  if code.isValidChar then return Char.ofNat code else none

def escaped? : List Char → Option (Char × List Char)
  | 'b' :: rest => some ('\x08', rest)
  | 't' :: rest => some ('\t', rest)
  | 'n' :: rest => some ('\n', rest)
  | 'f' :: rest => some ('\x0c', rest)
  | 'r' :: rest => some ('\r', rest)
  | '"' :: rest => some ('"', rest)
  | '\\' :: rest => some ('\\', rest)
  | 'u' :: a :: b :: c :: d :: rest => (coded? [a, b, c, d]).map fun c => (c, rest)
  | 'U' :: a :: b :: c :: d :: e :: f :: g :: h :: rest =>
    (coded? [a, b, c, d, e, f, g, h]).map fun c => (c, rest)
  | _ => none

def withChar (c : Char) : List Char × List Char → List Char × List Char
  | (text, rest) => (c :: text, rest)

def basicText? : Nat → List Char → Option (List Char × List Char)
  | 0, _ => none
  | bound + 1, cs =>
    match cs with
    | '"' :: rest => some ([], rest)
    | '\\' :: rest => do
      let (c, rest) ← escaped? rest
      return withChar c (← basicText? bound rest)
    | c :: rest => if isDocumentChar c then (basicText? bound rest).map (withChar c) else none
    | [] => none

def literalText? : List Char → Option (List Char × List Char)
  | '\'' :: rest => some ([], rest)
  | c :: rest => if isDocumentChar c then (literalText? rest).map (withChar c) else none
  | [] => none

def afterBlankLines : Nat → List Char → List Char
  | 0, cs => cs
  | bound + 1, cs =>
    let rest := cs.dropWhile isLineBlank
    match afterLineEnd? rest with
    | some rest => afterBlankLines bound rest
    | none => rest

/-- The rest of a text over several lines.  Three quotes end it; up to two more belong to it.  The flag
    tells whether backslashes mean something. -/
def longText? (quote : Char) (escapes : Bool) : Nat → List Char → Option (List Char × List Char)
  | 0, _ => none
  | bound + 1, cs =>
    match cs with
    | [] => none
    | c :: rest =>
      if c == quote then
        let quotes := (cs.takeWhile (· == quote)).length
        if quotes < 3 then (longText? quote escapes bound rest).map (withChar c)
        else
          let count := min quotes 5
          some (List.replicate (count - 3) quote, cs.drop count)
      else if c == '\\' && escapes then
        match afterLineEnd? (rest.dropWhile isLineBlank) with
        | some rest => longText? quote escapes bound (afterBlankLines bound rest)
        | none => do
          let (c, rest) ← escaped? rest
          return withChar c (← longText? quote escapes bound rest)
      else
        match afterLineEnd? cs with
        | some rest => (longText? quote escapes bound rest).map (withChar '\n')
        | none =>
          if isDocumentChar c then (longText? quote escapes bound rest).map (withChar c) else none

/-- A text over several lines, from behind its quotes; a line end right there is not part of it. -/
def longBody? (quote : Char) (escapes : Bool) (cs : List Char) : Option (List Char × List Char) :=
  longText? quote escapes (cs.length + 1) ((afterLineEnd? cs).getD cs)

def text? (cs : List Char) : Option (String × List Char) :=
  let body := match cs with
    | '"' :: '"' :: '"' :: rest => longBody? '"' true rest
    | '\'' :: '\'' :: '\'' :: rest => longBody? '\'' false rest
    | '"' :: rest => basicText? (rest.length + 1) rest
    | '\'' :: rest => literalText? rest
    | _ => none
  body.map fun (text, rest) => (String.ofList text, rest)

/-! ## Documents -/

inductive Setting where
  | text (value : String)
  | list (items : List Setting)
  | table (entries : List (String × Setting))
  deriving Repr

def isKeyChar (c : Char) : Bool :=
  c.isAlphanum || c == '_' || c == '-'

def key? (cs : List Char) : Option (String × List Char) :=
  match cs with
  | '"' :: rest => (basicText? (rest.length + 1) rest).map fun (key, rest) => (String.ofList key, rest)
  | '\'' :: rest => (literalText? rest).map fun (key, rest) => (String.ofList key, rest)
  | _ =>
    let key := cs.takeWhile isKeyChar
    if key.isEmpty then none else some (String.ofList key, cs.dropWhile isKeyChar)

/-- What follows a comment, if one starts here; none if there is a bad character in it. -/
def afterComment? (cs : List Char) : Option (List Char) :=
  match cs with
  | '#' :: rest =>
    let rest := rest.dropWhile isDocumentChar
    if rest.isEmpty || (afterLineEnd? rest).isSome then some rest else none
  | _ => some cs

def afterTrivia? : Nat → List Char → Option (List Char)
  | 0, _ => none
  | bound + 1, cs => do
    let rest ← afterComment? (cs.dropWhile isLineBlank)
    match afterLineEnd? rest with
    | some rest => afterTrivia? bound rest
    | none => return rest

mutual
def value? : Nat → List Char → Option (Setting × List Char)
  | 0, _ => none
  | bound + 1, cs =>
    match cs with
    | '[' :: rest => do
      let (items, rest) ← items? bound rest
      return (.list items, rest)
    | '\x7b' :: rest =>
      match rest.dropWhile isLineBlank with
      | '\x7d' :: rest => some (.table [], rest)
      | rest => do
        let (entries, rest) ← entries? bound [] rest
        return (.table entries, rest)
    | _ => (text? cs).map fun (text, rest) => (.text text, rest)

def items? : Nat → List Char → Option (List Setting × List Char)
  | 0, _ => none
  | bound + 1, cs => do
    match ← afterTrivia? (cs.length + 1) cs with
    | ']' :: rest => return ([], rest)
    | rest =>
      let (first, rest) ← value? bound rest
      match ← afterTrivia? (rest.length + 1) rest with
      | ',' :: rest =>
        let (others, rest) ← items? bound rest
        return (first :: others, rest)
      | ']' :: rest => return ([first], rest)
      | _ => none

/-- Reads the entries of a table in braces up to its end, given those already read. -/
def entries? : Nat → List (String × Setting) → List Char → Option (List (String × Setting) × List Char)
  | 0, _, _ => none
  | bound + 1, entries, cs => do
    let (entries, rest) ← entry? bound entries (cs.dropWhile isLineBlank)
    match rest.dropWhile isLineBlank with
    | ',' :: rest => entries? bound entries rest
    | '\x7d' :: rest => return (entries, rest)
    | _ => none

/-- Reads a key with its value and adds it to a table, unless the key is there. -/
def entry? : Nat → List (String × Setting) → List Char → Option (List (String × Setting) × List Char)
  | 0, _, _ => none
  | bound + 1, entries, cs => do
    let (key, rest) ← key? cs
    match rest.dropWhile isLineBlank with
    | '=' :: rest =>
      let (value, rest) ← value? bound (rest.dropWhile isLineBlank)
      if (entries.lookup key).isSome then none else return (entries ++ [(key, value)], rest)
    | _ => none
end

/-- A document: its own entries, and the tables that stand under headers, with their names. -/
structure Document where
  entries : List (String × Setting)
  tables : List (String × List (String × Setting))

/-- Adds an entry to the part of a document that is being read: the last table, or the document itself. -/
def Document.readEntry? (document : Document) (cs : List Char) : Option (Document × List Char) :=
  match document.tables.getLast? with
  | none => do
    let (entries, rest) ← entry? (cs.length + 1) document.entries cs
    return ({ document with entries }, rest)
  | some (name, entries) => do
    let (entries, rest) ← entry? (cs.length + 1) entries cs
    return ({ document with tables := document.tables.dropLast ++ [(name, entries)] }, rest)

/-- The name in a header, from behind the brackets that open it. -/
def header? (cs : List Char) : Option (String × List Char) := do
  let (name, rest) ← key? (cs.dropWhile isLineBlank)
  match rest.dropWhile isLineBlank with
  | ']' :: ']' :: rest => return (name, rest)
  | _ => none

def readLines? : Nat → Document → List Char → Option Document
  | 0, _, _ => none
  | bound + 1, document, cs => do
    match ← afterTrivia? (cs.length + 1) cs with
    | [] => return document
    | rest =>
      let (document, rest) ← match rest with
        | '[' :: '[' :: rest => do
          let (name, rest) ← header? rest
          some ({ document with tables := document.tables ++ [(name, [])] }, rest)
        | _ => document.readEntry? rest
      match ← afterComment? (rest.dropWhile isLineBlank) with
      | [] => return document
      | rest =>
        let rest ← afterLineEnd? rest
        readLines? bound document rest

/-- Reads a document; a byte order mark in front of it is left out. -/
def Document.parse? (text : String) : Option Document :=
  let cs := match text.toList with
    | '\ufeff' :: rest => rest
    | cs => cs
  readLines? (cs.length + 1) ⟨[], []⟩ cs

/-! ## Configurations -/

structure Config where
  outputPath : Option String
  searchPaths : List String
  /-- Patterns on built-in types, with the types that they map to. -/
  typePatterns : List (String × String)
  deriving DecidableEq, Repr

def Config.initial : Config :=
  ⟨none, [], []⟩

def Setting.text? : Setting → Option String
  | .text value => some value
  | _ => none

def Setting.texts? : Setting → Option (List String)
  | .list items => items.mapM Setting.text?
  | _ => none

/-- A pattern with its name, from a table with just these two entries or from a list. -/
def patternOf? : Setting → Option (String × String)
  | .table entries => do
    let pattern ← (entries.lookup "pattern").bind Setting.text?
    let name ← (entries.lookup "name").bind Setting.text?
    guard (entries.length == 2)
    return (pattern, name)
  | .list (.text pattern :: .text name :: _) => some (pattern, name)
  | _ => none

/-- The patterns of a document: in a list, or in tables of their own. -/
def Document.patterns? (document : Document) : Option (List (String × String)) :=
  match document.entries.lookup "type_patterns" with
  | some (.list items) =>
    if document.tables.isEmpty then items.mapM patternOf? else none
  | some _ => none
  | none => document.tables.mapM fun (_, entries) => patternOf? (.table entries)

def Config.ofDocument? (document : Document) : Option Config := do
  guard (document.entries.all fun (key, _) =>
    ["output_path", "search_paths", "type_patterns"].contains key)
  guard (document.tables.all fun (name, _) => name == "type_patterns")
  let outputPath ← match document.entries.lookup "output_path" with
    | some value => value.text?.map some
    | none => some none
  let searchPaths ← match document.entries.lookup "search_paths" with
    | some value => value.texts?
    | none => some []
  return ⟨outputPath, searchPaths, ← document.patterns?⟩

def Config.parse? (text : String) : Option Config :=
  (Document.parse? text).bind Config.ofDocument?

/-- Puts the options of a run on top: its output path replaces the configured one, its search paths come
    first. -/
def Config.merge (config : Config) (options : Options) : Config :=
  { config with
    outputPath := options.outputPath.or config.outputPath
    searchPaths := options.searchPaths ++ config.searchPaths }

end YangStubs.Tool
