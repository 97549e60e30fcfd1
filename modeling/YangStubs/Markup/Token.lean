import YangStubs.Markup.Characters
import YangStubs.Text.Split

/-! # Tokens of a document

A document is first cut into tags and runs of characters; comments and processing instructions are
checked and dropped.  `none` means that the text is not well formed.
-/

namespace YangStubs.Markup

open YangStubs.Text

/-- A name as written, with its qualifier (empty if there is none). -/
structure QName where
  qualifier : String
  name : String
  deriving DecidableEq, Repr

structure RawAttribute where
  name : QName
  value : List Char
  deriving DecidableEq, Repr

inductive Token where
  /-- A start tag; `closed` marks an element without content. -/
  | start (name : QName) (attributes : List RawAttribute) (closed : Bool)
  | stop (name : QName)
  /-- Characters as written, references not yet replaced. -/
  | text (written : List Char)
  | verbatim (written : List Char)
  deriving DecidableEq, Repr

def cutBefore? (stop : List Char) : List Char → Option (List Char × List Char)
  | [] => if stop.isEmpty then some ([], []) else none
  | c :: rest =>
    match dropStart? stop (c :: rest) with
    | some after => some ([], after)
    | none => (cutBefore? stop rest).map fun (before, after) => (c :: before, after)

/-- Like `cutBefore?`, for a run that holds characters of documents only. -/
def runBefore? (stop : String) (cs : List Char) : Option (List Char × List Char) := do
  let (run, rest) ← cutBefore? stop.toList cs
  guard (run.all isCharacter)
  return (run, rest)

def qualifiedName? (cs : List Char) : Option (QName × List Char) :=
  let startsName (part : List Char) := part.head?.any isNameStart
  let rest := cs.dropWhile isNameChar
  match splitBy (· == ':') (cs.takeWhile isNameChar) with
  | [name] => if startsName name then some (⟨"", String.ofList name⟩, rest) else none
  | [qualifier, name] =>
    if (qualifier.isEmpty || startsName qualifier) && startsName name then
      some (⟨String.ofList qualifier, String.ofList name⟩, rest)
    else none
  | _ => none

def after? (c : Char) : List Char → Option (List Char)
  | [] => none
  | d :: rest => if d == c then some rest else none

/-- An attribute at the start of the text: name, equals sign, quoted value. -/
def attribute? (cs : List Char) : Option (RawAttribute × List Char) := do
  let (name, rest) ← qualifiedName? cs
  let rest ← after? '=' (rest.dropWhile isSpace)
  match rest.dropWhile isSpace with
  | [] => none
  | quote :: rest =>
    guard (quote == '"' || quote == '\'')
    let value := rest.takeWhile fun c => c != quote && c != '<'
    guard (value.all isCharacter)
    let rest ← after? quote (rest.dropWhile fun c => c != quote && c != '<')
    return (⟨name, value⟩, rest)

/-- The attributes of a start tag up to its end, which may close the element at once.  The bound is
    on the number of attributes. -/
def attributes? : Nat → List Char → Option (List RawAttribute × Bool × List Char)
  | 0, _ => none
  | bound + 1, cs =>
    match cs.dropWhile isSpace with
    | [] => none
    | '/' :: rest => (after? '>' rest).map fun rest => ([], true, rest)
    | '>' :: rest => some ([], false, rest)
    | next => do
      -- white space separates attributes from what stands before them
      guard (cs.head?.any isSpace)
      let (first, rest) ← attribute? next
      let (attributes, closed, rest) ← attributes? bound rest
      return (first :: attributes, closed, rest)

/-- The rest of a comment after its opening; two hyphens only end it. -/
def afterComment? (cs : List Char) : Option (List Char) := do
  let (comment, rest) ← runBefore? "-->" cs
  guard (!hasPart ['-', '-'] comment && comment.getLast? != some '-')
  return rest

def afterInstruction? (cs : List Char) : Option (List Char) := do
  guard (!startsWith "xml ".toList cs)
  guard (cs.head?.any isNameStart)
  let (_, rest) ← runBefore? "?>" ((cs.dropWhile isNameChar).dropWhile isSpace)
  return rest

/-- The first token of a non-empty text, if it is one that counts, and the rest. -/
def token? : List Char → Option (Option Token × List Char)
  | '<' :: '!' :: rest => do
    match dropStart? ['-', '-'] rest with
    | some rest => return (none, ← afterComment? rest)
    | none =>
      let rest ← dropStart? "[CDATA[".toList rest
      let (written, rest) ← runBefore? "]]>" rest
      return (some (.verbatim written), rest)
  | '<' :: '?' :: rest => do return (none, ← afterInstruction? rest)
  | '<' :: '/' :: rest => do
    let (name, rest) ← qualifiedName? rest
    let rest ← after? '>' (rest.dropWhile isSpace)
    return (some (.stop name), rest)
  | '<' :: rest => do
    let (name, rest) ← qualifiedName? rest
    let (attributes, closed, rest) ← attributes? (rest.length + 1) rest
    return (some (.start name attributes closed), rest)
  | cs => do
    let written := cs.takeWhile (· != '<')
    guard (written.all isCharacter && !hasPart "]]>".toList written)
    return (some (.text written), cs.dropWhile (· != '<'))

/-- The tokens of a text.  The bound is on the number of tokens, comments and instructions. -/
def tokensWithin? : Nat → List Char → Option (List Token)
  | _, [] => some []
  | 0, _ :: _ => none
  | bound + 1, cs => do
    let (token, rest) ← token? cs
    let tokens ← tokensWithin? bound rest
    return token.toList ++ tokens

def declarationSpace? (cs : List Char) : Option (List Char) :=
  if cs.head?.any isSpace then some (cs.dropWhile isSpace)
  else if startsWith ['?', '>'] cs || cs.isEmpty then some cs
  else none

def skipDeclared? (name : String) (cs : List Char) : Option (List Char) :=
  if startsWith name.toList cs then (attribute? cs).map (·.2) else some cs

/-- The rest of a document after the declaration it starts with: a version, then perhaps an encoding
    and a note on standing alone. -/
def afterDeclaration? (cs : List Char) : Option (List Char) := do
  let rest ← declarationSpace? cs
  guard (startsWith "version".toList rest)
  let rest ← declarationSpace? (← skipDeclared? "version" rest)
  let rest ←
    if startsWith "encoding".toList rest then declarationSpace? (← skipDeclared? "encoding" rest)
    else some rest
  let rest ← skipDeclared? "standalone" rest
  dropStart? ['?', '>'] (rest.dropWhile isSpace)

def dropByteOrderMark : List Char → List Char
  | '\uFEFF' :: rest => rest
  | cs => cs

def tokens? (text : String) : Option (List Token) := do
  let cs := dropByteOrderMark text.toList
  let cs ←
    if startsWith "<?xml ".toList cs then afterDeclaration? (cs.drop 5) else some cs
  tokensWithin? cs.length cs

end YangStubs.Markup
