import YangStubs.Emit.Layout
import YangStubs.Naming.Scheme
import YangStubs.Text.Table.Identifier

/-! # Types and paths of Rust sources

Types come as text, from type patterns or from names.  Here a text is read as a type or as a path, or
refused; what is read is laid out anew.
-/

namespace YangStubs.Emit

open YangStubs.Text
open YangStubs.Naming (reservedWords pathWords)

/-! ## Tokens -/

inductive Token where
  | word (text : String)
  | lifetime (name : String)
  | number (text : String)
  | colons
  | arrow
  | mark (c : Char)
  deriving DecidableEq, Repr

def startsIdentifier (c : Char) : Bool :=
  c == '_' || (inRuns Table.identifierLetter c && !inRuns Table.identifierExcluded c)

def continuesIdentifier (c : Char) : Bool :=
  startsIdentifier c || inRuns Table.identifierExtend c

def identifier? : List Char → Option (String × List Char)
  | [] => none
  | c :: rest =>
    if startsIdentifier c then
      some (String.ofList (c :: rest.takeWhile continuesIdentifier), rest.dropWhile continuesIdentifier)
    else none

def word? (cs : List Char) : Option (String × List Char) :=
  match cs with
  | 'r' :: '#' :: rest => do
    let (name, rest) ← identifier? rest
    guard (name != "_" && !pathWords.contains name)
    return ("r#" ++ name, rest)
  | _ => identifier? cs

/-- The characters that stand for themselves. -/
def marks : List Char :=
  "<>&[]();,=!*+?".toList

/-- The first token of a text without blanks at its start. -/
def token? : List Char → Option (Token × List Char)
  | ':' :: ':' :: rest => some (.colons, rest)
  | '-' :: '>' :: rest => some (.arrow, rest)
  | '\'' :: rest => do
    let (name, rest) ← identifier? rest
    guard (rest.head? != some '\'')
    return (.lifetime name, rest)
  | c :: rest =>
    if isAsciiDigit c then
      some (.number (String.ofList (c :: rest.takeWhile continuesIdentifier)), rest.dropWhile continuesIdentifier)
    else if marks.contains c then some (.mark c, rest)
    else (word? (c :: rest)).map fun (text, rest) => (.word text, rest)
  | [] => none

/-- The tokens of a text.  Each takes at least one character, of which there are no more than the bound. -/
def tokensWithin : Nat → List Char → Option (List Token)
  | bound, cs =>
    match trimStart cs with
    | [] => some []
    | c :: rest =>
      match bound with
      | 0 => none
      | bound + 1 => do
        let (token, rest) ← token? (c :: rest)
        return token :: (← tokensWithin bound rest)

def tokens? (text : String) : Option (List Token) :=
  tokensWithin text.length text.toList

/-! ## Types -/

def isName (word : String) : Bool :=
  word != "_" && !reservedWords.contains word

def isSegment (word : String) : Bool :=
  isName word || pathWords.contains word || word == "try"

def takesArguments (word : String) : Bool :=
  isName word || word == "Self"

mutual
def readType : Nat → List Token → Option (Line × List Token)
  | 0, _ => none
  | bound + 1, tokens =>
    match tokens with
    | .mark '(' :: .mark ')' :: rest => some ([.list "(" ")" false []], rest)
    | .mark '(' :: rest => do
      let (first, rest) ← readType bound rest
      match rest with
      | .mark ')' :: rest => return (.word "(" :: first ++ [.word ")"], rest)
      | .mark ',' :: rest =>
        let (others, rest) ← readTypes bound ')' rest
        return ([.list "(" ")" others.isEmpty (first :: others)], rest)
      | _ => none
    | .mark '[' :: rest => do
      let (item, rest) ← readType bound rest
      match rest with
      | .mark ']' :: rest => return (.word "[" :: item ++ [.word "]"], rest)
      | .mark ';' :: .number count :: .mark ']' :: rest =>
        return (.word "[" :: item ++ [.word ("; " ++ count ++ "]")], rest)
      | .mark ';' :: rest =>
        let (count, rest) ← readPath bound rest
        match rest with
        | .mark ']' :: rest => return (.word "[" :: item ++ .word "; " :: count ++ [.word "]"], rest)
        | _ => none
      | _ => none
    | .mark '&' :: .lifetime name :: .word "mut" :: rest => do
      let (target, rest) ← readType bound rest
      return (.word ("&'" ++ name ++ " mut ") :: target, rest)
    | .mark '&' :: .lifetime name :: rest => do
      let (target, rest) ← readType bound rest
      return (.word ("&'" ++ name ++ " ") :: target, rest)
    | .mark '&' :: .word "mut" :: rest => do
      let (target, rest) ← readType bound rest
      return (.word "&mut " :: target, rest)
    | .mark '&' :: rest => do
      let (target, rest) ← readType bound rest
      return (.word "&" :: target, rest)
    | .mark '*' :: .word "const" :: rest => do
      let (target, rest) ← readType bound rest
      return (.word "*const " :: target, rest)
    | .mark '*' :: .word "mut" :: rest => do
      let (target, rest) ← readType bound rest
      return (.word "*mut " :: target, rest)
    | .mark '!' :: rest => some ([.word "!"], rest)
    | .word "_" :: rest => some ([.word "_"], rest)
    | .word "dyn" :: rest => do
      let (bounds, rest) ← readBounds bound rest
      return (.word "dyn " :: bounds, rest)
    | .word "impl" :: rest => do
      let (bounds, rest) ← readBounds bound rest
      return (.word "impl " :: bounds, rest)
    | .word "try" :: _ => none
    | _ => readPath bound tokens

def readTypes : Nat → Char → List Token → Option (List Line × List Token)
  | 0, _, _ => none
  | bound + 1, close, tokens =>
    match tokens with
    | .mark c :: rest =>
      if c == close then some ([], rest) else readFirst bound close tokens
    | _ => readFirst bound close tokens

def readFirst : Nat → Char → List Token → Option (List Line × List Token)
  | 0, _, _ => none
  | bound + 1, close, tokens => do
    let (first, rest) ← readType bound tokens
    match rest with
    | .mark ',' :: rest =>
      let (others, rest) ← readTypes bound close rest
      return (first :: others, rest)
    | .mark c :: rest => if c == close then return ([first], rest) else none
    | _ => none

def readBounds : Nat → List Token → Option (Line × List Token)
  | 0, _ => none
  | bound + 1, tokens => do
    let (first, rest) ← match tokens with
      | .lifetime name :: rest => some ([.word ("'" ++ name)], rest)
      | .mark '?' :: rest => do
        let (path, rest) ← readPath bound rest
        some (.word "?" :: path, rest)
      | _ => readPath bound tokens
    match rest with
    | .mark '+' :: rest =>
      let (others, rest) ← readBounds bound rest
      return (first ++ .word " + " :: others, rest)
    | _ => return (first, rest)

def readPath : Nat → List Token → Option (Line × List Token)
  | 0, _ => none
  | bound + 1, tokens =>
    match tokens with
    | .colons :: rest => do
      let (segments, rest) ← readSegments bound rest
      return (.word "::" :: segments, rest)
    | _ => readSegments bound tokens

def readSegments : Nat → List Token → Option (Line × List Token)
  | 0, _ => none
  | bound + 1, tokens =>
    match tokens with
    | .word name :: rest => do
      guard (isSegment name)
      let (arguments, rest) ← if takesArguments name then readArguments bound rest else some ([], rest)
      match rest with
      | .colons :: rest =>
        let (others, rest) ← readSegments bound rest
        return (.word name :: arguments ++ .word "::" :: others, rest)
      | _ => return (.word name :: arguments, rest)
    | _ => none

def readArguments : Nat → List Token → Option (Line × List Token)
  | 0, _ => none
  | bound + 1, tokens =>
    match tokens with
    | .mark '<' :: rest | .colons :: .mark '<' :: rest => do
      let (items, rest) ← readGenerics bound rest
      let lifetimes := items.filter (·.1)
      let others := items.filter (!·.1)
      let items := (lifetimes ++ others).map (·.2)
      return (if items.isEmpty then [] else [.list "<" ">" false items], rest)
    | .mark '(' :: rest => do
      let (items, rest) ← readTypes bound ')' rest
      match rest with
      | .arrow :: rest =>
        let (result, rest) ← readType bound rest
        return (.list "(" ")" false items :: .word " -> " :: result, rest)
      | _ => return ([.list "(" ")" false items], rest)
    | _ => some ([], tokens)

/-- Reads the arguments in angle brackets; lifetimes are marked, since they are written first. -/
def readGenerics : Nat → List Token → Option (List (Bool × Line) × List Token)
  | 0, _ => none
  | bound + 1, tokens =>
    match tokens with
    | .mark '>' :: rest => some ([], rest)
    | _ => do
      let (first, rest) ← match tokens with
        | .lifetime name :: rest => some ((true, [.word ("'" ++ name)]), rest)
        | .number text :: rest => some ((false, [.word text]), rest)
        | .word "true" :: rest => some ((false, [.word "true"]), rest)
        | .word "false" :: rest => some ((false, [.word "false"]), rest)
        | .word name :: .mark '=' :: rest => do
          guard (isName name)
          let (type, rest) ← readType bound rest
          some ((false, .word (name ++ " = ") :: type), rest)
        | _ => do
          let (type, rest) ← readType bound tokens
          some ((false, type), rest)
      match rest with
      | .mark '>' :: rest => return ([first], rest)
      | .mark ',' :: rest =>
        let (others, rest) ← readGenerics bound rest
        return (first :: others, rest)
      | _ => none
end

/-- The layout of a type, if the text is one.  Between two tokens a reader calls no more than a few
    others. -/
def typeLine? (text : String) : Option Line := do
  let tokens ← tokens? text
  match ← readType (8 * tokens.length + 8) tokens with
  | (line, []) => return line
  | _ => none

/-! ## Paths -/

def pathParts? : List Token → Option (List String)
  | [.word name] => if isSegment name then some [name] else none
  | .word name :: .colons :: rest =>
    if isSegment name then (pathParts? rest).map (name :: ·) else none
  | _ => none

def path? (text : String) : Option String := do
  match ← tokens? text with
  | .colons :: rest => return "::" ++ joinTexts "::" (← pathParts? rest)
  | tokens => return joinTexts "::" (← pathParts? tokens)

end YangStubs.Emit
