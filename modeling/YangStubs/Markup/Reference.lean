import YangStubs.Markup.Characters
import YangStubs.Text.Split

/-! # References and line ends

Characters can be written by reference.  What is written literally is normalized: line ends become line
feeds in text, and line ends and tabs become spaces in attribute values.
-/

namespace YangStubs.Markup

open YangStubs.Text

/-- A character of a text, by the way it is written. -/
inductive Piece where
  | literal (c : Char)
  | reference (c : Char)
  deriving DecidableEq, Repr

def hexValue? (c : Char) : Option Nat :=
  if c.isDigit then some (c.toNat - 48)
  else if 'a' ≤ c ∧ c ≤ 'f' then some (c.toNat - 87)
  else if 'A' ≤ c ∧ c ≤ 'F' then some (c.toNat - 55)
  else none

def numberOf (base : Nat) (digits : List Char) : Nat :=
  digits.foldl (fun n c => n * base + (hexValue? c).getD 0) 0

/-- The character with that number.  Numbers of no character stand for the replacement character, and
    numbers of more than 32 bits for nothing. -/
def characterOf? (n : Nat) : Option Char :=
  if n < 4294967296 then
    let c := if n.isValidChar then Char.ofNat n else '\uFFFD'
    if isCharacter c then some c else none
  else none

def namedCharacter? (name : String) : Option Char :=
  match name with
  | "quot" => some '"'
  | "amp" => some '&'
  | "apos" => some '\''
  | "lt" => some '<'
  | "gt" => some '>'
  | _ => none

/-- The character of a numeric reference in the given base, and what follows the digits. -/
def numericReference? (base : Nat) (isDigit : Char → Bool) (cs : List Char) : Option (Char × List Char) := do
  let digits := cs.takeWhile isDigit
  guard (!digits.isEmpty)
  let c ← characterOf? (numberOf base digits)
  return (c, cs.dropWhile isDigit)

def referred? : List Char → Option (Char × List Char)
  | '#' :: 'x' :: rest => numericReference? 16 (fun c => (hexValue? c).isSome) rest
  | '#' :: rest => numericReference? 10 Char.isDigit rest
  | cs => do
    let c ← namedCharacter? (String.ofList (cs.takeWhile isNameChar))
    return (c, cs.dropWhile isNameChar)

def reference? (cs : List Char) : Option (Char × List Char) := do
  let (c, rest) ← referred? cs
  match rest with
  | ';' :: rest => return (c, rest)
  | _ => none

/-- The characters of a text as written.  The bound is on their number. -/
def piecesWithin? : Nat → List Char → Option (List Piece)
  | _, [] => some []
  | 0, _ :: _ => none
  | bound + 1, '&' :: rest => do
    let (c, rest) ← reference? rest
    return .reference c :: (← piecesWithin? bound rest)
  | bound + 1, c :: rest => do return .literal c :: (← piecesWithin? bound rest)

def pieces? (written : List Char) : Option (List Piece) :=
  piecesWithin? written.length written

/-- Appends a literal character to a text (last character first): a carriage return becomes a line
    feed once the next literal character, or the end, is there; a pair becomes one line feed. -/
def pushLiteral (text : List Char) (c : Char) (atEnd : Bool) : List Char :=
  match text with
  | '\r' :: text =>
    if atEnd && c == '\r' then '\n' :: '\n' :: text
    else if c == '\n' then '\n' :: text
    else c :: '\n' :: text
  | text => if atEnd && c == '\r' then '\n' :: text else c :: text

/-- The characters of a text with normalized line ends, given those before (last first).  The
    literal character next to a reference is taken as it is. -/
def normalizeAfter (text : List Char) (afterReference : Bool) : List Piece → List Char
  | [] => text.reverse
  | .reference c :: rest => normalizeAfter (c :: text) true rest
  | .literal c :: rest =>
    if afterReference then normalizeAfter (c :: text) false rest
    else normalizeAfter (pushLiteral text c rest.isEmpty) false rest

def normalizeText (pieces : List Piece) : String :=
  String.ofList (normalizeAfter [] false pieces)

/-- The characters of an attribute value: literal tabs and line ends are spaces. -/
def normalizeValue : List Piece → List Char
  | [] => []
  | .reference c :: rest => c :: normalizeValue rest
  | .literal c :: rest =>
    if c == '\r' && rest.head? == some (.literal '\n') then normalizeValue rest
    else if c == '\n' || c == '\r' || c == '\t' then ' ' :: normalizeValue rest
    else c :: normalizeValue rest

end YangStubs.Markup
