import YangStubs.Text.CharClass

/-! # Cutting texts into pieces and joining them

All functions work on lists of characters; `Split` in a name keeps empty pieces, `words` drops them.
-/

namespace YangStubs.Text

/-- The pieces between the characters that satisfy `sep`; `n` separators give `n + 1` pieces. -/
def splitBy (sep : Char → Bool) : List Char → List (List Char)
  | [] => [[]]
  | c :: rest =>
    if sep c then [] :: splitBy sep rest
    else match splitBy sep rest with
      | [] => [[c]]
      | piece :: pieces => (c :: piece) :: pieces

/-- The non-empty pieces between the characters that satisfy `sep`. -/
def wordsBy (sep : Char → Bool) (cs : List Char) : List (List Char) :=
  (splitBy sep cs).filter (!·.isEmpty)

/-- What stands before the first `sep` and what follows it. -/
def cutAt? (sep : Char) : List Char → Option (List Char × List Char)
  | [] => none
  | c :: rest =>
    if c == sep then some ([], rest)
    else (cutAt? sep rest).map fun (before, after) => (c :: before, after)

/-- What follows `start`, if the text starts with it. -/
def dropStart? : List Char → List Char → Option (List Char)
  | [], cs => some cs
  | _ :: _, [] => none
  | s :: start, c :: cs => if s == c then dropStart? start cs else none

def startsWith (start cs : List Char) : Bool :=
  (dropStart? start cs).isSome

def hasPart (part : List Char) : List Char → Bool
  | [] => part.isEmpty
  | c :: rest => startsWith part (c :: rest) || hasPart part rest

def trimStart (cs : List Char) : List Char :=
  cs.dropWhile isBlank

/-- The text without the characters at its end that satisfy `p`. -/
def dropEndWhile (p : Char → Bool) (cs : List Char) : List Char :=
  (cs.reverse.dropWhile p).reverse

def trim (cs : List Char) : List Char :=
  dropEndWhile isBlank (trimStart cs)

/-- A line without the carriage return that ends it. -/
def dropReturn (line : List Char) : List Char :=
  match line.reverse with
  | '\r' :: rest => rest.reverse
  | _ => line

/-- The lines of a text, line ends cut; a line end at the very end starts no further line. -/
def lines (cs : List Char) : List (List Char) :=
  let pieces := splitBy (· == '\n') cs
  let pieces := if pieces.getLast? == some [] then pieces.dropLast else pieces
  -- the last piece has no line end, so a carriage return in it stays
  match cs.getLast? with
  | some '\n' => pieces.map dropReturn
  | _ => pieces.dropLast.map dropReturn ++ pieces.getLast?.toList

/-- The pieces with `sep` between neighbours. -/
def joinWith (sep : List Char) : List (List Char) → List Char
  | [] => []
  | [piece] => piece
  | piece :: pieces => piece ++ sep ++ joinWith sep pieces

def joinTexts (sep : String) (texts : List String) : String :=
  String.ofList (joinWith sep.toList (texts.map (·.toList)))

def replaceChar (old new : Char) (cs : List Char) : List Char :=
  cs.map fun c => if c == old then new else c

end YangStubs.Text
