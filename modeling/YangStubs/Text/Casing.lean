import YangStubs.Text.CharClass
import YangStubs.Text.Table.CaseMapping

/-! # Case mapping

A character maps to one or more characters (`ß` becomes `SS`).  Lowering a whole text also knows the
final sigma: a capital sigma at the end of a word becomes `ς`, elsewhere `σ`.
-/

namespace YangStubs.Text

def expansion? (table : List (Nat × List Nat)) (c : Char) : Option (List Char) :=
  (table.find? (·.1 == c.toNat)).map fun entry => entry.2.map Char.ofNat

def upperChars (c : Char) : List Char :=
  if c.toNat < 128 then [c.toUpper]
  else ((expansion? Table.upperExpansions c).orElse fun _ =>
    (shifted? Table.upperShifts c).map ([·])).getD [c]

def lowerChars (c : Char) : List Char :=
  if c.toNat < 128 then [c.toLower]
  else ((expansion? Table.lowerExpansions c).orElse fun _ =>
    (shifted? Table.lowerShifts c).map ([·])).getD [c]

/-- Whether the first character that casing rules do not skip is cased. -/
def startsCased (cs : List Char) : Bool :=
  (cs.dropWhile isCaseIgnorable).head?.any isCased

/-- Lowers `cs`, which follows the characters `before` (nearest first). -/
def lowerAfter (before : List Char) : List Char → List Char
  | [] => []
  | c :: rest =>
    let lowered :=
      if c == 'Σ' then [if startsCased before && !startsCased rest then 'ς' else 'σ']
      else lowerChars c
    lowered ++ lowerAfter (c :: before) rest

/-- The lower-case form of a text, with the final sigma rule. -/
def lower (cs : List Char) : List Char :=
  lowerAfter [] cs

def upper (cs : List Char) : List Char :=
  cs.flatMap upperChars

/-- First character raised, the others lowered one by one. -/
def capitalize : List Char → List Char
  | [] => []
  | c :: rest => upperChars c ++ rest.flatMap lowerChars

def lowerAscii (cs : List Char) : List Char :=
  cs.map Char.toLower

end YangStubs.Text
