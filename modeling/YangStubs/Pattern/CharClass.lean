import YangStubs.Text.CharClass
import YangStubs.Text.Table.CaseFolding
import YangStubs.Text.Table.WordCharacter

/-! # Character classes of patterns

A class is built from runs of characters by union, intersection, difference and complement.  A folded
class also holds the characters that differ from its own by case only.
-/

namespace YangStubs.Pattern

open YangStubs.Text

inductive CharClass where
  | runs (members : List Run)
  | union (left right : CharClass)
  | inter (left right : CharClass)
  | diff (left right : CharClass)
  | symmDiff (left right : CharClass)
  | compl (base : CharClass)
  | fold (base : CharClass)
  | foldAscii (base : CharClass)
  deriving Repr

/-- The character that stands for all that differ from `c` by case only. -/
def foldedChar (c : Char) : Char :=
  (shifted? Table.foldShifts c).getD c

def shiftSources (s : Shift) (n : Nat) : List Nat :=
  let source := s.run.first + (n - s.target)
  if decide (s.target ≤ n) && s.run.contains source then [source] else []

/-- The characters that differ from `c` by case only, `c` among them. -/
def caseVariants (c : Char) : List Char :=
  let folded := foldedChar c
  folded :: (Table.foldShifts.flatMap fun s => (shiftSources s folded.toNat).map Char.ofNat)

namespace CharClass

def contains : CharClass → Char → Bool
  | .runs members, c => inRuns members c
  | .union left right, c => left.contains c || right.contains c
  | .inter left right, c => left.contains c && right.contains c
  | .diff left right, c => left.contains c && !right.contains c
  | .symmDiff left right, c => left.contains c != right.contains c
  | .compl base, c => !base.contains c
  | .fold base, c => (caseVariants c).any base.contains
  | .foldAscii base, c => base.contains c || base.contains c.toLower || base.contains c.toUpper

def empty : CharClass :=
  .runs []

def all : CharClass :=
  .compl empty

def single (c : Char) : CharClass :=
  .runs [⟨c.toNat, c.toNat, 1⟩]

def range (first last : Char) : CharClass :=
  .runs [⟨first.toNat, last.toNat, 1⟩]

def ofChars (cs : List Char) : CharClass :=
  .runs (cs.map fun c => ⟨c.toNat, c.toNat, 1⟩)

/-- Decimal digits, of every script or ASCII only. -/
def digit (unicode : Bool) : CharClass :=
  if unicode then .runs Table.decimalDigit else .range '0' '9'

def space (unicode : Bool) : CharClass :=
  if unicode then .runs Table.blank else .runs [⟨9, 13, 1⟩, ⟨32, 32, 1⟩]

def word (unicode : Bool) : CharClass :=
  if unicode then .runs Table.wordCharacter
  else .runs [⟨48, 57, 1⟩, ⟨65, 90, 1⟩, ⟨95, 95, 1⟩, ⟨97, 122, 1⟩]

def ascii? (name : String) : Option CharClass :=
  match name with
  | "alnum" => some (.runs [⟨48, 57, 1⟩, ⟨65, 90, 1⟩, ⟨97, 122, 1⟩])
  | "alpha" => some (.runs [⟨65, 90, 1⟩, ⟨97, 122, 1⟩])
  | "ascii" => some (.runs [⟨0, 127, 1⟩])
  | "blank" => some (.runs [⟨9, 9, 1⟩, ⟨32, 32, 1⟩])
  | "cntrl" => some (.runs [⟨0, 31, 1⟩, ⟨127, 127, 1⟩])
  | "digit" => some (.runs [⟨48, 57, 1⟩])
  | "graph" => some (.runs [⟨33, 126, 1⟩])
  | "lower" => some (.runs [⟨97, 122, 1⟩])
  | "print" => some (.runs [⟨32, 126, 1⟩])
  | "punct" => some (.runs [⟨33, 47, 1⟩, ⟨58, 64, 1⟩, ⟨91, 96, 1⟩, ⟨123, 126, 1⟩])
  | "space" => some (.runs [⟨9, 13, 1⟩, ⟨32, 32, 1⟩])
  | "upper" => some (.runs [⟨65, 90, 1⟩])
  | "word" => some (.runs [⟨48, 57, 1⟩, ⟨65, 90, 1⟩, ⟨95, 95, 1⟩, ⟨97, 122, 1⟩])
  | "xdigit" => some (.runs [⟨48, 57, 1⟩, ⟨65, 70, 1⟩, ⟨97, 102, 1⟩])
  | _ => none

/-- Whether the class stays below 128, as far as single bytes go. -/
def isAscii (c : CharClass) : Bool :=
  (List.range 128).all fun n => !c.contains (Char.ofNat (n + 128))

end CharClass

end YangStubs.Pattern
