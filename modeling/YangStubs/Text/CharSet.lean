/-! # Sets of characters as runs of code points

Character properties are given as lists of runs: the code points from a first to a last one, taken
in steps.  A `Shift` moves a run, in order, to another place, which is how case mappings are listed.
Large sets are listed by the lengths of their runs and of the gaps between, and many shifts by the distances
from each to the next.
-/

namespace YangStubs.Text

/-- The code points from `first` to `last` in steps of `step`. -/
structure Run where
  first : Nat
  last : Nat
  step : Nat
  deriving DecidableEq, Repr

/-- A run whose members move, in order, to the code points from `target` on. -/
structure Shift where
  run : Run
  target : Nat
  deriving DecidableEq, Repr

/-- The runs of a set of which it is listed how many code points in a row, from `start` on, are outside of it and
    how many then are inside, in turn. -/
def spans (start : Nat) : List Nat → List Run
  | outside :: inside :: counts =>
    ⟨start + outside, start + outside + inside - 1, 1⟩ :: spans (start + outside + inside) counts
  | _ => []

/-- The code points from `start` on that are outside of some runs, which are in the order of their first members and
    are taken without steps. -/
def gaps (start : Nat) : List Run → List Run
  | [] => [⟨start, 0x10FFFF, 1⟩]
  | r :: rest => if start < r.first then ⟨start, r.first - 1, 1⟩ :: gaps (r.last + 1) rest else gaps (max start (r.last + 1)) rest

/-- Shifts of which it is listed, for each in turn: how far its run starts from the one before, at first from `start`,
    how many code points the run has, in which steps, and the target. -/
def shifts (start : Nat) : List Nat → List Shift
  | distance :: count :: step :: target :: rest =>
    ⟨⟨start + distance, start + distance + (count - 1) * step, step⟩, target⟩ :: shifts (start + distance) rest
  | _ => []

def Run.contains (r : Run) (n : Nat) : Bool :=
  decide (r.first ≤ n) && decide (n ≤ r.last) && (n - r.first) % r.step == 0

/-- Where the shift moves the code point `n`, if it moves it at all. -/
def Shift.move? (s : Shift) (n : Nat) : Option Nat :=
  if s.run.contains n then some (s.target + (n - s.run.first)) else none

def inRuns (runs : List Run) (c : Char) : Bool :=
  runs.any (·.contains c.toNat)

/-- The character that the first applicable shift moves `c` to. -/
def shifted? (shifts : List Shift) (c : Char) : Option Char :=
  (shifts.findSome? (·.move? c.toNat)).map Char.ofNat

end YangStubs.Text
