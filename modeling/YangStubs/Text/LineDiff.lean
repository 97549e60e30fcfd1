/-! # Line differences

The difference of two texts as edits on their lines, and its unified rendering.  The edits come from a
search for the middle of a shortest path through the grid of both texts, from both ends at once; lines in
common at either end are cut off first.  Edits are then moved together where the lines allow it.
-/

namespace YangStubs.Text

/-! ## Lines -/

/-- The lines of a text with their ends; a line ends at a line feed, a carriage return, or both. -/
def linesWithEnds (line : List Char) : List Char → List (List Char)
  | [] => if line.isEmpty then [] else [line.reverse]
  | '\r' :: '\n' :: rest => ('\n' :: '\r' :: line).reverse :: linesWithEnds [] rest
  | '\r' :: rest => ('\r' :: line).reverse :: linesWithEnds [] rest
  | '\n' :: rest => ('\n' :: line).reverse :: linesWithEnds [] rest
  | c :: rest => linesWithEnds (c :: line) rest

def commonStart {α : Type} [BEq α] : List α → List α → Nat
  | a :: as, b :: bs => if a == b then commonStart as bs + 1 else 0
  | _, _ => 0

def commonEnd {α : Type} [BEq α] (as bs : List α) : Nat :=
  commonStart as.reverse bs.reverse

def slice {α : Type} (items : List α) (start count : Nat) : List α :=
  (items.drop start).take count

namespace LineDiff

/-! ## The middle of a path -/

abbrev Frontier := List (Int × Nat)

def Frontier.reached (frontier : Frontier) (diagonal : Int) : Nat :=
  (frontier.lookup diagonal).getD 0

def Frontier.set (diagonal : Int) (x : Nat) : Frontier → Frontier
  | [] => [(diagonal, x)]
  | (other, y) :: rest =>
    if other == diagonal then (diagonal, x) :: rest else (other, y) :: Frontier.set diagonal x rest

/-- The diagonals that a search comes to with some number of edits, last one first. -/
def diagonals (edits : Nat) : List Int :=
  (List.range (edits + 1)).map fun (i : Nat) => (edits : Int) - 2 * i

/-- Where a diagonal is entered, and how far it leads through common lines. -/
def advance (old new : List (List Char)) (frontier : Frontier) (edits : Nat) (k : Int) : Nat × Nat :=
  let x :=
    if k == -edits || (k != edits && frontier.reached (k - 1) < frontier.reached (k + 1)) then
      frontier.reached (k + 1)
    else frontier.reached (k - 1) + 1
  let y := (x - k).toNat
  (x, x + commonStart (old.drop x) (new.drop y))

/-- Advances on diagonals one after the other until two searches meet.  The function `meets` answers the
    meeting point, given a diagonal, where it was entered and where it led. -/
def advanceAll (old new : List (List Char)) (edits : Nat) (meets : Int → Nat → Nat → Option (Nat × Nat)) :
    Frontier → List Int → (Nat × Nat) ⊕ Frontier
  | frontier, [] => .inr frontier
  | frontier, k :: rest =>
    let (entered, x) := advance old new frontier edits k
    match meets k entered x with
    | some point => .inl point
    | none => advanceAll old new edits meets (frontier.set k x) rest

/-- Searches from both ends, first from the start, with one more edit in each round. -/
def middle? (old new : List (List Char)) :
    Nat → Nat → Frontier → Frontier → Option (Nat × Nat)
  | 0, _, _, _ => none
  | rounds + 1, edits, forward, backward =>
    let n := old.length
    let m := new.length
    let delta : Int := (n : Int) - m
    let odd := delta % 2 == 1
    let meetsBackward (k : Int) (entered x : Nat) : Option (Nat × Nat) :=
      if odd && (k - delta).natAbs + 1 ≤ edits && n ≤ x + backward.reached (delta - k) then
        some (entered, (entered - k).toNat)
      else none
    match advanceAll old new edits meetsBackward forward (diagonals edits) with
    | .inl point => some point
    | .inr forward =>
      let meetsForward (k : Int) (_ x : Nat) : Option (Nat × Nat) :=
        if !odd && (k - delta).natAbs ≤ edits && n ≤ x + forward.reached (delta - k) then
          some (n - x, m - (x - k).toNat)
        else none
      match advanceAll old.reverse new.reverse edits meetsForward backward (diagonals edits) with
      | .inl point => some point
      | .inr backward => middle? old new rounds (edits + 1) forward backward

/-! ## Edits -/

inductive Action where
  | keep
  | delete
  | insert
  deriving DecidableEq, Repr

/-- An edit of some lines at a position in both texts. -/
structure Edit where
  action : Action
  old : Nat
  new : Nat
  count : Nat
  deriving DecidableEq, Repr

def editsFor (action : Action) (old new count : Nat) : List Edit :=
  if count == 0 then [] else [⟨action, old, new, count⟩]

/-- The edits that lead from one list of lines to another, which stand at the given positions.  Both parts
    on the sides of the middle are shorter. -/
def edits : Nat → Nat → Nat → List (List Char) → List (List Char) → List Edit
  | 0, _, _, _, _ => []
  | bound + 1, i, j, old, new =>
    let start := commonStart old new
    let restOld := old.drop start
    let restNew := new.drop start
    let stop := commonEnd restOld restNew
    let midOld := restOld.take (restOld.length - stop)
    let midNew := restNew.take (restNew.length - stop)
    let oldAt := i + start
    let newAt := j + start
    let between :=
      if midOld.isEmpty || midNew.isEmpty then
        editsFor .delete oldAt newAt midOld.length ++ editsFor .insert oldAt newAt midNew.length
      else
        match middle? midOld midNew ((midOld.length + midNew.length + 1) / 2 + 1) 0 [] [] with
        | some (x, y) =>
          edits bound oldAt newAt (midOld.take x) (midNew.take y) ++
            edits bound (oldAt + x) (newAt + y) (midOld.drop x) (midNew.drop y)
        | none =>
          [⟨.delete, oldAt, newAt, midOld.length⟩, ⟨.insert, oldAt, newAt, midNew.length⟩]
    editsFor .keep i j start ++ between ++ editsFor .keep (oldAt + midOld.length) (newAt + midNew.length) stop

/-! ## Moving edits together -/

/-- An edit among others; those before it are listed nearest first. -/
structure Focus where
  before : List Edit
  here : Edit
  after : List Edit

/-- Moves an edit up: over edits of the other kind, into edits of its own kind, and over kept lines as far
    as an insertion repeats them. -/
def moveUp (old new : List (List Char)) : Nat → Focus → Focus
  | 0, focus => focus
  | _, ⟨[], here, after⟩ => ⟨[], here, after⟩
  | bound + 1, ⟨previous :: before, here, after⟩ =>
    if previous.action == .keep then
      let slide :=
        if here.action == .insert then
          commonEnd (slice old previous.old previous.count) (slice new here.new here.count)
        else 0
      if slide > 0 then
        let kept : Edit :=
          ⟨.keep, previous.old + previous.count - slide, here.new + here.count - slide, slide⟩
        let after := match after with
          | [] => [kept]
          | next :: rest =>
            if next.action == .keep then
              ⟨.keep, next.old - slide, next.new - slide, next.count + slide⟩ :: rest
            else kept :: next :: rest
        let before :=
          if previous.count == slide then before
          else { previous with count := previous.count - slide } :: before
        moveUp old new bound ⟨before, { here with old := here.old - slide, new := here.new - slide }, after⟩
      else ⟨previous :: before, here, after⟩
    else if previous.action == here.action then
      moveUp old new bound ⟨before, { previous with count := previous.count + here.count }, after⟩
    else moveUp old new bound ⟨before, here, previous :: after⟩

/-- Moves an edit down, in the same ways. -/
def moveDown (old new : List (List Char)) : Nat → Focus → Focus
  | 0, focus => focus
  | _, ⟨before, here, []⟩ => ⟨before, here, []⟩
  | bound + 1, ⟨before, here, next :: after⟩ =>
    if next.action == .keep then
      let slide :=
        if here.action == .insert then
          commonStart (slice old next.old next.count) (slice new here.new here.count)
        else 0
      if slide > 0 then
        let kept : Edit := ⟨.keep, next.old, here.new, slide⟩
        let before := match before with
          | [] => [kept]
          | previous :: rest =>
            if previous.action == .keep then
              { previous with count := previous.count + slide } :: rest
            else kept :: previous :: rest
        let after :=
          if next.count == slide then after
          else ⟨.keep, next.old + slide, next.new + slide, next.count - slide⟩ :: after
        moveDown old new bound ⟨before, { here with old := here.old + slide, new := here.new + slide }, after⟩
      else ⟨before, here, next :: after⟩
    else if next.action == here.action then
      moveDown old new bound ⟨before, { here with count := here.count + next.count }, after⟩
    else moveDown old new bound ⟨next :: before, here, after⟩

/-- Moves all edits of one kind up and then down, in their order. -/
def moveAll (old new : List (List Char)) (reach : Nat) (action : Action) :
    Nat → List Edit → List Edit → List Edit
  | 0, before, after => before.reverse ++ after
  | _, before, [] => before.reverse
  | bound + 1, before, edit :: after =>
    if edit.action == action then
      let focus := moveDown old new reach (moveUp old new reach ⟨before, edit, after⟩)
      moveAll old new reach action bound (focus.here :: focus.before) focus.after
    else moveAll old new reach action bound (edit :: before) after

def compact (old new : List (List Char)) (script : List Edit) : List Edit :=
  let reach := old.length + new.length + script.length
  let bound := reach * reach
  moveAll old new reach .insert bound [] (moveAll old new reach .delete bound [] script)

/-! ## Blocks and hunks -/

/-- Lines of one text that stand against lines of the other. -/
structure Block where
  same : Bool
  old : Nat
  oldCount : Nat
  new : Nat
  newCount : Nat
  deriving DecidableEq, Repr

/-- The block of deletions and insertions that follow one another. -/
def changeBlock : Option Edit → Option Edit → List Block
  | some deleted, some inserted =>
    [⟨false, deleted.old, deleted.count, inserted.new, inserted.count⟩]
  | some deleted, none => [⟨false, deleted.old, deleted.count, deleted.new, 0⟩]
  | none, some inserted => [⟨false, inserted.old, 0, inserted.new, inserted.count⟩]
  | none, none => []

/-- An edit with the lines of another of its kind after its own. -/
def extended : Option Edit → Edit → Edit
  | some first, edit => { first with count := first.count + edit.count }
  | none, edit => edit

def keepBlock : Option Edit → List Block
  | some kept => [⟨true, kept.old, kept.count, kept.new, kept.count⟩]
  | none => []

/-- Brings edits that follow one another into blocks; the edits not yet in a block are given by kind. -/
def blocks (kept deleted inserted : Option Edit) : List Edit → List Block
  | [] => keepBlock kept ++ changeBlock deleted inserted
  | edit :: rest =>
    match edit.action with
    | .keep => changeBlock deleted inserted ++ blocks (some (extended kept edit)) none none rest
    | .delete => keepBlock kept ++ blocks none (some (extended deleted edit)) inserted rest
    | .insert => keepBlock kept ++ blocks none deleted (some (extended inserted edit)) rest

def context : Nat := 3

def Block.dropLines (block : Block) (count : Nat) : Block :=
  ⟨block.same, block.old + count, block.oldCount - count, block.new + count, block.newCount - count⟩

def Block.takeLines (block : Block) (count : Nat) : Block :=
  ⟨block.same, block.old, min count block.oldCount, block.new, min count block.newCount⟩

/-- Cuts unchanged lines at the start down to the context. -/
def trimFirst : List Block → List Block
  | [] => []
  | block :: rest =>
    if block.same then block.dropLines (block.oldCount - context) :: rest else block :: rest

def trimLast : List Block → List Block
  | [] => []
  | [block] => if block.same then [block.takeLines context] else [block]
  | block :: rest => block :: trimLast rest

/-- Parts blocks into hunks where many lines are unchanged; the first argument is the hunk so far. -/
def hunks (hunk : List Block) : List Block → List (List Block)
  | [] =>
    match hunk with
    | [] => []
    | [block] => if block.same then [] else [hunk]
    | _ => [hunk]
  | block :: rest =>
    if block.same && block.oldCount > 2 * context then
      (hunk ++ [block.takeLines context]) :: hunks [block.dropLines (block.oldCount - context)] rest
    else hunks (hunk ++ [block]) rest

/-! ## Rendering -/

/-- A range of lines: its start, and its length unless that is one.  An empty range starts at the line
    before. -/
def rangeText (start stop : Nat) : String :=
  let length := stop - start
  if length == 1 then toString (start + 1)
  else if length == 0 then toString start ++ ",0"
  else toString (start + 1) ++ "," ++ toString length

def hunkHeader (hunk : List Block) : String :=
  match hunk.head?, hunk.getLast? with
  | some first, some last =>
    "@@ -" ++ rangeText first.old (last.old + last.oldCount) ++ " +" ++
      rangeText first.new (last.new + last.newCount) ++ " @@\n"
  | _, _ => ""

def marked (mark : Char) (lines : List (List Char)) : String :=
  String.ofList (lines.flatMap fun line => mark :: line)

/-- The lines of a block: unchanged ones, or those deleted and then those inserted. -/
def blockText (old new : List (List Char)) (block : Block) : String :=
  if block.same then marked ' ' (slice old block.old block.oldCount)
  else
    marked '-' (slice old block.old block.oldCount) ++ marked '+' (slice new block.new block.newCount)

def hunkText (old new : List (List Char)) (hunk : List Block) : String :=
  hunkHeader hunk ++ String.join (hunk.map (blockText old new))

end LineDiff

open LineDiff in
/-- The difference of two texts with a name for each, in unified form. -/
def unifiedDiff (oldName newName old new : String) : String :=
  let oldLines := linesWithEnds [] old.toList
  let newLines := linesWithEnds [] new.toList
  let script := edits (oldLines.length + newLines.length + 1) 0 0 oldLines newLines
  let parts := blocks none none none (compact oldLines newLines script)
  let shown := (hunks [] (trimLast (trimFirst parts))).filter fun hunk => !hunk.isEmpty
  if shown.isEmpty then ""
  else
    "--- " ++ oldName ++ "\n+++ " ++ newName ++ "\n" ++
      String.join (shown.map (hunkText oldLines newLines))

end YangStubs.Text
