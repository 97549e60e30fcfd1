import YangStubs.Text.Split

/-! # Lines that break

A line of source text is made of words and of lists in brackets.  A list that does not fit the page is
written with one item on a line; what is around it stays as it is.  Widths are counted in bytes.
-/

namespace YangStubs.Emit

inductive Piece where
  /-- Text that never breaks. -/
  | word (text : String)
  /-- Items in brackets with commas between them; `comma` asks for a comma after the last one even if the
      list does not break. -/
  | list (left right : String) (comma : Bool) (items : List (List Piece))
  deriving Repr

abbrev Line := List Piece

namespace Layout

def pageWidth : Int := 89

def leastWidth : Int := 60

def step : Nat := 4

def spaceAt (indent : Nat) : Int :=
  max (pageWidth - indent) leastWidth

def margin (indent : Nat) : String :=
  String.ofList (List.replicate indent ' ')

/-! ## Without breaks -/

mutual
def pieceText : Piece → String
  | .word text => text
  | .list left right comma items => left ++ itemsText comma items ++ right

def lineText : List Piece → String
  | [] => ""
  | piece :: rest => pieceText piece ++ lineText rest

def itemsText (comma : Bool) : List (List Piece) → String
  | [] => ""
  | item :: rest =>
    lineText item ++ (if rest.isEmpty then (if comma then "," else "") else ", ") ++ itemsText comma rest
end

/-- The width of the pieces up to where a break is possible, given what follows them. -/
def leadWidth (following : Nat) : List Piece → Nat
  | [] => following
  | .word text :: rest => text.utf8ByteSize + leadWidth following rest
  | .list left _ _ _ :: _ => left.utf8ByteSize

/-! ## With breaks -/

mutual
/-- A piece, given the columns left and the width that follows it without a break; answers also the
    columns left after it. -/
def renderPiece (indent : Nat) (space : Int) (following : Nat) : Piece → String × Int
  | .word text => (text, space - text.utf8ByteSize)
  | .list left right comma items =>
    let flat := itemsText comma items
    let width := left.utf8ByteSize + flat.utf8ByteSize + right.utf8ByteSize
    if items.isEmpty || width + following ≤ space then (left ++ flat ++ right, space - width)
    else
      (left ++ renderItems (indent + step) comma items ++ "\n" ++ margin indent ++ right,
       spaceAt indent - right.utf8ByteSize)

def renderLine (indent : Nat) (space : Int) (following : Nat) : List Piece → String × Int
  | [] => ("", space)
  | piece :: rest =>
    let (first, space) := renderPiece indent space (leadWidth following rest) piece
    let (others, space) := renderLine indent space following rest
    (first ++ others, space)

def renderItems (indent : Nat) (comma : Bool) : List (List Piece) → String
  | [] => ""
  | item :: rest =>
    -- the last comma is part of the break and takes no room, unless it is always there
    let following := if rest.isEmpty && !comma then 0 else 1
    "\n" ++ margin indent ++ (renderLine indent (spaceAt indent) following item).1 ++ "," ++
      renderItems indent comma rest
end

end Layout

def Line.render (indent : Nat) (line : Line) : String :=
  Layout.margin indent ++ (Layout.renderLine indent (Layout.spaceAt indent) 0 line).1 ++ "\n"

end YangStubs.Emit
