import YangStubs.Text.Table.Alphanumeric
import YangStubs.Text.Table.Blank
import YangStubs.Text.Table.LetterCase

/-! # Character classes

The classes are those of the Unicode standard.  Characters below 128 are decided without the tables.
-/

namespace YangStubs.Text

def isAlphanumeric (c : Char) : Bool :=
  if c.toNat < 128 then c.isAlphanum else inRuns Table.alphanumeric c

def isUpper (c : Char) : Bool :=
  if c.toNat < 128 then c.isUpper else inRuns Table.uppercase c

def isLower (c : Char) : Bool :=
  if c.toNat < 128 then c.isLower else inRuns Table.lowercase c

def isCased (c : Char) : Bool :=
  isUpper c || isLower c || inRuns Table.titlecase c

def isCaseIgnorable (c : Char) : Bool :=
  inRuns Table.caseIgnorable c

def isBlank (c : Char) : Bool :=
  inRuns Table.blank c

def isAsciiDigit (c : Char) : Bool :=
  c.isDigit

end YangStubs.Text
