import YangStubs.Text.CharSet

/-! # Characters of markup

The character classes of the XML grammar.
-/

namespace YangStubs.Markup

open YangStubs.Text (Run inRuns)

def isSpace (c : Char) : Bool :=
  c == ' ' || c == '\t' || c == '\n' || c == '\r'

def isCharacter (c : Char) : Bool :=
  if c.toNat < 32 then isSpace c else c.toNat != 0xFFFE && c.toNat != 0xFFFF

def nameStartRuns : List Run :=
  [⟨0xC0, 0xD6, 1⟩, ⟨0xD8, 0xF6, 1⟩, ⟨0xF8, 0x2FF, 1⟩, ⟨0x370, 0x37D, 1⟩, ⟨0x37F, 0x1FFF, 1⟩,
   ⟨0x200C, 0x200D, 1⟩, ⟨0x2070, 0x218F, 1⟩, ⟨0x2C00, 0x2FEF, 1⟩, ⟨0x3001, 0xD7FF, 1⟩,
   ⟨0xF900, 0xFDCF, 1⟩, ⟨0xFDF0, 0xFFFD, 1⟩, ⟨0x10000, 0xEFFFF, 1⟩]

/-- Non-ASCII characters that may follow in a name but not start it. -/
def nameRestRuns : List Run :=
  [⟨0xB7, 0xB7, 1⟩, ⟨0x300, 0x36F, 1⟩, ⟨0x203F, 0x2040, 1⟩]

/-- A character that may start a name; the colon counts. -/
def isNameStart (c : Char) : Bool :=
  if c.toNat ≤ 128 then c.isAlpha || c == ':' || c == '_' else inRuns nameStartRuns c

/-- A character that may occur in a name; the colon counts. -/
def isNameChar (c : Char) : Bool :=
  isNameStart c || c.isDigit || c == '-' || c == '.' || inRuns nameRestRuns c

end YangStubs.Markup
