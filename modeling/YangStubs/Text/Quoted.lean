import YangStubs.Text.Table.Unprintable

/-! # Quoted texts

Messages show names in double quotes.  Inside them a quote and a backslash are escaped, and so is every
character that does not print by itself, so that a message never hides what it names.
-/

namespace YangStubs.Text

def hexDigits (n : Nat) : List Char :=
  Nat.toDigits 16 n

def escapeCodePoint (c : Char) : List Char :=
  '\\' :: 'u' :: '\x7b' :: (hexDigits c.toNat ++ ['\x7d'])

/-- Whether a character prints by itself and does not merge with its neighbour. -/
def printsAlone (c : Char) : Bool :=
  if c.toNat < 128 then decide (32 ≤ c.toNat ∧ c.toNat < 127)
  else !inRuns Table.unprintable c && !inRuns Table.graphemeExtend c

def quoteChar (c : Char) : List Char :=
  if c == '"' then ['\\', '"']
  else if c == '\\' then ['\\', '\\']
  else if c == '\t' then ['\\', 't']
  else if c == '\n' then ['\\', 'n']
  else if c == '\r' then ['\\', 'r']
  else if c.toNat == 0 then ['\\', '0']
  else if printsAlone c then [c]
  else escapeCodePoint c

def quoted (text : String) : String :=
  String.ofList ('"' :: (text.toList.flatMap quoteChar ++ ['"']))

end YangStubs.Text
