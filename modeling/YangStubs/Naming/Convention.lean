import YangStubs.Text.Casing
import YangStubs.Text.Split

/-! # Naming conventions

A convention says how a name is cut into words and how words are put together again.
-/

namespace YangStubs.Naming

open YangStubs.Text

inductive Convention where
  /-- `interface-name`; `.` and `_` separate words as well. -/
  | kebab
  /-- `interfaceName` -/
  | camel
  /-- `InterfaceName` -/
  | pascal
  /-- `INTERFACE_NAME` -/
  | screaming
  deriving DecidableEq, Repr

/-- Cuts before every upper-case character, the first character of the text apart. -/
def splitBeforeUpper : List Char → List (List Char)
  | [] => []
  | [c] => [[c]]
  | c :: d :: rest =>
    match splitBeforeUpper (d :: rest) with
    | [] => [[c]]
    | word :: words => if isUpper d then [c] :: word :: words else (c :: word) :: words

namespace Convention

def splitChars : Convention → List Char → List (List Char)
  | .kebab, name => wordsBy (fun c => c == '-' || c == '.' || c == '_') name
  | .camel, name => splitBeforeUpper name
  | .pascal, name => splitBeforeUpper name
  | .screaming, name => wordsBy (· == '_') name

def joinChars : Convention → List (List Char) → List Char
  | .kebab, words => joinWith ['-'] (words.map lower)
  | .camel, [] => []
  | .camel, first :: rest => lower first ++ rest.flatMap capitalize
  | .pascal, words => words.flatMap capitalize
  | .screaming, words => joinWith ['_'] (words.map upper)

def split (convention : Convention) (name : String) : List String :=
  (convention.splitChars name.toList).map String.ofList

def join (convention : Convention) (words : List String) : String :=
  String.ofList (convention.joinChars (words.map (·.toList)))

def convert (source target : Convention) (name : String) : String :=
  String.ofList (target.joinChars (source.splitChars name.toList))

end Convention

end YangStubs.Naming
