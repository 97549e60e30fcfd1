import YangStubs.Pattern.CharClass
import YangStubs.Text.Split
import YangStubs.Text.Table.Alphanumeric
import YangStubs.Text.Table.Category
import YangStubs.Text.Table.Identifier
import YangStubs.Text.Table.Script
import YangStubs.Text.Table.Unprintable

/-! # Character properties by name

Patterns can name a property of characters: a general category, a script, or one of the yes-or-no
properties.  Case, spaces, underscores and hyphens in such names do not count.

The yes-or-no properties are those of `binary?` only.  Any other, and ages and kinds of breaks, are refused as unknown
names, and the extensions of a script are taken for the script.  Patterns may be of any size and depth.
-/

namespace YangStubs.Pattern

open YangStubs.Text

def propertyKey (name : String) : String :=
  let cs := (name.toList.filter fun c =>
    decide (c.toNat < 128) && c != ' ' && c != '_' && c != '-').map Char.toLower
  match cs with
  | 'i' :: 's' :: c :: rest => String.ofList (if c :: rest == ['c'] then cs else c :: rest)
  | cs => String.ofList cs

/-- The long names of general categories, each with its short one. -/
def categoryNames : List (String × String) :=
  [("letter", "l"), ("uppercaseletter", "lu"), ("lowercaseletter", "ll"), ("titlecaseletter", "lt"),
   ("casedletter", "lc"), ("modifierletter", "lm"), ("otherletter", "lo"), ("mark", "m"),
   ("combiningmark", "m"), ("nonspacingmark", "mn"), ("spacingmark", "mc"), ("enclosingmark", "me"),
   ("number", "n"), ("decimalnumber", "nd"), ("digit", "nd"), ("letternumber", "nl"),
   ("othernumber", "no"), ("punctuation", "p"), ("punct", "p"), ("connectorpunctuation", "pc"),
   ("dashpunctuation", "pd"), ("openpunctuation", "ps"), ("closepunctuation", "pe"),
   ("initialpunctuation", "pi"), ("finalpunctuation", "pf"), ("otherpunctuation", "po"),
   ("symbol", "s"), ("mathsymbol", "sm"), ("currencysymbol", "sc"), ("modifiersymbol", "sk"),
   ("othersymbol", "so"), ("separator", "z"), ("spaceseparator", "zs"), ("lineseparator", "zl"),
   ("paragraphseparator", "zp"), ("other", "c"), ("control", "cc"), ("cntrl", "cc"), ("format", "cf"),
   ("privateuse", "co"), ("unassigned", "cn")]

def category? (key : String) : Option CharClass :=
  let key := (categoryNames.lookup key).getD key
  if key == "any" then some .all
  else if key == "ascii" then some (.runs [⟨0, 127, 1⟩])
  else if key == "assigned" then some (.compl (.runs Table.categoryCn))
  else if key == "lc" then
    some (.union (.runs Table.categoryLu) (.union (.runs Table.categoryLl) (.runs Table.categoryLt)))
  else if key.length == 1 then
    match (Table.categories.filter fun entry => entry.1.toList.take 1 == key.toList).map (·.2) with
    | [] => none
    | runs => some (.runs runs.flatten)
  else (Table.categories.lookup key).map .runs

def script? (key : String) : Option CharClass :=
  (Table.scripts.lookup key).map .runs

def identifierStart : CharClass :=
  .diff (.runs Table.identifierLetter) (.runs Table.identifierExcluded)

def binary? (key : String) : Option CharClass :=
  match key with
  | "alphabetic" | "alpha" =>
    some (.diff (.runs Table.alphanumeric) (.union (.runs Table.categoryNd) (.runs Table.categoryNo)))
  | "uppercase" | "upper" => some (.runs Table.uppercase)
  | "lowercase" | "lower" => some (.runs Table.lowercase)
  | "whitespace" | "wspace" | "space" => some (.runs Table.blank)
  | "caseignorable" | "ci" => some (.runs Table.caseIgnorable)
  | "cased" =>
    some (.union (.runs Table.uppercase) (.union (.runs Table.lowercase) (.runs Table.titlecase)))
  | "graphemeextend" | "grext" => some (.runs Table.graphemeExtend)
  | "xidstart" | "xids" => some identifierStart
  | "xidcontinue" | "xidc" => some (.union identifierStart (.runs Table.identifierExtend))
  | _ => none

def property? (name : String) : Option CharClass :=
  let key := propertyKey name
  let binary := if key == "cf" || key == "sc" || key == "lc" then none else binary? key
  (binary.orElse fun _ => category? key).orElse fun _ => script? key

def propertyValue? (name value : String) : Option CharClass :=
  match propertyKey name with
  | "generalcategory" | "gc" => category? (propertyKey value)
  | "script" | "sc" | "scriptextensions" | "scx" => script? (propertyKey value)
  | _ => none

end YangStubs.Pattern
