import YangStubs.Text.Casing
import YangStubs.Text.Split

/-! # Words of names in mixed case

A name is first cut at everything that is no letter or number.  Inside a piece a word ends where a
lower-case letter meets an upper-case one, and before the last capital of a run of capitals that a
lower-case letter follows: `HTTPServer2Go` has the words `HTTP`, `Server2`, `Go`.
-/

namespace YangStubs.Naming

open YangStubs.Text

/-- The case of the last cased character of the current word. -/
inductive WordCase where
  | none
  | lower
  | upper
  deriving DecidableEq, Repr

def WordCase.after (state : WordCase) (c : Char) : WordCase :=
  if isLower c then .lower else if isUpper c then .upper else state

/-- The words of a piece, whose current word has the characters `word` (last first) so far. -/
def wordsFrom (state : WordCase) (word : List Char) : List Char → List (List Char)
  | [] => []
  | [c] => [(c :: word).reverse]
  | c :: next :: rest =>
    if state.after c == .lower && isUpper next then
      (c :: word).reverse :: wordsFrom .none [] (next :: rest)
    else if state == .upper && isUpper c && isLower next then
      word.reverse :: wordsFrom .none [c] (next :: rest)
    else wordsFrom (state.after c) (c :: word) (next :: rest)

def mixedWords (name : List Char) : List (List Char) :=
  (splitBy (!isAlphanumeric ·) name).flatMap (wordsFrom .none [])

/-- Lowers a word; a capital sigma is final when it is the last character. -/
def lowerWord : List Char → List Char
  | [] => []
  | [c] => if c == 'Σ' then ['ς'] else lowerChars c
  | c :: rest => lowerChars c ++ lowerWord rest

/-- First character raised, the rest lowered as a word. -/
def capitalizeWord : List Char → List Char
  | [] => []
  | c :: rest => upperChars c ++ lowerWord rest

/-- The words of a name, each capitalized, without anything between them. -/
def upperCamel (name : String) : String :=
  String.ofList ((mixedWords name.toList).flatMap capitalizeWord)

/-- The words of a name in lower case, joined with `_`. -/
def snake (name : String) : String :=
  String.ofList (joinWith ['_'] ((mixedWords name.toList).map lowerWord))

end YangStubs.Naming
