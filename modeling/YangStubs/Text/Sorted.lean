/-! # Sorted lists of texts

Lists in ascending order of code points without repetitions.
-/

namespace YangStubs.Text

/-- Inserts a text into its place, unless it is there. -/
def insertSorted (text : String) : List String → List String
  | [] => [text]
  | t :: rest =>
    if text == t then t :: rest
    else if text < t then text :: t :: rest
    else t :: insertSorted text rest

/-- The texts in ascending order, each once. -/
def sortedSet (texts : List String) : List String :=
  texts.foldr insertSorted []

end YangStubs.Text
