import YangStubs.Text.Table.Category

/-! # Word characters and digits -/

namespace YangStubs.Text.Table

open YangStubs.Text (Run spans)

/-- Alphabetic characters, marks, decimal digits, connectors and joiners. -/
def wordCharacter : List Run :=
  categoryLl ++ categoryLu ++ categoryLt ++ categoryLm ++ categoryLo ++ categoryMn ++ categoryMc ++
  categoryMe ++ categoryNd ++ categoryNl ++ categoryPc ++
  spans 0 [8204,2,1192,52,117830,26,6,26,6,26]

def decimalDigit : List Run :=
  categoryNd

end YangStubs.Text.Table
