import YangStubs.Text.Table.Category

/-! # Characters of identifiers -/

namespace YangStubs.Text.Table

open YangStubs.Text (Run spans)

/-- Letters, and what else may start an identifier. -/
def identifierLetter : List Run :=
  categoryLl ++ categoryLu ++ categoryLt ++ categoryLm ++ categoryLo ++ categoryNl ++ spans 0 [6277,2,2193,1,21,1]

/-- The letters among them that may not start an identifier. -/
def identifierExcluded : List Run :=
  spans 0 [890,1,2744,1,127,1,8059,1,52782,6,406,2,116,1,1,1,1,1,1,1,1,1,1,1,1,1,1,1,287,2]

/-- The characters that may continue an identifier, besides those that may start one. -/
def identifierExtend : List Run :=
  categoryMn ++ categoryMc ++ categoryNd ++ categoryPc ++ spans 0 [183,1,719,1,2731,1,127,1,1205,9,1640,1,58819,2]

end YangStubs.Text.Table
