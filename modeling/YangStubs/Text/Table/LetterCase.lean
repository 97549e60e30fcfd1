import YangStubs.Text.Table.Category

/-! # Letter case -/

namespace YangStubs.Text.Table

open YangStubs.Text (Run spans)

def uppercase : List Run :=
  categoryLu ++
  spans 0 [8544,16,838,26,117856,26,6,26,6,26]

def lowercase : List Run :=
  categoryLl ++
  spans 0 [170,1,15,1,501,9,7,2,30,5,96,1,52,1,3457,1,3119,63,13,1,34,37,689,1,13,1,16,13,211,16,848,26,1938,2,
    31262,2,210,1,129,3,3,2,866,4,9,1,23574,1,2,3,1,42,1,9,55413,62]

/-- The title-case letters, which are cased but neither upper nor lower. -/
def titlecase : List Run :=
  categoryLt

/-- The characters that casing rules skip when they look for a cased neighbour. -/
def caseIgnorable : List Run :=
  categoryLm ++ categoryMn ++ categoryMe ++ categoryCf ++ categorySk ++
  spans 0 [39,1,6,1,11,1,124,1,719,1,471,1,148,1,6691,2,10,1,2,1,56811,1,62,1,2,1,177,1,6,1,11,1]

end YangStubs.Text.Table
