import YangStubs.Text.Table.Category

/-! # Characters without a printed form -/

namespace YangStubs.Text.Table

open YangStubs.Text (Run spans)

/-- Controls, formats, separators other than the space, private and unassigned code points. -/
def unprintable : List Run :=
  categoryCc ++ categoryCf ++ categoryZl ++ categoryZp ++ categoryCo ++ categoryCn ++
  spans 0 [160,1,5599,1,2431,11,36,1,47,1,4000,1,43007,2048]

/-- The characters that extend the grapheme before them. -/
def graphemeExtend : List Run :=
  categoryMn ++ categoryMe ++
  spans 0 [2494,1,24,1,358,1,24,1,102,1,24,1,234,1,18,2,103,1,24,1,119,1,15,1,3413,1,1238,1,4129,2,53102,2,5022,1,
    24,1,344,1,12,1,241,1,896,1,47156,1,8,5,798381,96]

end YangStubs.Text.Table
