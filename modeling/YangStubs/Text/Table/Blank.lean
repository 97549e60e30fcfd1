import YangStubs.Text.CharSet

/-! # White space -/

namespace YangStubs.Text.Table

open YangStubs.Text (Run spans)

def blank : List Run :=
  spans 0 [9,5,18,1,100,1,26,1,5599,1,2431,11,29,2,5,1,47,1,4000,1]

end YangStubs.Text.Table
