import YangStubs.Text.CharSet

/-! # Case folding -/

namespace YangStubs.Text.Table

open YangStubs.Text (Shift)

def foldShifts : List Shift :=
  shifts 0 [65,26,1,97,116,1,1,956,11,23,1,224,24,7,1,248,40,24,2,257,50,3,2,307,7,8,2,314,17,23,2,331,46,1,1,255,1,
    3,2,378,6,1,1,115,2,1,1,595,1,2,2,387,4,1,1,596,1,1,1,392,2,2,1,598,2,1,1,396,3,1,1,477,1,1,1,601,1,1,1,603,1,1,
    1,402,2,1,1,608,1,1,1,611,2,1,1,617,1,1,1,616,1,1,1,409,4,1,1,623,1,1,1,626,2,1,1,629,1,3,2,417,6,1,1,640,1,1,1,
    424,2,1,1,643,3,1,1,429,2,1,1,648,1,1,1,432,2,2,1,650,2,2,2,436,4,1,1,658,1,1,1,441,4,1,1,445,8,1,1,454,1,1,1,
    454,2,1,1,457,1,1,1,457,2,1,1,460,1,9,2,460,19,9,2,479,19,1,1,499,1,2,2,499,4,1,1,405,1,1,1,447,1,20,2,505,40,1,
    1,414,2,9,2,547,24,1,1,11365,1,1,1,572,2,1,1,410,1,1,1,11366,3,1,1,578,2,1,1,384,1,1,1,649,1,1,1,652,1,5,2,583,
    255,1,1,953,43,2,2,881,6,1,1,887,9,1,1,1011,7,1,1,940,2,3,1,941,4,1,1,972,2,2,1,973,3,17,1,945,18,9,1,963,31,1,
    1,963,13,1,1,983,1,1,1,946,1,1,1,952,4,1,1,966,1,1,1,960,2,12,2,985,24,1,1,954,1,1,1,961,3,1,1,952,1,1,1,949,2,
    1,1,1016,2,1,1,1010,1,1,1,1019,3,3,1,891,3,16,1,1104,16,32,1,1072,80,17,2,1121,42,27,2,1163,54,1,1,1231,1,7,2,
    1218,15,48,2,1233,97,38,1,1377,2927,38,1,11520,39,1,1,11559,6,1,1,11565,811,6,1,5104,2184,1,1,1074,1,1,1,1076,1,
    1,1,1086,1,2,1,1089,2,1,1,1090,1,1,1,1098,1,1,1,1123,1,1,1,42571,8,43,1,4304,45,3,1,4349,323,75,2,7681,155,1,1,
    7777,3,1,1,223,2,48,2,7841,104,8,1,7936,16,6,1,7952,16,8,1,7968,16,8,1,7984,16,6,1,8000,17,4,2,8017,15,8,1,8032,
    32,8,1,8064,16,8,1,8080,16,8,1,8096,16,2,1,8112,2,2,1,8048,2,1,1,8115,2,1,1,953,10,4,1,8050,4,1,1,8131,12,2,1,
    8144,2,2,1,8054,14,2,1,8160,2,2,1,8058,2,1,1,8165,12,2,1,8056,2,2,1,8060,2,1,1,8179,298,1,1,969,4,1,1,107,1,1,1,
    229,7,1,1,8526,46,16,1,8560,35,1,1,8580,819,26,1,9424,1866,48,1,11312,96,1,1,11361,2,1,1,619,1,1,1,7549,1,1,1,
    637,3,3,2,11368,6,1,1,593,1,1,1,625,1,1,1,592,1,1,1,594,2,1,1,11379,3,1,1,11382,9,2,1,575,2,50,2,11393,107,2,2,
    11500,7,1,1,11507,31054,23,2,42561,64,14,2,42625,162,7,2,42787,16,31,2,42803,71,2,2,42874,4,1,1,7545,1,5,2,
    42879,13,1,1,42892,2,1,1,613,3,2,2,42897,6,10,2,42903,20,1,1,614,1,1,1,604,1,1,1,609,1,1,1,620,1,1,1,618,2,1,1,
    670,1,1,1,647,1,1,1,669,1,1,1,43859,1,8,2,42933,16,1,1,42900,1,1,1,642,1,1,1,7566,1,2,2,42952,9,1,1,42961,6,2,2,
    42967,31,1,1,42998,891,80,1,5024,21425,26,1,65345,1247,40,1,66600,176,36,1,66776,192,11,1,66967,12,15,1,66979,
    16,7,1,66995,8,2,1,67003,1772,51,1,68800,3104,32,1,71872,21920,32,1,93792,31424,34,1,125218]

end YangStubs.Text.Table
