import YangStubs.Text.CharSet

/-! # Case mappings -/

namespace YangStubs.Text.Table

open YangStubs.Text (Shift)

def upperShifts : List Shift :=
  shifts 0 [97,26,1,65,84,1,1,924,43,23,1,192,24,7,1,216,7,1,1,376,2,24,2,256,48,1,1,73,2,3,2,306,7,8,2,313,17,23,2,
    330,47,3,2,377,5,1,1,83,1,1,1,579,3,2,2,386,5,1,1,391,4,1,1,395,6,1,1,401,3,1,1,502,4,1,1,408,1,1,1,573,4,1,1,
    544,3,3,2,416,7,1,1,423,5,1,1,428,3,1,1,431,4,2,2,435,5,1,1,440,4,1,1,444,2,1,1,503,6,1,1,452,1,1,1,452,2,1,1,
    455,1,1,1,455,2,1,1,458,1,1,1,458,2,8,2,461,15,1,1,398,2,9,2,478,19,1,1,497,1,1,1,497,2,1,1,500,4,20,2,504,42,9,
    2,546,25,1,1,571,3,2,1,11390,3,1,1,577,5,5,2,582,9,1,1,11375,1,1,1,11373,1,1,1,11376,1,1,1,385,1,1,1,390,2,2,1,
    393,3,1,1,399,2,1,1,400,1,1,1,42923,4,1,1,403,1,1,1,42924,2,1,1,404,2,1,1,42893,1,1,1,42922,2,1,1,407,1,1,1,406,
    1,1,1,42926,1,1,1,11362,1,1,1,42925,3,1,1,412,2,1,1,11374,1,1,1,413,3,1,1,415,8,1,1,11364,3,1,1,422,2,1,1,42949,
    1,1,1,425,4,1,1,42929,1,1,1,430,1,1,1,580,1,2,1,433,2,1,1,581,6,1,1,439,11,1,1,42930,1,1,1,42928,167,1,1,921,44,
    2,2,880,6,1,1,886,4,3,1,1021,49,1,1,902,1,3,1,904,4,17,1,913,17,1,1,931,1,9,1,931,9,1,1,908,1,2,1,910,3,1,1,914,
    1,1,1,920,4,1,1,934,1,1,1,928,1,1,1,975,2,12,2,984,23,1,1,922,1,1,1,929,1,1,1,1017,1,1,1,895,2,1,1,917,3,1,1,
    1015,3,1,1,1018,53,32,1,1040,32,16,1,1024,17,17,2,1120,42,27,2,1162,55,7,2,1217,13,1,1,1216,2,48,2,1232,144,38,
    1,1329,2927,43,1,7312,45,3,1,7357,763,6,1,5104,2184,1,1,1042,1,1,1,1044,1,1,1,1054,1,2,1,1057,2,1,1,1058,1,1,1,
    1066,1,1,1,1122,1,1,1,42570,241,1,1,42877,4,1,1,11363,17,1,1,42950,115,75,2,7680,154,1,1,7776,6,48,2,7840,95,8,
    1,7944,16,6,1,7960,16,8,1,7976,16,8,1,7992,16,6,1,8008,17,4,2,8025,15,8,1,8040,16,2,1,8122,2,4,1,8136,4,2,1,
    8154,2,2,1,8184,2,2,1,8170,2,2,1,8186,52,2,1,8120,14,1,1,921,18,2,1,8152,16,2,1,8168,5,1,1,8172,361,1,1,8498,34,
    16,1,8544,20,1,1,8579,844,26,1,9398,1888,48,1,11264,49,1,1,11360,4,1,1,570,1,1,1,574,2,3,2,11367,11,1,1,11378,3,
    1,1,11381,11,50,2,11392,107,2,2,11499,7,1,1,11506,13,38,1,4256,39,1,1,4295,6,1,1,4301,30996,23,2,42560,64,14,2,
    42624,162,7,2,42786,16,31,2,42802,71,2,2,42873,5,5,2,42878,13,1,1,42891,5,2,2,42896,3,1,1,42948,3,10,2,42902,30,
    8,2,42932,19,2,2,42951,9,1,1,42960,6,2,2,42966,31,1,1,42997,861,1,1,42931,29,80,1,5024,21457,26,1,65313,1255,40,
    1,66560,176,36,1,66736,191,11,1,66928,12,15,1,66940,16,7,1,66956,8,2,1,66964,1797,51,1,68736,3072,32,1,71840,
    21920,32,1,93760,31426,34,1,125184]

def upperExpansions : List (Nat × List Nat) :=
  [(0xDF, [0x53, 0x53]), (0x149, [0x2BC, 0x4E]), (0x1F0, [0x4A, 0x30C]), (0x390, [0x399, 0x308, 0x301]),
   (0x3B0, [0x3A5, 0x308, 0x301]), (0x587, [0x535, 0x552]), (0x1E96, [0x48, 0x331]), (0x1E97, [0x54, 0x308]),
   (0x1E98, [0x57, 0x30A]), (0x1E99, [0x59, 0x30A]), (0x1E9A, [0x41, 0x2BE]), (0x1F50, [0x3A5, 0x313]),
   (0x1F52, [0x3A5, 0x313, 0x300]), (0x1F54, [0x3A5, 0x313, 0x301]), (0x1F56, [0x3A5, 0x313, 0x342])] ++
  -- Greek letters with an iota below them, in three rows of eight small and eight capital ones.
  ([(0x1F80, 0x1F08), (0x1F90, 0x1F28), (0x1FA0, 0x1F68)].flatMap fun row =>
    (List.range 16).map fun i => (row.1 + i, [row.2 + i % 8, 0x399])) ++
  [(0x1FB2, [0x1FBA, 0x399]), (0x1FB3, [0x391, 0x399]), (0x1FB4, [0x386, 0x399]), (0x1FB6, [0x391, 0x342]),
   (0x1FB7, [0x391, 0x342, 0x399]), (0x1FBC, [0x391, 0x399]), (0x1FC2, [0x1FCA, 0x399]),
   (0x1FC3, [0x397, 0x399]), (0x1FC4, [0x389, 0x399]), (0x1FC6, [0x397, 0x342]), (0x1FC7, [0x397, 0x342, 0x399]),
   (0x1FCC, [0x397, 0x399]), (0x1FD2, [0x399, 0x308, 0x300]), (0x1FD3, [0x399, 0x308, 0x301]),
   (0x1FD6, [0x399, 0x342]), (0x1FD7, [0x399, 0x308, 0x342]), (0x1FE2, [0x3A5, 0x308, 0x300]),
   (0x1FE3, [0x3A5, 0x308, 0x301]), (0x1FE4, [0x3A1, 0x313]), (0x1FE6, [0x3A5, 0x342]),
   (0x1FE7, [0x3A5, 0x308, 0x342]), (0x1FF2, [0x1FFA, 0x399]), (0x1FF3, [0x3A9, 0x399]),
   (0x1FF4, [0x38F, 0x399]), (0x1FF6, [0x3A9, 0x342]), (0x1FF7, [0x3A9, 0x342, 0x399]), (0x1FFC, [0x3A9, 0x399]),
   (0xFB00, [0x46, 0x46]), (0xFB01, [0x46, 0x49]), (0xFB02, [0x46, 0x4C]), (0xFB03, [0x46, 0x46, 0x49]),
   (0xFB04, [0x46, 0x46, 0x4C]), (0xFB05, [0x53, 0x54]), (0xFB06, [0x53, 0x54]), (0xFB13, [0x544, 0x546]),
   (0xFB14, [0x544, 0x535]), (0xFB15, [0x544, 0x53B]), (0xFB16, [0x54E, 0x546]), (0xFB17, [0x544, 0x53D])]

def lowerShifts : List Shift :=
  shifts 0 [65,26,1,97,127,23,1,224,24,7,1,248,40,24,2,257,50,3,2,307,7,8,2,314,17,23,2,331,46,1,1,255,1,3,2,378,8,
    1,1,595,1,2,2,387,4,1,1,596,1,1,1,392,2,2,1,598,2,1,1,396,3,1,1,477,1,1,1,601,1,1,1,603,1,1,1,402,2,1,1,608,1,1,
    1,611,2,1,1,617,1,1,1,616,1,1,1,409,4,1,1,623,1,1,1,626,2,1,1,629,1,3,2,417,6,1,1,640,1,1,1,424,2,1,1,643,3,1,1,
    429,2,1,1,648,1,1,1,432,2,2,1,650,2,2,2,436,4,1,1,658,1,1,1,441,4,1,1,445,8,1,1,454,1,1,1,454,2,1,1,457,1,1,1,
    457,2,1,1,460,1,9,2,460,19,9,2,479,19,1,1,499,1,2,2,499,4,1,1,405,1,1,1,447,1,20,2,505,40,1,1,414,2,9,2,547,24,
    1,1,11365,1,1,1,572,2,1,1,410,1,1,1,11366,3,1,1,578,2,1,1,384,1,1,1,649,1,1,1,652,1,5,2,583,298,2,2,881,6,1,1,
    887,9,1,1,1011,7,1,1,940,2,3,1,941,4,1,1,972,2,2,1,973,3,17,1,945,18,9,1,963,44,1,1,983,9,12,2,985,28,1,1,952,3,
    1,1,1016,2,1,1,1010,1,1,1,1019,3,3,1,891,3,16,1,1104,16,32,1,1072,80,17,2,1121,42,27,2,1163,54,1,1,1231,1,7,2,
    1218,15,48,2,1233,97,38,1,1377,2927,38,1,11520,39,1,1,11559,6,1,1,11565,723,80,1,43888,80,6,1,5112,2208,43,1,
    4304,45,3,1,4349,323,75,2,7681,158,1,1,223,2,48,2,7841,104,8,1,7936,16,6,1,7952,16,8,1,7968,16,8,1,7984,16,6,1,
    8000,17,4,2,8017,15,8,1,8032,32,8,1,8064,16,8,1,8080,16,8,1,8096,16,2,1,8112,2,2,1,8048,2,1,1,8115,12,4,1,8050,
    4,1,1,8131,12,2,1,8144,2,2,1,8054,14,2,1,8160,2,2,1,8058,2,1,1,8165,12,2,1,8056,2,2,1,8060,2,1,1,8179,298,1,1,
    969,4,1,1,107,1,1,1,229,7,1,1,8526,46,16,1,8560,35,1,1,8580,819,26,1,9424,1866,48,1,11312,96,1,1,11361,2,1,1,
    619,1,1,1,7549,1,1,1,637,3,3,2,11368,6,1,1,593,1,1,1,625,1,1,1,592,1,1,1,594,2,1,1,11379,3,1,1,11382,9,2,1,575,
    2,50,2,11393,107,2,2,11500,7,1,1,11507,31054,23,2,42561,64,14,2,42625,162,7,2,42787,16,31,2,42803,71,2,2,42874,
    4,1,1,7545,1,5,2,42879,13,1,1,42892,2,1,1,613,3,2,2,42897,6,10,2,42903,20,1,1,614,1,1,1,604,1,1,1,609,1,1,1,620,
    1,1,1,618,2,1,1,670,1,1,1,647,1,1,1,669,1,1,1,43859,1,8,2,42933,16,1,1,42900,1,1,1,642,1,1,1,7566,1,2,2,42952,9,
    1,1,42961,6,2,2,42967,31,1,1,42998,22316,26,1,65345,1247,40,1,66600,176,36,1,66776,192,11,1,66967,12,15,1,66979,
    16,7,1,66995,8,2,1,67003,1772,51,1,68800,3104,32,1,71872,21920,32,1,93792,31424,34,1,125218]

def lowerExpansions : List (Nat × List Nat) :=
  [(0x130, [0x69, 0x307])]

end YangStubs.Text.Table
