import Whiteboard.Text.Span

namespace Whiteboard
namespace Text

/-!
Letter case in Unicode 17.  Lower case is the simple mapping, one character to one character.
-/

def lowerSpans : List Span :=
  [(97,122,1),(181,181,1),(223,246,1),(248,255,1),(257,309,2),(311,312,1),(314,326,2),
   (328,329,1),(331,375,2),(378,380,2),(382,384,1),(387,387,1),(389,389,1),(392,392,1),
   (396,397,1),(402,402,1),(405,405,1),(409,411,1),(414,414,1),(417,421,2),(424,424,1),
   (426,427,1),(429,429,1),(432,432,1),(436,436,1),(438,438,1),(441,442,1),(445,447,1),
   (454,454,1),(457,457,1),(460,474,2),(476,477,1),(479,493,2),(495,496,1),(499,499,1),
   (501,501,1),(505,561,2),(563,569,1),(572,572,1),(575,576,1),(578,578,1),(583,589,2),
   (591,659,1),(662,687,1),(881,881,1),(883,883,1),(887,887,1),(891,893,1),(912,912,1),
   (940,974,1),(976,977,1),(981,983,1),(985,1005,2),(1007,1011,1),(1013,1013,1),(1016,1016,1),
   (1019,1020,1),(1072,1119,1),(1121,1153,2),(1163,1215,2),(1218,1228,2),(1230,1231,1),(1233,1327,2),
   (1376,1416,1),(4304,4346,1),(4349,4351,1),(5112,5117,1),(7296,7304,1),(7306,7306,1),
   (7424,7467,1),(7531,7543,1),(7545,7578,1),(7681,7827,2),(7829,7837,1),(7839,7933,2),
   (7935,7943,1),(7952,7957,1),(7968,7975,1),(7984,7991,1),(8000,8005,1),(8016,8023,1),
   (8032,8039,1),(8048,8061,1),(8064,8071,1),(8080,8087,1),(8096,8103,1),(8112,8116,1),
   (8118,8119,1),(8126,8126,1),(8130,8132,1),(8134,8135,1),(8144,8147,1),(8150,8151,1),
   (8160,8167,1),(8178,8180,1),(8182,8183,1),(8458,8458,1),(8462,8463,1),(8467,8467,1),
   (8495,8495,1),(8500,8500,1),(8505,8505,1),(8508,8509,1),(8518,8521,1),(8526,8526,1),
   (8580,8580,1),(11312,11359,1),(11361,11361,1),(11365,11366,1),(11368,11372,2),(11377,11377,1),
   (11379,11380,1),(11382,11387,1),(11393,11489,2),(11491,11492,1),(11500,11500,1),(11502,11502,1),
   (11507,11507,1),(11520,11557,1),(11559,11559,1),(11565,11565,1),(42561,42605,2),(42625,42651,2),
   (42787,42797,2),(42799,42801,1),(42803,42863,2),(42865,42872,1),(42874,42874,1),(42876,42876,1),
   (42879,42887,2),(42892,42892,1),(42894,42894,1),(42897,42897,1),(42899,42901,1),(42903,42921,2),
   (42927,42927,1),(42933,42947,2),(42952,42952,1),(42954,42954,1),(42957,42971,2),(42998,42998,1),
   (43002,43002,1),(43824,43866,1),(43872,43880,1),(43888,43967,1),(64256,64262,1),(64275,64279,1),
   (65345,65370,1),(66600,66639,1),(66776,66811,1),(66967,66977,1),(66979,66993,1),
   (66995,67001,1),(67003,67004,1),(68800,68850,1),(68976,68997,1),(71872,71903,1),
   (93792,93823,1),(93883,93907,1),(119834,119859,1),(119886,119892,1),(119894,119911,1),
   (119938,119963,1),(119990,119993,1),(119995,119995,1),(119997,120003,1),(120005,120015,1),
   (120042,120067,1),(120094,120119,1),(120146,120171,1),(120198,120223,1),(120250,120275,1),
   (120302,120327,1),(120354,120379,1),(120406,120431,1),(120458,120485,1),(120514,120538,1),
   (120540,120545,1),(120572,120596,1),(120598,120603,1),(120630,120654,1),(120656,120661,1),
   (120688,120712,1),(120714,120719,1),(120746,120770,1),(120772,120777,1),(120779,120779,1),
   (122624,122633,1),(122635,122654,1),(122661,122666,1),(125218,125251,1)]

def upperSpans : List Span :=
  [(65,90,1),(192,214,1),(216,222,1),(256,310,2),(313,327,2),(330,374,2),(376,377,1),
   (379,379,1),(381,381,1),(385,386,1),(388,388,1),(390,391,1),(393,395,1),(398,401,1),
   (403,404,1),(406,408,1),(412,413,1),(415,416,1),(418,420,2),(422,423,1),(425,425,1),
   (428,428,1),(430,431,1),(433,435,1),(437,437,1),(439,440,1),(444,444,1),(452,452,1),
   (455,455,1),(458,458,1),(461,475,2),(478,494,2),(497,497,1),(500,500,1),(502,504,1),
   (506,562,2),(570,571,1),(573,574,1),(577,577,1),(579,582,1),(584,590,2),(880,880,1),
   (882,882,1),(886,886,1),(895,895,1),(902,902,1),(904,906,1),(908,908,1),(910,911,1),
   (913,929,1),(931,939,1),(975,975,1),(978,980,1),(984,1006,2),(1012,1012,1),(1015,1015,1),
   (1017,1018,1),(1021,1071,1),(1120,1152,2),(1162,1214,2),(1216,1217,1),(1219,1229,2),(1232,1326,2),
   (1329,1366,1),(4256,4293,1),(4295,4295,1),(4301,4301,1),(5024,5109,1),(7305,7305,1),
   (7312,7354,1),(7357,7359,1),(7680,7828,2),(7838,7934,2),(7944,7951,1),(7960,7965,1),
   (7976,7983,1),(7992,7999,1),(8008,8013,1),(8025,8031,2),(8040,8047,1),(8120,8123,1),
   (8136,8139,1),(8152,8155,1),(8168,8172,1),(8184,8187,1),(8450,8450,1),(8455,8455,1),
   (8459,8461,1),(8464,8466,1),(8469,8469,1),(8473,8477,1),(8484,8488,2),(8490,8493,1),
   (8496,8499,1),(8510,8511,1),(8517,8517,1),(8579,8579,1),(11264,11311,1),(11360,11360,1),
   (11362,11364,1),(11367,11371,2),(11373,11376,1),(11378,11378,1),(11381,11381,1),(11390,11392,1),
   (11394,11490,2),(11499,11499,1),(11501,11501,1),(11506,11506,1),(42560,42604,2),(42624,42650,2),
   (42786,42798,2),(42802,42862,2),(42873,42875,2),(42877,42878,1),(42880,42886,2),(42891,42891,1),
   (42893,42893,1),(42896,42896,1),(42898,42898,1),(42902,42920,2),(42922,42926,1),(42928,42932,1),
   (42934,42946,2),(42948,42951,1),(42953,42953,1),(42955,42956,1),(42958,42972,2),(42997,42997,1),
   (65313,65338,1),(66560,66599,1),(66736,66771,1),(66928,66938,1),(66940,66954,1),
   (66956,66962,1),(66964,66965,1),(68736,68786,1),(68944,68965,1),(71840,71871,1),
   (93760,93791,1),(93856,93880,1),(119808,119833,1),(119860,119885,1),(119912,119937,1),
   (119964,119964,1),(119966,119967,1),(119970,119970,1),(119973,119974,1),(119977,119980,1),
   (119982,119989,1),(120016,120041,1),(120068,120069,1),(120071,120074,1),(120077,120084,1),
   (120086,120092,1),(120120,120121,1),(120123,120126,1),(120128,120132,1),(120134,120134,1),
   (120138,120144,1),(120172,120197,1),(120224,120249,1),(120276,120301,1),(120328,120353,1),
   (120380,120405,1),(120432,120457,1),(120488,120512,1),(120546,120570,1),(120604,120628,1),
   (120662,120686,1),(120720,120744,1),(120778,120778,1),(125184,125217,1)]

def isLower (c : Char) : Bool :=
  inSpans lowerSpans c.toNat

def isUpper (c : Char) : Bool :=
  inSpans upperSpans c.toNat

/-- Letters with a lower-case partner: the first of a span, how much further the last is, the step,
and the partner of the first. -/
def lowerPartners : List (Nat × Nat × Nat × Nat) :=
  [(65,25,1,97),(192,22,1,224),(216,6,1,248),(256,46,2,257),(304,0,1,105),(306,4,2,307),
   (313,14,2,314),(330,44,2,331),(376,0,1,255),(377,4,2,378),(385,0,1,595),(386,2,2,387),
   (390,0,1,596),(391,0,1,392),(393,1,1,598),(395,0,1,396),(398,0,1,477),(399,0,1,601),
   (400,0,1,603),(401,0,1,402),(403,0,1,608),(404,0,1,611),(406,0,1,617),(407,0,1,616),
   (408,0,1,409),(412,0,1,623),(413,0,1,626),(415,0,1,629),(416,4,2,417),(422,0,1,640),
   (423,0,1,424),(425,0,1,643),(428,0,1,429),(430,0,1,648),(431,0,1,432),(433,1,1,650),
   (435,2,2,436),(439,0,1,658),(440,0,1,441),(444,0,1,445),(452,0,1,454),(453,0,1,454),
   (455,0,1,457),(456,0,1,457),(458,0,1,460),(459,16,2,460),(478,16,2,479),(497,0,1,499),
   (498,2,2,499),(502,0,1,405),(503,0,1,447),(504,38,2,505),(544,0,1,414),(546,16,2,547),
   (570,0,1,11365),(571,0,1,572),(573,0,1,410),(574,0,1,11366),(577,0,1,578),(579,0,1,384),
   (580,0,1,649),(581,0,1,652),(582,8,2,583),(880,2,2,881),(886,0,1,887),(895,0,1,1011),
   (902,0,1,940),(904,2,1,941),(908,0,1,972),(910,1,1,973),(913,16,1,945),(931,8,1,963),
   (975,0,1,983),(984,22,2,985),(1012,0,1,952),(1015,0,1,1016),(1017,0,1,1010),(1018,0,1,1019),
   (1021,2,1,891),(1024,15,1,1104),(1040,31,1,1072),(1120,32,2,1121),(1162,52,2,1163),(1216,0,1,1231),
   (1217,12,2,1218),(1232,94,2,1233),(1329,37,1,1377),(4256,37,1,11520),(4295,0,1,11559),
   (4301,0,1,11565),(5024,79,1,43888),(5104,5,1,5112),(7305,0,1,7306),(7312,42,1,4304),
   (7357,2,1,4349),(7680,148,2,7681),(7838,0,1,223),(7840,94,2,7841),(7944,7,1,7936),
   (7960,5,1,7952),(7976,7,1,7968),(7992,7,1,7984),(8008,5,1,8000),(8025,6,2,8017),
   (8040,7,1,8032),(8072,7,1,8064),(8088,7,1,8080),(8104,7,1,8096),(8120,1,1,8112),
   (8122,1,1,8048),(8124,0,1,8115),(8136,3,1,8050),(8140,0,1,8131),(8152,1,1,8144),
   (8154,1,1,8054),(8168,1,1,8160),(8170,1,1,8058),(8172,0,1,8165),(8184,1,1,8056),
   (8186,1,1,8060),(8188,0,1,8179),(8486,0,1,969),(8490,0,1,107),(8491,0,1,229),
   (8498,0,1,8526),(8544,15,1,8560),(8579,0,1,8580),(9398,25,1,9424),(11264,47,1,11312),
   (11360,0,1,11361),(11362,0,1,619),(11363,0,1,7549),(11364,0,1,637),(11367,4,2,11368),
   (11373,0,1,593),(11374,0,1,625),(11375,0,1,592),(11376,0,1,594),(11378,0,1,11379),
   (11381,0,1,11382),(11390,1,1,575),(11392,98,2,11393),(11499,2,2,11500),(11506,0,1,11507),
   (42560,44,2,42561),(42624,26,2,42625),(42786,12,2,42787),(42802,60,2,42803),(42873,2,2,42874),
   (42877,0,1,7545),(42878,8,2,42879),(42891,0,1,42892),(42893,0,1,613),(42896,2,2,42897),
   (42902,18,2,42903),(42922,0,1,614),(42923,0,1,604),(42924,0,1,609),(42925,0,1,620),
   (42926,0,1,618),(42928,0,1,670),(42929,0,1,647),(42930,0,1,669),(42931,0,1,43859),
   (42932,14,2,42933),(42948,0,1,42900),(42949,0,1,642),(42950,0,1,7566),(42951,2,2,42952),
   (42955,0,1,612),(42956,14,2,42957),(42972,0,1,411),(42997,0,1,42998),(65313,25,1,65345),
   (66560,39,1,66600),(66736,35,1,66776),(66928,10,1,66967),(66940,14,1,66979),
   (66956,6,1,66995),(66964,1,1,67003),(68736,50,1,68800),(68944,21,1,68976),(71840,31,1,71872),
   (93760,31,1,93792),(93856,24,1,93883),(125184,33,1,125218)]

/-- The code point of the lower-case partner, or the code point itself. -/
def lowerCode : List (Nat × Nat × Nat × Nat) → Nat → Nat
  | [], n => n
  | (first, more, step, partner) :: rest, n =>
    if n ≤ first + more then
      if first ≤ n && (n - first) % step == 0 then partner + (n - first) else n
    else lowerCode rest n

def toLower (c : Char) : Char :=
  Char.ofNat (lowerCode lowerPartners c.toNat)

def lowerText (s : String) : String :=
  String.ofList (s.toList.map toLower)

end Text
end Whiteboard
