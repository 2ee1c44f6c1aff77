import Whiteboard.Text.Span

namespace Whiteboard
namespace Text

/-!
Letters of all scripts: the code points whose general category in Unicode 17 is a letter.
-/

def letterIntervals : List (Nat × Nat) :=
  [(65,25),(97,25),(170,0),(181,0),(186,0),(192,22),(216,30),(248,457),(710,11),(736,4),(748,0),
   (750,0),(880,4),(886,1),(890,3),(895,0),(902,0),(904,2),(908,0),(910,19),(931,82),
   (1015,138),(1162,165),(1329,37),(1369,0),(1376,40),(1488,26),(1519,3),(1568,42),(1646,1),(1649,98),
   (1749,0),(1765,1),(1774,1),(1786,2),(1791,0),(1808,0),(1810,29),(1869,88),(1969,0),(1994,32),(2036,1),
   (2042,0),(2048,21),(2074,0),(2084,0),(2088,0),(2112,24),(2144,10),(2160,23),(2185,6),(2208,41),
   (2308,53),(2365,0),(2384,0),(2392,9),(2417,15),(2437,7),(2447,1),(2451,21),(2474,6),(2482,0),(2486,3),
   (2493,0),(2510,0),(2524,1),(2527,2),(2544,1),(2556,0),(2565,5),(2575,1),(2579,21),(2602,6),(2610,1),
   (2613,1),(2616,1),(2649,3),(2654,0),(2674,2),(2693,8),(2703,2),(2707,21),(2730,6),(2738,1),(2741,4),
   (2749,0),(2768,0),(2784,1),(2809,0),(2821,7),(2831,1),(2835,21),(2858,6),(2866,1),(2869,4),(2877,0),
   (2908,1),(2911,2),(2929,0),(2947,0),(2949,5),(2958,2),(2962,3),(2969,1),(2972,0),(2974,1),(2979,1),
   (2984,2),(2990,11),(3024,0),(3077,7),(3086,2),(3090,22),(3114,15),(3133,0),(3160,2),(3164,1),(3168,1),
   (3200,0),(3205,7),(3214,2),(3218,22),(3242,9),(3253,4),(3261,0),(3292,2),(3296,1),(3313,1),(3332,8),
   (3342,2),(3346,40),(3389,0),(3406,0),(3412,2),(3423,2),(3450,5),(3461,17),(3482,23),(3507,8),(3517,0),
   (3520,6),(3585,47),(3634,1),(3648,6),(3713,1),(3716,0),(3718,4),(3724,23),(3749,0),(3751,9),(3762,1),
   (3773,0),(3776,4),(3782,0),(3804,3),(3840,0),(3904,7),(3913,35),(3976,4),(4096,42),(4159,0),
   (4176,5),(4186,3),(4193,0),(4197,1),(4206,2),(4213,12),(4238,0),(4256,37),(4295,0),(4301,0),
   (4304,42),(4348,332),(4682,3),(4688,6),(4696,0),(4698,3),(4704,40),(4746,3),(4752,32),
   (4786,3),(4792,6),(4800,0),(4802,3),(4808,14),(4824,56),(4882,3),(4888,66),(4992,15),
   (5024,85),(5112,5),(5121,619),(5743,16),(5761,25),(5792,74),(5873,7),(5888,17),(5919,18),
   (5952,17),(5984,12),(5998,2),(6016,51),(6103,0),(6108,0),(6176,88),(6272,4),(6279,33),
   (6314,0),(6320,69),(6400,30),(6480,29),(6512,4),(6528,43),(6576,25),(6656,22),(6688,52),
   (6823,0),(6917,46),(6981,7),(7043,29),(7086,1),(7098,43),(7168,35),(7245,2),(7258,35),
   (7296,10),(7312,42),(7357,2),(7401,3),(7406,5),(7413,1),(7418,0),(7424,191),(7680,277),
   (7960,5),(7968,37),(8008,5),(8016,7),(8025,0),(8027,0),(8029,0),(8031,30),(8064,52),(8118,6),
   (8126,0),(8130,2),(8134,6),(8144,3),(8150,5),(8160,12),(8178,2),(8182,6),(8305,0),(8319,0),
   (8336,12),(8450,0),(8455,0),(8458,9),(8469,0),(8473,4),(8484,0),(8486,0),(8488,0),(8490,3),
   (8495,10),(8508,3),(8517,4),(8526,0),(8579,1),(11264,228),(11499,3),(11506,1),(11520,37),
   (11559,0),(11565,0),(11568,55),(11631,0),(11648,22),(11680,6),(11688,6),(11696,6),(11704,6),(11712,6),
   (11720,6),(11728,6),(11736,6),(11823,0),(12293,1),(12337,4),(12347,1),(12353,85),(12445,2),(12449,89),
   (12540,3),(12549,42),(12593,93),(12704,31),(12784,15),(13312,6591),(19968,22156),(42192,45),(42240,268),
   (42512,15),(42538,1),(42560,46),(42623,30),(42656,69),(42775,8),(42786,102),(42891,81),(42993,16),
   (43011,2),(43015,3),(43020,22),(43072,51),(43138,49),(43250,5),(43259,0),(43261,1),(43274,27),
   (43312,22),(43360,28),(43396,46),(43471,0),(43488,4),(43494,9),(43514,4),(43520,40),(43584,2),
   (43588,7),(43616,22),(43642,0),(43646,49),(43697,0),(43701,1),(43705,4),(43712,0),(43714,0),(43739,2),
   (43744,10),(43762,2),(43777,5),(43785,5),(43793,5),(43808,6),(43816,6),(43824,42),(43868,13),
   (43888,114),(44032,11171),(55216,22),(55243,48),(63744,365),(64112,105),(64256,6),(64275,4),(64285,0),
   (64287,9),(64298,12),(64312,4),(64318,0),(64320,1),(64323,1),(64326,107),(64467,362),(64848,63),
   (64914,53),(65008,11),(65136,4),(65142,134),(65313,25),(65345,25),(65382,88),(65474,5),(65482,5),
   (65490,5),(65498,2),(65536,11),(65549,25),(65576,18),(65596,1),(65599,14),(65616,13),(65664,122),
   (66176,28),(66208,48),(66304,31),(66349,19),(66370,7),(66384,37),(66432,29),(66464,35),
   (66504,7),(66560,157),(66736,35),(66776,35),(66816,39),(66864,51),(66928,10),(66940,14),
   (66956,6),(66964,1),(66967,10),(66979,14),(66995,6),(67003,1),(67008,51),(67072,310),
   (67392,21),(67424,7),(67456,5),(67463,41),(67506,8),(67584,5),(67592,0),(67594,43),(67639,1),
   (67644,0),(67647,22),(67680,22),(67712,30),(67808,18),(67828,1),(67840,21),(67872,25),
   (67904,25),(67968,55),(68030,1),(68096,0),(68112,3),(68117,2),(68121,28),(68192,28),(68224,28),
   (68288,7),(68297,27),(68352,53),(68416,21),(68448,18),(68480,17),(68608,72),(68736,50),
   (68800,50),(68864,35),(68938,27),(68975,22),(69248,41),(69296,1),(69314,5),(69376,28),
   (69415,0),(69424,21),(69488,17),(69552,20),(69600,22),(69635,52),(69745,1),(69749,0),
   (69763,44),(69840,24),(69891,35),(69956,0),(69959,0),(69968,34),(70006,0),(70019,47),(70081,3),
   (70106,0),(70108,0),(70144,17),(70163,24),(70207,1),(70272,6),(70280,0),(70282,3),(70287,14),
   (70303,9),(70320,46),(70405,7),(70415,1),(70419,21),(70442,6),(70450,1),(70453,4),(70461,0),
   (70480,0),(70493,4),(70528,9),(70539,0),(70542,0),(70544,37),(70583,0),(70609,0),(70611,0),
   (70656,52),(70727,3),(70751,2),(70784,47),(70852,1),(70855,0),(71040,46),(71128,3),(71168,47),
   (71236,0),(71296,42),(71352,0),(71424,26),(71488,6),(71680,43),(71840,63),(71935,7),(71945,0),
   (71948,7),(71957,1),(71960,23),(71999,0),(72001,0),(72096,7),(72106,38),(72161,0),(72163,0),
   (72192,0),(72203,39),(72250,0),(72272,0),(72284,45),(72349,0),(72368,72),(72640,32),(72704,8),
   (72714,36),(72768,0),(72818,29),(72960,6),(72968,1),(72971,37),(73030,0),(73056,5),(73063,1),
   (73066,31),(73112,0),(73136,43),(73440,18),(73474,0),(73476,12),(73490,33),(73648,0),
   (73728,921),(74880,195),(77712,96),(77824,1071),(78913,5),(78944,3994),(82944,582),(90368,29),
   (92160,568),(92736,30),(92784,78),(92880,29),(92928,47),(92992,3),(93027,20),(93053,18),
   (93504,44),(93760,63),(93856,24),(93883,24),(93952,74),(94032,0),(94099,12),(94176,1),
   (94179,0),(94194,1),(94208,7381),(101631,31),(101760,114),(110576,3),(110581,6),(110589,1),
   (110592,290),(110898,0),(110928,2),(110933,0),(110948,3),(110960,395),(113664,106),(113776,12),
   (113792,8),(113808,9),(119808,84),(119894,70),(119966,1),(119970,0),(119973,1),(119977,3),(119982,11),
   (119995,0),(119997,6),(120005,64),(120071,3),(120077,7),(120086,6),(120094,27),(120123,3),(120128,4),
   (120134,0),(120138,6),(120146,339),(120488,24),(120514,24),(120540,30),(120572,24),(120598,30),
   (120630,24),(120656,30),(120688,24),(120714,30),(120746,24),(120772,7),(122624,30),(122661,5),
   (122928,61),(123136,44),(123191,6),(123214,0),(123536,29),(123584,43),(124112,27),(124368,29),
   (124400,0),(124608,30),(124640,2),(124644,1),(124647,6),(124656,4),(124670,1),(124896,6),(124904,3),
   (124909,1),(124912,14),(124928,196),(125184,67),(125259,0),(126464,3),(126469,26),(126497,1),(126500,0),
   (126503,0),(126505,9),(126516,3),(126521,0),(126523,0),(126530,0),(126535,0),(126537,0),(126539,0),
   (126541,2),(126545,1),(126548,0),(126551,0),(126553,0),(126555,0),(126557,0),(126559,0),(126561,1),
   (126564,0),(126567,3),(126572,6),(126580,3),(126585,3),(126590,0),(126592,9),(126603,16),(126625,2),
   (126629,4),(126635,16),(131072,42719),(173824,4381),(178208,5773),(183984,7472),(191472,621),
   (194560,541),(196608,4938),(201552,8489)]

/-- A letter of any script (general category L). -/
def isLetter (c : Char) : Bool :=
  inIntervals letterIntervals c.toNat

end Text
end Whiteboard
