import Whiteboard.Text.Span

namespace Whiteboard
namespace Text

/-!
Characters that have a visible form in Unicode 17.  Of the separators only the plain space counts
as printable.
-/

def graphicIntervals : List (Nat × Nat) :=
  [(33,93),(161,11),(174,713),(890,5),(900,6),(908,0),(910,19),(931,396),(1329,37),(1369,49),
   (1421,2),(1425,54),(1488,26),(1519,5),(1542,21),(1565,191),(1758,47),(1808,58),(1869,100),(1984,58),
   (2045,48),(2096,14),(2112,27),(2142,0),(2144,10),(2160,31),(2199,74),(2275,160),(2437,7),(2447,1),
   (2451,21),(2474,6),(2482,0),(2486,3),(2492,8),(2503,1),(2507,3),(2519,0),(2524,1),(2527,4),(2534,24),
   (2561,2),(2565,5),(2575,1),(2579,21),(2602,6),(2610,1),(2613,1),(2616,1),(2620,0),(2622,4),(2631,1),
   (2635,2),(2641,0),(2649,3),(2654,0),(2662,16),(2689,2),(2693,8),(2703,2),(2707,21),(2730,6),(2738,1),
   (2741,4),(2748,9),(2759,2),(2763,2),(2768,0),(2784,3),(2790,11),(2809,6),(2817,2),(2821,7),(2831,1),
   (2835,21),(2858,6),(2866,1),(2869,4),(2876,8),(2887,1),(2891,2),(2901,2),(2908,1),(2911,4),(2918,17),
   (2946,1),(2949,5),(2958,2),(2962,3),(2969,1),(2972,0),(2974,1),(2979,1),(2984,2),(2990,11),(3006,4),
   (3014,2),(3018,3),(3024,0),(3031,0),(3046,20),(3072,12),(3086,2),(3090,22),(3114,15),(3132,8),
   (3142,2),(3146,3),(3157,1),(3160,2),(3164,1),(3168,3),(3174,9),(3191,21),(3214,2),(3218,22),(3242,9),
   (3253,4),(3260,8),(3270,2),(3274,3),(3285,1),(3292,2),(3296,3),(3302,9),(3313,2),(3328,12),(3342,2),
   (3346,50),(3398,2),(3402,5),(3412,15),(3430,25),(3457,2),(3461,17),(3482,23),(3507,8),(3517,0),
   (3520,6),(3530,0),(3535,5),(3542,0),(3544,7),(3558,9),(3570,2),(3585,57),(3647,28),(3713,1),(3716,0),
   (3718,4),(3724,23),(3749,0),(3751,22),(3776,4),(3782,0),(3784,6),(3792,9),(3804,3),(3840,71),
   (3913,35),(3953,38),(3993,35),(4030,14),(4046,12),(4096,197),(4295,0),(4301,0),(4304,376),
   (4682,3),(4688,6),(4696,0),(4698,3),(4704,40),(4746,3),(4752,32),(4786,3),(4792,6),(4800,0),
   (4802,3),(4808,14),(4824,56),(4882,3),(4888,66),(4957,31),(4992,25),(5024,85),(5112,5),
   (5120,639),(5761,27),(5792,88),(5888,21),(5919,23),(5952,19),(5984,12),(5998,2),(6002,1),
   (6016,93),(6112,9),(6128,9),(6144,13),(6159,10),(6176,88),(6272,42),(6320,69),(6400,30),
   (6432,11),(6448,11),(6464,0),(6468,41),(6512,4),(6528,43),(6576,25),(6608,10),(6622,61),
   (6686,64),(6752,28),(6783,10),(6800,9),(6816,13),(6832,45),(6880,11),(6912,76),(6990,165),
   (7164,59),(7227,14),(7245,61),(7312,42),(7357,10),(7376,42),(7424,533),(7960,5),(7968,37),
   (8008,5),(8016,7),(8025,0),(8027,0),(8029,0),(8031,30),(8064,52),(8118,14),(8134,13),
   (8150,5),(8157,18),(8178,2),(8182,8),(8208,23),(8240,46),(8304,1),(8308,26),(8336,12),
   (8352,33),(8400,32),(8448,139),(8592,665),(9280,10),(9312,1811),(11126,381),(11513,44),(11559,0),
   (11565,0),(11568,55),(11631,1),(11647,23),(11680,6),(11688,6),(11696,6),(11704,6),(11712,6),(11720,6),
   (11728,6),(11736,6),(11744,125),(11904,25),(11931,88),(12032,213),(12272,15),(12289,62),(12353,85),
   (12441,102),(12549,42),(12593,93),(12688,85),(12783,47),(12832,29292),(42128,54),(42192,347),
   (42560,183),(42752,220),(42993,59),(43056,9),(43072,55),(43136,69),(43214,11),(43232,115),(43359,29),
   (43392,77),(43471,10),(43486,32),(43520,54),(43584,13),(43600,9),(43612,102),(43739,27),(43777,5),
   (43785,5),(43793,5),(43808,6),(43816,6),(43824,59),(43888,125),(44016,9),(44032,11171),(55216,22),
   (55243,48),(63744,365),(64112,105),(64256,6),(64275,4),(64285,25),(64312,4),(64318,0),(64320,1),
   (64323,1),(64326,649),(65008,41),(65056,50),(65108,18),(65128,3),(65136,4),(65142,134),(65281,189),
   (65474,5),(65482,5),(65490,5),(65498,2),(65504,6),(65512,6),(65532,1),(65536,11),(65549,25),
   (65576,18),(65596,1),(65599,14),(65616,13),(65664,122),(65792,2),(65799,44),(65847,87),
   (65936,12),(65952,0),(66000,45),(66176,28),(66208,48),(66272,27),(66304,35),(66349,29),
   (66384,42),(66432,29),(66463,36),(66504,13),(66560,157),(66720,9),(66736,35),(66776,35),
   (66816,39),(66864,51),(66927,11),(66940,14),(66956,6),(66964,1),(66967,10),(66979,14),
   (66995,6),(67003,1),(67008,51),(67072,310),(67392,21),(67424,7),(67456,5),(67463,41),(67506,8),
   (67584,5),(67592,0),(67594,43),(67639,1),(67644,0),(67647,22),(67671,71),(67751,8),(67808,18),
   (67828,1),(67835,32),(67871,26),(67903,26),(67968,55),(68028,19),(68050,49),(68101,1),
   (68108,7),(68117,2),(68121,28),(68152,2),(68159,9),(68176,8),(68192,63),(68288,38),(68331,11),
   (68352,53),(68409,28),(68440,26),(68472,25),(68505,3),(68521,6),(68608,72),(68736,50),
   (68800,50),(68858,45),(68912,9),(68928,37),(68969,28),(69006,1),(69216,30),(69248,41),
   (69291,2),(69296,1),(69314,5),(69328,8),(69370,45),(69424,41),(69488,25),(69552,27),(69600,22),
   (69632,77),(69714,35),(69759,61),(69822,4),(69840,24),(69872,9),(69888,52),(69942,17),
   (69968,38),(70016,95),(70113,19),(70144,17),(70163,46),(70272,6),(70280,0),(70282,3),
   (70287,14),(70303,10),(70320,58),(70384,9),(70400,3),(70405,7),(70415,1),(70419,21),(70442,6),
   (70450,1),(70453,4),(70459,9),(70471,1),(70475,2),(70480,0),(70487,0),(70493,6),(70502,6),
   (70512,4),(70528,9),(70539,0),(70542,0),(70544,37),(70583,9),(70594,0),(70597,0),(70599,3),
   (70604,9),(70615,1),(70625,1),(70656,91),(70749,4),(70784,71),(70864,9),(71040,53),(71096,37),
   (71168,68),(71248,9),(71264,12),(71296,57),(71360,9),(71376,19),(71424,26),(71453,14),
   (71472,22),(71680,59),(71840,82),(71935,7),(71945,0),(71948,7),(71957,1),(71960,29),(71991,1),
   (71995,11),(72016,9),(72096,7),(72106,45),(72154,10),(72192,71),(72272,82),(72368,72),
   (72448,9),(72544,7),(72640,33),(72688,9),(72704,8),(72714,44),(72760,13),(72784,28),(72816,31),
   (72850,21),(72873,13),(72960,6),(72968,1),(72971,43),(73018,0),(73020,1),(73023,8),(73040,9),
   (73056,5),(73063,1),(73066,36),(73104,1),(73107,5),(73120,9),(73136,43),(73184,9),(73440,24),
   (73472,16),(73490,40),(73534,28),(73648,0),(73664,49),(73727,922),(74752,110),(74864,4),
   (74880,195),(77712,98),(77824,1071),(78912,21),(78944,3994),(82944,582),(90368,57),(92160,568),
   (92736,30),(92768,9),(92782,80),(92864,9),(92880,29),(92912,5),(92928,69),(93008,9),(93019,6),
   (93027,20),(93053,18),(93504,57),(93760,90),(93856,24),(93883,24),(93952,74),(94031,56),
   (94095,16),(94176,4),(94192,6),(94208,7381),(101631,31),(101760,114),(110576,3),(110581,6),
   (110589,1),(110592,290),(110898,0),(110928,2),(110933,0),(110948,3),(110960,395),(113664,106),
   (113776,12),(113792,8),(113808,9),(113820,3),(117760,252),(118016,435),(118458,22),(118496,16),
   (118528,45),(118576,22),(118608,115),(118784,245),(119040,38),(119081,73),(119163,111),(119296,69),
   (119488,19),(119520,19),(119552,86),(119648,24),(119808,84),(119894,70),(119966,1),(119970,0),
   (119973,1),(119977,3),(119982,11),(119995,0),(119997,6),(120005,64),(120071,3),(120077,7),(120086,6),
   (120094,27),(120123,3),(120128,4),(120134,0),(120138,6),(120146,339),(120488,291),(120782,701),
   (121499,4),(121505,14),(122624,30),(122661,5),(122880,6),(122888,16),(122907,6),(122915,1),(122918,4),
   (122928,61),(123023,0),(123136,44),(123184,13),(123200,9),(123214,1),(123536,30),(123584,57),(123647,0),
   (124112,41),(124368,42),(124415,0),(124608,30),(124640,21),(124670,1),(124896,6),(124904,3),(124909,1),
   (124912,14),(124928,196),(125127,15),(125184,75),(125264,9),(125278,1),(126065,67),(126209,60),
   (126464,3),(126469,26),(126497,1),(126500,0),(126503,0),(126505,9),(126516,3),(126521,0),(126523,0),
   (126530,0),(126535,0),(126537,0),(126539,0),(126541,2),(126545,1),(126548,0),(126551,0),(126553,0),
   (126555,0),(126557,0),(126559,0),(126561,1),(126564,0),(126567,3),(126572,6),(126580,3),(126585,3),
   (126590,0),(126592,9),(126603,16),(126625,2),(126629,4),(126635,16),(126704,1),(126976,43),(127024,99),
   (127136,14),(127153,14),(127169,14),(127185,36),(127232,173),(127462,28),(127504,43),(127552,8),
   (127568,1),(127584,5),(127744,984),(128732,16),(128752,12),(128768,217),(128992,11),(129008,0),
   (129024,11),(129040,55),(129104,9),(129120,39),(129168,29),(129200,11),(129216,1),(129232,8),
   (129280,343),(129632,13),(129648,12),(129664,10),(129678,56),(129736,0),(129741,15),(129759,11),
   (129775,9),(129792,146),(129940,102),(131072,42719),(173824,4381),(178208,5773),(183984,7472),
   (191472,621),(194560,541),(196608,4938),(201552,8489),(917760,239)]

/-- A letter, mark, number, punctuation mark, symbol, or the plain space. -/
def isPrintable (c : Char) : Bool :=
  c == ' ' || inIntervals graphicIntervals c.toNat

end Text
end Whiteboard
