import Whiteboard.Text.Span

namespace Whiteboard
namespace Text

/-!
Punctuation marks of all scripts in Unicode 17.
-/

def punctuationIntervals : List (Nat × Nat) :=
  [(33,2),(37,5),(44,3),(58,1),(63,1),(91,2),(95,0),(123,0),(125,0),(161,0),(167,0),(171,0),
   (182,1),(187,0),(191,0),(894,0),(903,0),(1370,5),(1417,1),(1470,0),(1472,0),(1475,0),(1478,0),
   (1523,1),(1545,1),(1548,1),(1563,0),(1565,2),(1642,3),(1748,0),(1792,13),(2039,2),(2096,14),(2142,0),
   (2404,1),(2416,0),(2557,0),(2678,0),(2800,0),(3191,0),(3204,0),(3572,0),(3663,0),(3674,1),(3844,14),
   (3860,0),(3898,3),(3973,0),(4048,4),(4057,1),(4170,5),(4347,0),(4960,8),(5120,0),(5742,0),
   (5787,1),(5867,2),(5941,1),(6100,2),(6104,2),(6144,10),(6468,1),(6686,1),(6816,6),(6824,5),
   (6990,1),(7002,6),(7037,2),(7164,3),(7227,4),(7294,1),(7360,7),(7379,0),(8208,23),(8240,19),
   (8261,12),(8275,11),(8317,1),(8333,1),(8968,3),(9001,1),(10088,13),(10181,1),(10214,9),
   (10627,21),(10712,3),(10748,1),(11513,3),(11518,1),(11632,0),(11776,46),(11824,31),(11858,11),
   (12289,2),(12296,9),(12308,11),(12336,0),(12349,0),(12448,0),(12539,0),(42238,1),(42509,2),(42611,0),
   (42622,0),(42738,5),(43124,3),(43214,1),(43256,2),(43260,0),(43310,1),(43359,0),(43457,12),(43486,1),
   (43612,3),(43742,1),(43760,1),(44011,0),(64830,1),(65040,9),(65072,34),(65108,13),(65123,0),(65128,0),
   (65130,1),(65281,2),(65285,5),(65292,3),(65306,1),(65311,1),(65339,2),(65343,0),(65371,0),(65373,0),
   (65375,6),(65792,2),(66463,0),(66512,0),(66927,0),(67671,0),(67871,0),(67903,0),(68176,8),
   (68223,0),(68336,6),(68409,6),(68505,3),(68974,0),(69293,0),(69328,0),(69461,4),(69510,3),
   (69703,6),(69819,1),(69822,3),(69952,3),(70004,1),(70085,3),(70093,0),(70107,0),(70109,2),
   (70200,5),(70313,0),(70612,1),(70615,1),(70731,4),(70746,1),(70749,0),(70854,0),(71105,22),
   (71233,2),(71264,12),(71353,0),(71484,2),(71739,0),(72004,2),(72162,0),(72255,7),(72346,2),
   (72350,4),(72448,9),(72673,0),(72769,4),(72816,1),(73463,1),(73539,12),(73727,0),(74864,4),
   (77809,1),(92782,1),(92917,0),(92983,4),(92996,0),(93549,2),(93847,3),(94178,0),(113823,0),
   (121479,4),(124415,0),(125278,1)]

/-- A punctuation mark of any script (general category P). -/
def isPunctuation (c : Char) : Bool :=
  inIntervals punctuationIntervals c.toNat

end Text
end Whiteboard
