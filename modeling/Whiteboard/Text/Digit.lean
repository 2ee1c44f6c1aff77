import Whiteboard.Text.Span

namespace Whiteboard
namespace Text

/-!
Decimal digits of all scripts in Unicode 17.
-/

def digitIntervals : List (Nat × Nat) :=
  [(48,9),(1632,9),(1776,9),(1984,9),(2406,9),(2534,9),(2662,9),(2790,9),(2918,9),(3046,9),(3174,9),
   (3302,9),(3430,9),(3558,9),(3664,9),(3792,9),(3872,9),(4160,9),(4240,9),(6112,9),(6160,9),
   (6470,9),(6608,9),(6784,9),(6800,9),(6992,9),(7088,9),(7232,9),(7248,9),(42528,9),(43216,9),
   (43264,9),(43472,9),(43504,9),(43600,9),(44016,9),(65296,9),(66720,9),(68912,9),(68928,9),
   (69734,9),(69872,9),(69942,9),(70096,9),(70384,9),(70736,9),(70864,9),(71248,9),(71360,9),
   (71376,19),(71472,9),(71904,9),(72016,9),(72688,9),(72784,9),(73040,9),(73120,9),(73184,9),
   (73552,9),(90416,9),(92768,9),(92864,9),(93008,9),(93552,9),(118000,9),(120782,49),(123200,9),
   (123632,9),(124144,9),(124401,9),(125264,9),(130032,9)]

/-- A decimal digit of any script (general category Nd). -/
def isDigit (c : Char) : Bool :=
  inIntervals digitIntervals c.toNat

end Text
end Whiteboard
