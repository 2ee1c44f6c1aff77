import Whiteboard.Compile
import Whiteboard.Digest.Sha256

namespace Whiteboard
namespace Cache

/-!
The key of a compilation: a hash of everything that its text depends on.
-/

def keyParts (version : String) (o : Options) (source : String) : List String :=
  [version, o.layout.dialect.name, if o.layout.standalone then "true" else "false",
   toString o.layout.width, Text.joinWith "," o.rules.starters,
   Text.joinWith "," o.rules.indicators, toString o.rules.lookahead, source]

/-- The bytes that are hashed: each part followed by a zero byte. -/
def keyMaterial (version : String) (o : Options) (source : String) : List UInt8 :=
  (keyParts version o source).flatMap fun part => part.toUTF8.toList ++ [0]

def key (version : String) (o : Options) (source : String) : String :=
  Sha256.hex (Sha256.hash (keyMaterial version o source))

end Cache
end Whiteboard
