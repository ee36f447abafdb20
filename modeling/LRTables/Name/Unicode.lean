import LRTables.Name
import LRTables.Name.ContinueRanges
import LRTables.Name.StartRanges

/-!
# The alphabet of Unicode

Identifiers as the Unicode standard has them.
-/

namespace LRTables

def Name.inRanges (ranges : List (Nat × Nat)) (point : Nat) : Bool :=
  ranges.any fun range =>
    decide (range.1 ≤ point) && decide (point ≤ range.2)

instance Alphabet.unicode : Alphabet where
  begins character := Name.inRanges Name.startRanges character.toNat
  continues character :=
    Name.inRanges Name.startRanges character.toNat ||
      Name.inRanges Name.continueRanges character.toNat

end LRTables
