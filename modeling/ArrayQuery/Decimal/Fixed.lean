import ArrayQuery.Binary.Number

/-! Numbers with a fixed count of decimal places. -/

set_option autoImplicit false
namespace ArrayQuery.Decimal

def placeUnits (places units : Nat) : String :=
  let digits := Nat.toDigits 10 units
  let padded := List.replicate (places + 1 - digits.length) '0' ++ digits
  let whole := padded.length - places
  String.ofList (padded.take whole ++ '.' :: padded.drop whole)

/-- The nearest number with so many places; a half goes to the even neighbour. -/
def fixedDatum (places : Nat) : Binary.Datum → String
  | .nan => "NaN"
  | .infinite negative => if negative then "-inf" else "inf"
  | .finite negative m e =>
    let units := Binary.roundHalfEven (m * Nat.pow 2 e.toNat * Nat.pow 10 places) (Nat.pow 2 (-e).toNat)
    (if negative then "-" else "") ++ placeUnits places units

def padLeft (width : Nat) (s : String) : String :=
  String.ofList (List.replicate (width - s.length) ' ') ++ s

end ArrayQuery.Decimal

namespace ArrayQuery

def Double.fixed (places : Nat) (x : Double) : String :=
  Decimal.fixedDatum places x.datum

end ArrayQuery
