import ArrayQuery.Binary.Number
import ArrayQuery.Decimal.Shortest

/-! The written form of numbers: positional, or with a power of ten. -/

set_option autoImplicit false
namespace ArrayQuery
namespace Decimal

/-- Which numbers are written without a power of ten, by the power of ten of the first digit. -/
structure Style where
  positional : Int → Bool

/-- Powers of ten appear from `10 ^ 16` on and below `10 ^ (-4)`. -/
def compact : Style := ⟨fun e => decide (-4 ≤ e) && decide (e < 16)⟩

def full : Style := ⟨fun _ => true⟩

/-- Digits with a point after the first `point` of them; a side of the point is never empty. -/
def placePoint (digits : List Char) (point : Int) : List Char :=
  if point ≤ 0 then '0' :: '.' :: (List.replicate (-point).toNat '0' ++ digits)
  else
    let n := point.toNat
    if digits.length ≤ n then digits ++ List.replicate (n - digits.length) '0' ++ ['.', '0']
    else digits.take n ++ '.' :: digits.drop n

def withPower (digits : List Char) (power : Int) : List Char :=
  digits.take 1 ++ (if digits.length ≤ 1 then [] else '.' :: digits.drop 1) ++
    'e' :: (toString power).toList

def write (style : Style) (d : Decimal) : String :=
  let digits := Nat.toDigits 10 d.coefficient
  let power : Int := digits.length + d.exponent - 1
  let significant := (digits.reverse.dropWhile (· == '0')).reverse
  String.ofList <|
    if style.positional power then placePoint significant (power + 1)
    else withPower significant power

def writeDatum (style : Style) (f : Binary.Format) : Binary.Datum → String
  | .nan => "NaN"
  | .infinite negative => if negative then "-inf" else "inf"
  | .finite negative m e =>
    (if negative then "-" else "") ++
      if m = 0 then "0.0" else write style (shortest f m e)

end Decimal

def Single.text (x : Single) : String :=
  Decimal.writeDatum Decimal.compact Binary.single x.datum

def Double.text (x : Double) : String :=
  Decimal.writeDatum Decimal.compact Binary.double x.datum

def Double.fullText (x : Double) : String :=
  Decimal.writeDatum Decimal.full Binary.double x.datum

end ArrayQuery
