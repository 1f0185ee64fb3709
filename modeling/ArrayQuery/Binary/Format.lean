/-! Binary interchange formats: what a bit pattern stands for, and the bit pattern nearest to a ratio. -/

set_option autoImplicit false
namespace ArrayQuery.Binary

/-- The quotient rounded to the nearest integer; a tie goes to the even one. -/
def roundHalfEven (num den : Nat) : Nat :=
  let q := num / den
  let r := num % den
  if 2 * r < den then q else if den < 2 * r then q + 1 else q + q % 2

def floorLog2 (num den : Nat) : Int :=
  let k : Int := (num.log2 : Int) - (den.log2 : Int)
  if den * Nat.pow 2 k.toNat ≤ num * Nat.pow 2 (-k).toNat then k else k - 1

/-- Widths in bits; a sign bit stands before the exponent, the exponent before the fraction. -/
structure Format where
  exponentBits : Nat
  fractionBits : Nat
  deriving DecidableEq, Repr

def single : Format := ⟨8, 23⟩
def double : Format := ⟨11, 52⟩

/-- What a bit pattern stands for; a finite one stands for `± significand * 2 ^ exponent`. -/
inductive Datum where
  | nan
  | infinite (negative : Bool)
  | finite (negative : Bool) (significand : Nat) (exponent : Int)
  deriving DecidableEq, Repr

namespace Format

def leastExponent (f : Format) : Int :=
  2 - (Nat.pow 2 (f.exponentBits - 1) : Nat) - f.fractionBits

/-- The pattern of positive infinity: every finite magnitude is a smaller pattern. -/
def infinityBits (f : Format) : Nat :=
  (Nat.pow 2 f.exponentBits - 1) * Nat.pow 2 f.fractionBits

def signBit (f : Format) : Nat :=
  Nat.pow 2 (f.exponentBits + f.fractionBits)

def datum (f : Format) (bits : Nat) : Datum :=
  let negative := decide (bits / f.signBit % 2 = 1)
  let field := bits / Nat.pow 2 f.fractionBits % Nat.pow 2 f.exponentBits
  let fraction := bits % Nat.pow 2 f.fractionBits
  if field = Nat.pow 2 f.exponentBits - 1 then
    if fraction = 0 then .infinite negative else .nan
  else if field = 0 then
    .finite negative fraction f.leastExponent
  else
    .finite negative (Nat.pow 2 f.fractionBits + fraction) (f.leastExponent + (field - 1 : Nat))

/-- The magnitude pattern nearest to `num / den`; a tie goes to the even pattern, and what lies
beyond the finite numbers is infinite. Adding the exponent's offset to the significand sets the
exponent field, since a normal significand carries its leading bit into it. -/
def roundBits (f : Format) (num den : Nat) : Nat :=
  if num = 0 then 0 else
  let e := max (floorLog2 num den - f.fractionBits) f.leastExponent
  let m := roundHalfEven (num * Nat.pow 2 (-e).toNat) (den * Nat.pow 2 e.toNat)
  min ((e - f.leastExponent).toNat * Nat.pow 2 f.fractionBits + m) f.infinityBits

def ofRatio (f : Format) (negative : Bool) (num den : Nat) : Nat :=
  (if negative then f.signBit else 0) + f.roundBits num den

def infinite (f : Format) (negative : Bool) : Nat :=
  (if negative then f.signBit else 0) + f.infinityBits

def nanBits (f : Format) : Nat :=
  f.infinityBits + Nat.pow 2 (f.fractionBits - 1)

def ofDatum (f : Format) : Datum → Nat
  | .nan => f.nanBits
  | .infinite negative => f.infinite negative
  | .finite negative m e => f.ofRatio negative (m * Nat.pow 2 e.toNat) (Nat.pow 2 (-e).toNat)

end Format

/-- The integer next to a datum on the way to zero, held within bounds; no number counts as zero. -/
def Datum.truncate (low high : Int) : Datum → Int
  | .nan => 0
  | .infinite negative => if negative then low else high
  | .finite negative m e =>
    let magnitude : Nat := m * Nat.pow 2 e.toNat / Nat.pow 2 (-e).toNat
    let value : Int := if negative then -magnitude else magnitude
    max low (min value high)

end ArrayQuery.Binary
