import ArrayQuery.Binary.Format

/-! Decimals, and the fewest digits that read back as a given binary number. -/

set_option autoImplicit false
namespace ArrayQuery

structure Decimal where
  coefficient : Nat
  exponent : Int
  deriving DecidableEq, Repr

namespace Decimal

def ratio (d : Decimal) : Nat × Nat :=
  (d.coefficient * Nat.pow 10 d.exponent.toNat, Nat.pow 10 (-d.exponent).toNat)

def digitCount (n : Nat) : Nat :=
  (Nat.toDigits 10 n).length

/-- Every dyadic number is a decimal: halving is multiplying by five and dividing by ten. -/
def ofDyadic (significand : Nat) (exponent : Int) : Decimal :=
  if exponent < 0 then ⟨significand * Nat.pow 5 (-exponent).toNat, exponent⟩
  else ⟨significand * Nat.pow 2 exponent.toNat, 0⟩

/-- The bit pattern of a decimal's magnitude. Decimals far outside the range of the numbers are
settled by their size, so that no power of ten is computed for them. -/
def roundBits (f : Binary.Format) (d : Decimal) : Nat :=
  if d.coefficient = 0 then 0
  else
    let magnitude := digitCount d.coefficient + d.exponent
    if 400 < magnitude then f.infinityBits
    else if magnitude < -400 then 0
    else f.roundBits d.ratio.1 d.ratio.2

def below (exact : Decimal) (k : Nat) : Decimal :=
  ⟨exact.coefficient / Nat.pow 10 k, exact.exponent + k⟩

def above (exact : Decimal) (k : Nat) : Decimal :=
  ⟨exact.coefficient / Nat.pow 10 k + 1, exact.exponent + k⟩

/-- Drops `k` digits of `exact` if one of its two neighbours passes the test, and fewer otherwise.
Where both pass the nearer one is taken, and the upper one of two that are equally near. -/
def dropDigits (reads : Decimal → Bool) (exact : Decimal) : Nat → Decimal
  | 0 => exact
  | k + 1 =>
    let low := exact.below (k + 1)
    let high := exact.above (k + 1)
    let rest := exact.coefficient % Nat.pow 10 (k + 1)
    if reads low && (!reads high || decide (2 * rest < Nat.pow 10 (k + 1))) then low
    else if reads high then high
    else dropDigits reads exact k

/-- The decimal with the fewest digits that rounds to the same pattern as the dyadic number. -/
def shortest (f : Binary.Format) (significand : Nat) (exponent : Int) : Decimal :=
  let exact := ofDyadic significand exponent
  let bits := roundBits f exact
  dropDigits (fun d => roundBits f d == bits) exact (digitCount exact.coefficient - 1)

end Decimal
end ArrayQuery
