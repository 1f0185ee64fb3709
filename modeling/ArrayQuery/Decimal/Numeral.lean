import ArrayQuery.Binary.Number
import ArrayQuery.Decimal.Shortest

/-! Numerals: the number that a row of digits stands for. -/

set_option autoImplicit false
namespace ArrayQuery

def digitValue? (base : Nat) (c : Char) : Option Nat :=
  let n := c.toNat
  let value :=
    if c.isDigit then n - '0'.toNat
    else if 'a'.toNat ≤ n ∧ n ≤ 'z'.toNat then n - 'a'.toNat + 10
    else if 'A'.toNat ≤ n ∧ n ≤ 'Z'.toNat then n - 'A'.toNat + 10
    else base
  if value < base then some value else none

def isDigitOf (base : Nat) (c : Char) : Bool :=
  (digitValue? base c).isSome

def numeral (base : Nat) (digits : List Char) : Nat :=
  digits.foldl (fun n c => n * base + (digitValue? base c).getD 0) 0

namespace Decimal

def ofDigits (whole fraction : List Char) (power : Int) : Decimal :=
  ⟨numeral 10 (whole ++ fraction), power - fraction.length⟩

end Decimal

def Double.ofDecimal (negative : Bool) (d : Decimal) : Double :=
  let sign := if negative then Binary.double.signBit else 0
  ⟨UInt64.ofNat (sign + d.roundBits Binary.double)⟩

end ArrayQuery
