import ArrayQuery.Decimal.Numeral
import ArrayQuery.Toml.Item
import ArrayQuery.Toml.Reader

/-! Numbers, dates and truth values. -/

set_option autoImplicit false
namespace ArrayQuery.Toml

open Reader

/-- Digits of a base, with single underscores between them. -/
def digits (base : Nat) : Reader (List Char) := do
  let first ← many1 (isDigitOf base)
  let more ← repeated (do
    let _ ← character (· == '_')
    many1 (isDigitOf base))
  return first ++ more.flatten

/-- A sign, which is true for a minus. -/
def sign : Reader Bool := do
  let c ← optional (character fun c => c == '+' || c == '-')
  return c == some '-'

def plainDigits : Reader (List Char) := do
  let ds ← digits 10
  if 1 < ds.length ∧ ds.head? = some '0' then refuse else return ds

def bounded (n : Int) : Reader Item :=
  if Int64.minValue.toInt ≤ n ∧ n ≤ Int64.maxValue.toInt then return .integer n else refuse

def based (mark : Char) (base : Nat) : Reader Item := do
  text ['0', mark]
  bounded (numeral base (← digits base))

def integer : Reader Item :=
  based 'x' 16 <|> based 'o' 8 <|> based 'b' 2 <|> do
    let negative ← sign
    let n := numeral 10 (← plainDigits)
    bounded (if negative then -n else n)

def power : Reader Int := do
  let _ ← character fun c => c == 'e' || c == 'E'
  let negative ← sign
  let n := numeral 10 (← digits 10)
  return if negative then -n else n

def fraction : Reader (List Char) := do
  text ['.']
  digits 10

/-- A number with a fraction, a power of ten or both. One that is too great is refused. -/
def decimal : Reader Item := do
  let negative ← sign
  let whole ← plainDigits
  let places ← optional fraction
  let exponent ← optional power
  if places.isNone && exponent.isNone then refuse
  let x := Double.ofDecimal negative (.ofDigits whole (places.getD []) (exponent.getD 0))
  if x.datum = .infinite false then refuse else return .float x

def special : Reader Item := do
  let negative ← sign
  (do text "inf".toList
      return .float (.ofDatum (.infinite negative))) <|>
  (do text "nan".toList
      return .float .nan)

def twoDigits (least greatest : Nat) : Reader Nat := do
  let n := numeral 10 (← times 2 Char.isDigit)
  if least ≤ n ∧ n ≤ greatest then return n else refuse

def daysOf (year month : Nat) : Nat :=
  if month = 2 then
    if year % 4 = 0 ∧ (year % 100 ≠ 0 ∨ year % 400 = 0) then 29 else 28
  else if month = 4 ∨ month = 6 ∨ month = 9 ∨ month = 11 then 30
  else 31

def date : Reader Unit := do
  let year := numeral 10 (← times 4 Char.isDigit)
  text ['-']
  let month ← twoDigits 1 12
  text ['-']
  let _ ← twoDigits 1 (daysOf year month)

/-- A time of day; a leap second is second sixty. -/
def time : Reader Unit := do
  let _ ← twoDigits 0 23
  text [':']
  let _ ← twoDigits 0 59
  text [':']
  let _ ← twoDigits 0 60
  let _ ← optional (do
    text ['.']
    many1 Char.isDigit)

def offset : Reader Unit :=
  (do let _ ← character fun c => c == 'Z' || c == 'z') <|>
  (do let _ ← character fun c => c == '+' || c == '-'
      let _ ← twoDigits 0 23
      text [':']
      let _ ← twoDigits 0 59)

/-- A date, a time, or both with an offset if need be. -/
def moment : Reader Item := do
  (do date
      let _ ← optional (do
        let _ ← character fun c => c == 'T' || c == 't' || c == ' '
        time
        optional offset)) <|> time
  return .moment

def boolean : Reader Item :=
  (do text "true".toList
      return .boolean true) <|>
  (do text "false".toList
      return .boolean false)

/-- Dates come first, since their beginning reads as a number, and decimals before integers. -/
def scalar : Reader Item :=
  boolean <|> moment <|> decimal <|> special <|> integer

end ArrayQuery.Toml
