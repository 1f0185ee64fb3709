import ArrayQuery.Binary.Format

/-! Single and double precision numbers, held as their bit patterns. -/

set_option autoImplicit false
namespace ArrayQuery

structure Single where
  bits : UInt32
  deriving DecidableEq, Repr, Inhabited

structure Double where
  bits : UInt64
  deriving DecidableEq, Repr, Inhabited

namespace Single

def datum (x : Single) : Binary.Datum :=
  Binary.single.datum x.bits.toNat

def ofDatum (d : Binary.Datum) : Single :=
  ⟨UInt32.ofNat (Binary.single.ofDatum d)⟩

def isFinite (x : Single) : Bool :=
  match x.datum with
  | .finite .. => true
  | _ => false

def isNaN (x : Single) : Bool :=
  x.datum == .nan

def zero : Single := ⟨0x00000000⟩
def negativeZero : Single := ⟨0x80000000⟩
def one : Single := ⟨0x3f800000⟩
def nan : Single := ⟨0x7fc00000⟩

/-- Arithmetic rounds each result to the nearest single, ties to even. -/
instance : Add Single := ⟨fun a b => ⟨(Float32.ofBits a.bits + Float32.ofBits b.bits).toBits⟩⟩
instance : Sub Single := ⟨fun a b => ⟨(Float32.ofBits a.bits - Float32.ofBits b.bits).toBits⟩⟩
instance : Mul Single := ⟨fun a b => ⟨(Float32.ofBits a.bits * Float32.ofBits b.bits).toBits⟩⟩
instance : Div Single := ⟨fun a b => ⟨(Float32.ofBits a.bits / Float32.ofBits b.bits).toBits⟩⟩
instance : Neg Single := ⟨fun a => ⟨(-Float32.ofBits a.bits).toBits⟩⟩

def sqrt (x : Single) : Single :=
  ⟨(Float32.ofBits x.bits).sqrt.toBits⟩

/-- Equality of numbers: the two zeros are equal, and a pattern that is no number equals nothing. -/
def sameNumber (a b : Single) : Bool :=
  Float32.ofBits a.bits == Float32.ofBits b.bits

end Single

namespace Double

def datum (x : Double) : Binary.Datum :=
  Binary.double.datum x.bits.toNat

def ofDatum (d : Binary.Datum) : Double :=
  ⟨UInt64.ofNat (Binary.double.ofDatum d)⟩

def isFinite (x : Double) : Bool :=
  match x.datum with
  | .finite .. => true
  | _ => false

def nan : Double := ⟨0x7ff8000000000000⟩

instance : Add Double := ⟨fun a b => ⟨(Float.ofBits a.bits + Float.ofBits b.bits).toBits⟩⟩
instance : Mul Double := ⟨fun a b => ⟨(Float.ofBits a.bits * Float.ofBits b.bits).toBits⟩⟩
instance : Div Double := ⟨fun a b => ⟨(Float.ofBits a.bits / Float.ofBits b.bits).toBits⟩⟩
instance : Neg Double := ⟨fun a => ⟨(-Float.ofBits a.bits).toBits⟩⟩

def sameNumber (a b : Double) : Bool :=
  Float.ofBits a.bits == Float.ofBits b.bits

def ofInt (n : Int) : Double :=
  ofDatum (.finite (decide (n < 0)) n.natAbs 0)

def ofNat (n : Nat) : Double :=
  ofDatum (.finite false n 0)

def toSingle (x : Double) : Single :=
  Single.ofDatum x.datum

/-- The integer part, held within the signed words. -/
def toInt32 (x : Double) : Int32 :=
  Int32.ofInt (x.datum.truncate Int32.minValue.toInt Int32.maxValue.toInt)

def toUInt32 (x : Double) : UInt32 :=
  UInt32.ofNat (x.datum.truncate 0 (UInt32.size - 1)).toNat

end Double

def Single.toDouble (x : Single) : Double :=
  Double.ofDatum x.datum

end ArrayQuery
