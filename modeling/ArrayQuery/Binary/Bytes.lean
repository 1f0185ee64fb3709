/-! Naturals as bytes, the least significant first. -/

set_option autoImplicit false
namespace ArrayQuery.Binary

def toBytes (n : Nat) : Nat → List UInt8
  | 0 => []
  | k + 1 => UInt8.ofNat n :: toBytes (n / 256) k

def ofBytes : List UInt8 → Nat
  | [] => 0
  | b :: rest => b.toNat + 256 * ofBytes rest

theorem length_toBytes (n k : Nat) : (toBytes n k).length = k := by
  induction k generalizing n with
  | zero => rfl
  | succ k ih => simp [toBytes, ih]

def chunks (n : Nat) : Nat → List UInt8 → List (List UInt8)
  | 0, _ => []
  | k + 1, bytes => bytes.take n :: chunks n k (bytes.drop n)

theorem length_chunks (n k : Nat) (bytes : List UInt8) : (chunks n k bytes).length = k := by
  induction k generalizing bytes with
  | zero => rfl
  | succ k ih => simp [chunks, ih]

end ArrayQuery.Binary
