import ArrayQuery.Proofs.Decimals
import ArrayQuery.Proofs.TypedBodies
import Mathlib.LinearAlgebra.Matrix.Notation

/-! Exact arithmetic of the host on numbers, vectors and matrices, with rational numbers in place of
singles. Matrices are held by rows, and a vector in front of a matrix is a row. -/

set_option autoImplicit false
namespace ArrayQuery

def Single.value (x : Single) : ℚ :=
  x.rational?.getD 0

inductive Quantity where
  | scalar (a : ℚ)
  | vector2 (v : Vector2 ℚ)
  | vector3 (v : Vector3 ℚ)
  | vector4 (v : Vector4 ℚ)
  | matrix4x4 (m : Matrix4x4 ℚ)
  | matrix3x2 (m : Matrix3x2 ℚ)
  deriving DecidableEq

/-- The members of a vector or a matrix, those of a matrix row by row; rows and columns count from
one. -/
def Leaf.members (l : Leaf) : List String :=
  if l.isMatrix then
    (List.range l.shape.1).flatMap fun i => (List.range l.shape.2).map fun j =>
      "m" ++ toString (i + 1) ++ toString (j + 1)
  else l.components

namespace Quantity

def leaf : Quantity → Leaf
  | scalar _ => .f32
  | vector2 _ => .vector2
  | vector3 _ => .vector3
  | vector4 _ => .vector4
  | matrix4x4 _ => .matrix4x4
  | matrix3x2 _ => .matrix3x2

def type (q : Quantity) : ElementType :=
  .leaf q.leaf

def numbers : Quantity → List ℚ
  | scalar a => [a]
  | vector2 v => v.toList
  | vector3 v => v.toList
  | vector4 v => v.toList
  | matrix4x4 m => m.toList
  | matrix3x2 m => m.toList

def add? : Quantity → Quantity → Option Quantity
  | scalar a, scalar b => some (scalar (a + b))
  | vector2 v, vector2 w => some (vector2 (v + w))
  | vector3 v, vector3 w => some (vector3 (v + w))
  | vector4 v, vector4 w => some (vector4 (v + w))
  | matrix4x4 m, matrix4x4 n => some (matrix4x4 (m + n))
  | matrix3x2 m, matrix3x2 n => some (matrix3x2 (m + n))
  | _, _ => none

def sub? : Quantity → Quantity → Option Quantity
  | scalar a, scalar b => some (scalar (a - b))
  | vector2 v, vector2 w => some (vector2 (v - w))
  | vector3 v, vector3 w => some (vector3 (v - w))
  | vector4 v, vector4 w => some (vector4 (v - w))
  | matrix4x4 m, matrix4x4 n => some (matrix4x4 (m - n))
  | matrix3x2 m, matrix3x2 n => some (matrix3x2 (m - n))
  | _, _ => none

def scale (s : ℚ) : Quantity → Quantity
  | scalar a => scalar (a * s)
  | vector2 v => vector2 (v.scale s)
  | vector3 v => vector3 (v.scale s)
  | vector4 v => vector4 (v.scale s)
  | matrix4x4 m => matrix4x4 (m.scale s)
  | matrix3x2 m => matrix3x2 (m.scale s)

/-- A scalar on either side scales; vectors are multiplied component by component; a vector goes
through a matrix as a row. -/
def mul? : Quantity → Quantity → Option Quantity
  | q, scalar s => some (q.scale s)
  | scalar s, q => some (q.scale s)
  | vector2 v, vector2 w => some (vector2 (v * w))
  | vector3 v, vector3 w => some (vector3 (v * w))
  | vector4 v, vector4 w => some (vector4 (v * w))
  | matrix4x4 m, matrix4x4 n => some (matrix4x4 (m.product 0 n))
  | vector4 v, matrix4x4 m => some (vector4 (Matrix4x4.rowTimes 0 v m))
  | _, _ => none

def operate? : BinaryOp → Quantity → Quantity → Option Quantity
  | .add, p, q => p.add? q
  | .sub, p, q => p.sub? q
  | .mul, p, q => p.mul? q
  | _, _, _ => none

def neg : Quantity → Quantity
  | scalar a => scalar (-a)
  | vector2 v => vector2 (-v)
  | vector3 v => vector3 (-v)
  | vector4 v => vector4 (-v)
  | matrix4x4 m => matrix4x4 (-m)
  | matrix3x2 m => matrix3x2 (-m)

def member? (q : Quantity) (name : String) : Option Quantity :=
  ((q.leaf.members.zip q.numbers).lookup name).map scalar

theorem leaf_neg (q : Quantity) : q.neg.leaf = q.leaf := by
  cases q <;> rfl

end Quantity

namespace Value

def singles : Value → List Single
  | f32 x => [x]
  | vector2 v => v.toList
  | vector3 v => v.toList
  | vector4 v => v.toList
  | matrix4x4 m => m.toList
  | matrix3x2 m => m.toList
  | _ => []

def packed? : Value → Option Quantity
  | f32 x => some (.scalar x.value)
  | vector2 v => some (.vector2 (v.map Single.value))
  | vector3 v => some (.vector3 (v.map Single.value))
  | vector4 v => some (.vector4 (v.map Single.value))
  | matrix4x4 m => some (.matrix4x4 (m.mapRows (·.map Single.value)))
  | matrix3x2 m => some (.matrix3x2 (m.mapRows (·.map Single.value)))
  | _ => none

def quantity? (v : Value) : Option Quantity :=
  if v.singles.all Single.isFinite then v.packed? else none

theorem packed?_numbers {v : Value} {q : Quantity} (found : v.packed? = some q) :
    q.type = v.type ∧ q.numbers = v.singles.map Single.value := by
  cases v with
  | bool b => exact nomatch found
  | i32 n => exact nomatch found
  | u32 n => exact nomatch found
  | f64 x => exact nomatch found
  | record r fields => exact nomatch found
  | _ =>
    obtain rfl := Option.some.inj found
    exact ⟨rfl, rfl⟩

end Value

/-- Numbers in single precision, and vectors and matrices of them. -/
def ElementType.isGeometric (t : ElementType) : Bool :=
  t == .f32 || t.isVector || t.isMatrix

namespace Expr

def quantity? (bindings : List (String × Quantity)) : Expr → Option Quantity
  | constant v => v.quantity?
  | parameter p => bindings.lookup p.name
  | binary op l r _ => do (← l.quantity? bindings).operate? op (← r.quantity? bindings)
  | negate e _ => (e.quantity? bindings).map .neg
  | member e name _ => do (← e.quantity? bindings).member? name
  | _ => none

/-- Bodies over numbers, vectors and matrices. -/
def IsGeometric : Expr → Prop
  | constant v => v.type.isGeometric = true
  | parameter p => p.type.isGeometric = true
  | binary op l r _ => (op = .add ∨ op = .sub ∨ op = .mul) ∧ l.IsGeometric ∧ r.IsGeometric
  | negate e _ | member e _ _ => e.IsGeometric
  | _ => False

end Expr
end ArrayQuery
