import ArrayQuery.Binary.Number
import ArrayQuery.Decimal.Text
import ArrayQuery.Element.Host

/-! Literal values of element types. -/

set_option autoImplicit false
namespace ArrayQuery

inductive Value where
  | bool (b : Bool)
  | i32 (n : Int32)
  | u32 (n : UInt32)
  | f32 (x : Single)
  | f64 (x : Double)
  | vector2 (v : Vector2 Single)
  | vector3 (v : Vector3 Single)
  | vector4 (v : Vector4 Single)
  | matrix4x4 (m : Matrix4x4 Single)
  | matrix3x2 (m : Matrix3x2 Single)
  | record (type : RecordType) (fields : List Value)

namespace Value

def ofHost : (l : Leaf) → l.Host → Value
  | .bool, b => bool b
  | .i32, n => i32 n
  | .u32, n => u32 n
  | .f32, x => f32 x
  | .f64, x => f64 x
  | .vector2, v => vector2 v
  | .vector3, v => vector3 v
  | .vector4, v => vector4 v
  | .matrix4x4, m => matrix4x4 m
  | .matrix3x2, m => matrix3x2 m

/-- A record value has the type it was made with, whatever its fields hold. -/
def type : Value → ElementType
  | bool _ => .leaf .bool
  | i32 _ => .leaf .i32
  | u32 _ => .leaf .u32
  | f32 _ => .leaf .f32
  | f64 _ => .leaf .f64
  | vector2 _ => .leaf .vector2
  | vector3 _ => .leaf .vector3
  | vector4 _ => .leaf .vector4
  | matrix4x4 _ => .leaf .matrix4x4
  | matrix3x2 _ => .leaf .matrix3x2
  | record r _ => r.type

def spellParts (name : String) (members : List String) (parts : List Single) : String :=
  Text.applied name [Text.labelled name (members.zip (parts.map Single.text))]

mutual
def spell : Value → String
  | bool b => Text.applied "Bool" [if b then "true" else "false"]
  | i32 n => Text.applied "I32" [toString n.toInt]
  | u32 n => Text.applied "U32" [toString n.toNat]
  | f32 x => Text.applied "F32" [x.text]
  | f64 x => Text.applied "F64" [x.text]
  | vector2 v => spellParts "Vector2" ["x", "y"] v.toList
  | vector3 v => spellParts "Vector3" ["x", "y", "z"] v.toList
  | vector4 v => spellParts "Vector4" ["x", "y", "z", "w"] v.toList
  | matrix4x4 m => spellParts "Matrix4x4"
      ["m11", "m12", "m13", "m14", "m21", "m22", "m23", "m24",
       "m31", "m32", "m33", "m34", "m41", "m42", "m43", "m44"] m.toList
  | matrix3x2 m => spellParts "Matrix3x2" ["m11", "m12", "m21", "m22", "m31", "m32"] m.toList
  | record r fields => Text.applied "Record" [r.spell, Text.listed (spellAll fields)]

def spellAll : List Value → List String
  | [] => []
  | v :: rest => v.spell :: spellAll rest
end

def sameNumbers (xs ys : List Single) : Bool :=
  xs.length == ys.length && (xs.zip ys).all fun p => p.1.sameNumber p.2

mutual
/-- Equality in which floating point components count as numbers. -/
def same : Value → Value → Bool
  | bool a, bool b => a == b
  | i32 a, i32 b => a == b
  | u32 a, u32 b => a == b
  | f32 a, f32 b => a.sameNumber b
  | f64 a, f64 b => a.sameNumber b
  | vector2 a, vector2 b => sameNumbers a.toList b.toList
  | vector3 a, vector3 b => sameNumbers a.toList b.toList
  | vector4 a, vector4 b => sameNumbers a.toList b.toList
  | matrix4x4 a, matrix4x4 b => sameNumbers a.toList b.toList
  | matrix3x2 a, matrix3x2 b => sameNumbers a.toList b.toList
  | record r vs, record s ws => r == s && sameAll vs ws
  | _, _ => false

def sameAll : List Value → List Value → Bool
  | [], [] => true
  | v :: vs, w :: ws => same v w && sameAll vs ws
  | _, _ => false
end

end Value
end ArrayQuery
