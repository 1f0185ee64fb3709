import ArrayQuery.Element.Value

/-! Host arithmetic on the values of vector and matrix types; other kinds of values have none. -/

set_option autoImplicit false
namespace ArrayQuery.Value

def add? : Value → Value → Option Value
  | vector2 v, vector2 w => some (vector2 (v + w))
  | vector3 v, vector3 w => some (vector3 (v + w))
  | vector4 v, vector4 w => some (vector4 (v + w))
  | matrix4x4 m, matrix4x4 n => some (matrix4x4 (m + n))
  | matrix3x2 m, matrix3x2 n => some (matrix3x2 (m + n))
  | _, _ => none

def sub? : Value → Value → Option Value
  | vector2 v, vector2 w => some (vector2 (v - w))
  | vector3 v, vector3 w => some (vector3 (v - w))
  | vector4 v, vector4 w => some (vector4 (v - w))
  | matrix4x4 m, matrix4x4 n => some (matrix4x4 (m - n))
  | matrix3x2 m, matrix3x2 n => some (matrix3x2 (m - n))
  | _, _ => none

/-- A scalar on the right scales; vectors are multiplied component by component. -/
def mul? : Value → Value → Option Value
  | vector2 v, vector2 w => some (vector2 (v * w))
  | vector3 v, vector3 w => some (vector3 (v * w))
  | vector4 v, vector4 w => some (vector4 (v * w))
  | matrix4x4 m, matrix4x4 n => some (matrix4x4 (m * n))
  | vector2 v, f32 s => some (vector2 (v.scale s))
  | vector3 v, f32 s => some (vector3 (v.scale s))
  | vector4 v, f32 s => some (vector4 (v.scale s))
  | matrix4x4 m, f32 s => some (matrix4x4 (m.scale s))
  | matrix3x2 m, f32 s => some (matrix3x2 (m.scale s))
  | _, _ => none

def div? : Value → Value → Option Value
  | vector2 v, f32 s => some (vector2 (v.shrink s))
  | vector3 v, f32 s => some (vector3 (v.shrink s))
  | vector4 v, f32 s => some (vector4 (v.shrink s))
  | _, _ => none

def neg? : Value → Option Value
  | vector2 v => some (vector2 (-v))
  | vector3 v => some (vector3 (-v))
  | vector4 v => some (vector4 (-v))
  | matrix4x4 m => some (matrix4x4 (-m))
  | matrix3x2 m => some (matrix3x2 (-m))
  | _ => none

def dot? : Value → Value → Option Value
  | vector2 v, vector2 w => some (f32 (v.dot w))
  | vector3 v, vector3 w => some (f32 (v.dot w))
  | vector4 v, vector4 w => some (f32 (v.dot w))
  | _, _ => none

def length? : Value → Option Value
  | vector2 v => some (f32 v.length)
  | vector3 v => some (f32 v.length)
  | vector4 v => some (f32 v.length)
  | _ => none

def cross? : Value → Value → Option Value
  | vector3 v, vector3 w => some (vector3 (v.cross w))
  | _, _ => none

def distance? : Value → Value → Option Value
  | vector3 v, vector3 w => some (f32 (v.distance w))
  | _, _ => none

end ArrayQuery.Value
