import ArrayQuery.Element.Type
import ArrayQuery.Geometry.Matrix

/-! The host types behind the leaves. -/

set_option autoImplicit false
namespace ArrayQuery

abbrev Leaf.Host : Leaf → Type
  | .bool => Bool
  | .i32 => Int32
  | .u32 => UInt32
  | .f32 => Single
  | .f64 => Double
  | .vector2 => Vector2 Single
  | .vector3 => Vector3 Single
  | .vector4 => Vector4 Single
  | .matrix4x4 => Matrix4x4 Single
  | .matrix3x2 => Matrix3x2 Single

end ArrayQuery
