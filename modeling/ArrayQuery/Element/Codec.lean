import ArrayQuery.Binary.Bytes
import ArrayQuery.Element.Extent
import ArrayQuery.Element.Host

/-! Host values of an element type, and their bytes in host memory. -/

set_option autoImplicit false
namespace ArrayQuery

/-- Values that can stand in a host array: each takes as many bytes as its type asks for. -/
class Element (α : Type) where
  type : ElementType
  encode : α → List UInt8
  decode : List UInt8 → α
  encode_length : ∀ v, (encode v).length = type.hostStride
  stride_pos : 0 < type.hostStride

def Single.bytes (x : Single) : List UInt8 := Binary.toBytes x.bits.toNat 4
def Double.bytes (x : Double) : List UInt8 := Binary.toBytes x.bits.toNat 8

def Single.ofBytes (bytes : List UInt8) : Single := ⟨UInt32.ofNat (Binary.ofBytes bytes)⟩

def Single.at (bytes : List UInt8) (i : Nat) : Single :=
  Single.ofBytes ((bytes.drop (4 * i)).take 4)

namespace Element

instance : Element Bool where
  type := .bool
  encode b := [if b then 1 else 0]
  decode bytes := bytes != [0]
  encode_length _ := rfl
  stride_pos := by decide

instance : Element Int32 where
  type := .i32
  encode n := Binary.toBytes n.toUInt32.toNat 4
  decode bytes := (UInt32.ofNat (Binary.ofBytes bytes)).toInt32
  encode_length n := Binary.length_toBytes _ _
  stride_pos := by decide

instance : Element UInt32 where
  type := .u32
  encode n := Binary.toBytes n.toNat 4
  decode bytes := UInt32.ofNat (Binary.ofBytes bytes)
  encode_length n := Binary.length_toBytes _ _
  stride_pos := by decide

instance : Element Single where
  type := .f32
  encode := Single.bytes
  decode := Single.ofBytes
  encode_length n := Binary.length_toBytes _ _
  stride_pos := by decide

instance : Element Double where
  type := .f64
  encode := Double.bytes
  decode bytes := ⟨UInt64.ofNat (Binary.ofBytes bytes)⟩
  encode_length n := Binary.length_toBytes _ _
  stride_pos := by decide

def packed (xs : List Single) : List UInt8 :=
  xs.flatMap Single.bytes

theorem length_packed (xs : List Single) : (packed xs).length = 4 * xs.length := by
  induction xs with
  | nil => rfl
  | cons x xs ih =>
    have h : (Single.bytes x).length = 4 := Binary.length_toBytes _ _
    rw [packed] at ih
    rw [packed, List.flatMap_cons, List.length_append, h, ih, List.length_cons]
    omega

instance : Element (Vector2 Single) where
  type := .leaf .vector2
  encode v := packed v.toList
  decode bytes := ⟨.at bytes 0, .at bytes 1⟩
  encode_length v := length_packed _
  stride_pos := by decide

instance : Element (Vector3 Single) where
  type := .leaf .vector3
  encode v := packed v.toList
  decode bytes := ⟨.at bytes 0, .at bytes 1, .at bytes 2⟩
  encode_length v := length_packed _
  stride_pos := by decide

def vector4At (bytes : List UInt8) (i : Nat) : Vector4 Single :=
  ⟨.at bytes i, .at bytes (i + 1), .at bytes (i + 2), .at bytes (i + 3)⟩

instance : Element (Vector4 Single) where
  type := .leaf .vector4
  encode v := packed v.toList
  decode bytes := vector4At bytes 0
  encode_length v := length_packed _
  stride_pos := by decide

instance : Element (Matrix4x4 Single) where
  type := .leaf .matrix4x4
  encode m := packed m.toList
  decode bytes := ⟨vector4At bytes 0, vector4At bytes 4, vector4At bytes 8, vector4At bytes 12⟩
  encode_length m := length_packed _
  stride_pos := by decide

instance : Element (Matrix3x2 Single) where
  type := .leaf .matrix3x2
  encode m := packed m.toList
  decode bytes := ⟨⟨.at bytes 0, .at bytes 1⟩, ⟨.at bytes 2, .at bytes 3⟩, ⟨.at bytes 4, .at bytes 5⟩⟩
  encode_length m := length_packed _
  stride_pos := by decide

instance : (l : Leaf) → Element l.Host
  | .bool => inferInstanceAs (Element Bool)
  | .i32 => inferInstanceAs (Element Int32)
  | .u32 => inferInstanceAs (Element UInt32)
  | .f32 => inferInstanceAs (Element Single)
  | .f64 => inferInstanceAs (Element Double)
  | .vector2 => inferInstanceAs (Element (Vector2 Single))
  | .vector3 => inferInstanceAs (Element (Vector3 Single))
  | .vector4 => inferInstanceAs (Element (Vector4 Single))
  | .matrix4x4 => inferInstanceAs (Element (Matrix4x4 Single))
  | .matrix3x2 => inferInstanceAs (Element (Matrix3x2 Single))

theorem type_host (l : Leaf) : type l.Host = .leaf l := by
  cases l <;> rfl

variable {α : Type} [Element α]

def encodeAll (vs : List α) : List UInt8 :=
  vs.flatMap encode

/-- The elements at the start of the bytes; a partial one at the end is left out. -/
def decodeAll (α : Type) [Element α] (bytes : List UInt8) : List α :=
  let stride := (type α).hostStride
  (Binary.chunks stride (bytes.length / stride) bytes).map decode

theorem length_encodeAll (vs : List α) :
    (encodeAll vs).length = vs.length * (type α).hostStride := by
  induction vs with
  | nil => simp [encodeAll]
  | cons v vs ih =>
    rw [encodeAll] at ih
    rw [encodeAll, List.flatMap_cons, List.length_append, encode_length, ih, List.length_cons,
      Nat.succ_mul, Nat.add_comm]

end Element
end ArrayQuery
