import ArrayQuery.Element.Type

/-! Sizes and alignments of element types on the host and on the device. -/

set_option autoImplicit false
namespace ArrayQuery

/-- The least multiple of the alignment that is not below the value; alignment zero asks nothing. -/
def alignUp (value alignment : Nat) : Nat :=
  if alignment = 0 then value
  else if value % alignment = 0 then value
  else value + (alignment - value % alignment)

/-- The granularity of device storage, in bytes. -/
def deviceWord : Nat := 4

inductive Side where
  | host
  | device
  deriving DecidableEq, Repr

structure Extent where
  size : Nat
  align : Nat
  deriving DecidableEq, Repr

def Extent.push (sofar member : Extent) : Extent :=
  ⟨alignUp sofar.size member.align + member.size, max sofar.align member.align⟩

/-- A record ends at a multiple of its greatest member alignment. -/
def Extent.close (e : Extent) : Extent :=
  ⟨alignUp e.size e.align, e.align⟩

/-- On the host a leaf is its packed numbers, with one byte for a truth value. On the device truth
values take a word, and vectors and matrix columns have alignments of their own. -/
def Leaf.extent : Side → Leaf → Extent
  | .host, .bool => ⟨1, 1⟩
  | .host, .i32 | .host, .u32 | .host, .f32 => ⟨4, 4⟩
  | .host, .f64 => ⟨8, 8⟩
  | .host, .vector2 => ⟨8, 4⟩
  | .host, .vector3 => ⟨12, 4⟩
  | .host, .vector4 => ⟨16, 4⟩
  | .host, .matrix4x4 => ⟨64, 4⟩
  | .host, .matrix3x2 => ⟨24, 4⟩
  | .device, .bool => ⟨4, 4⟩
  | .device, .i32 | .device, .u32 | .device, .f32 => ⟨4, 4⟩
  | .device, .f64 => ⟨8, 8⟩
  | .device, .vector2 => ⟨8, 8⟩
  | .device, .vector3 => ⟨12, 16⟩
  | .device, .vector4 => ⟨16, 16⟩
  | .device, .matrix4x4 => ⟨64, 16⟩
  | .device, .matrix3x2 => ⟨24, 8⟩

namespace ElementType

mutual
def extent (side : Side) : ElementType → Extent
  | .leaf l => l.extent side
  | .record _ fields => (extentFrom side ⟨0, 1⟩ fields).close

def extentFrom (side : Side) (sofar : Extent) : List (String × ElementType) → Extent
  | [] => sofar
  | (_, t) :: rest => extentFrom side (sofar.push (t.extent side)) rest
end

def hostStride (t : ElementType) : Nat :=
  (t.extent .host).size

/-- The distance of neighbouring elements in device storage: for leaves the host size, rounded up
to a power of two below sixteen bytes and to whole words, for records the size of the struct. -/
def deviceStride : ElementType → Nat
  | .leaf l =>
    let host := (l.extent .host).size
    alignUp (if host < 16 then host.nextPowerOfTwo else host) deviceWord
  | t@(.record ..) => (t.extent .device).size

end ElementType
end ArrayQuery
