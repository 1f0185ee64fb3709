import ArrayQuery.Kernel.Records

/-! Types of the kernel language, and the ones that stand for element types. -/

set_option autoImplicit false
namespace ArrayQuery.Kernel

inductive KernelType where
  | bool
  | i32
  | u32
  | f32
  | vector (size : Nat)
  | matrix (columns rows : Nat)
  | struct (name : String)
  deriving DecidableEq, Repr

def KernelType.text : KernelType → String
  | bool => "bool"
  | i32 => "i32"
  | u32 => "u32"
  | f32 => "f32"
  | vector n => "vec" ++ toString n ++ "<f32>"
  | matrix columns rows => "mat" ++ toString columns ++ "x" ++ toString rows ++ "<f32>"
  | struct name => name

/-- The kernel type of a leaf. The rows of a host matrix are the columns of a kernel matrix. -/
def ofLeaf : Leaf → Option KernelType
  | .bool => some .bool
  | .i32 => some .i32
  | .u32 => some .u32
  | .f32 => some .f32
  | .f64 => none
  | .vector2 => some (.vector 2)
  | .vector3 => some (.vector 3)
  | .vector4 => some (.vector 4)
  | .matrix4x4 => some (.matrix 4 4)
  | .matrix3x2 => some (.matrix 3 2)

namespace RecordNames

def typeOf (names : RecordNames) (t : ElementType) : Except ComputeError KernelType :=
  match t with
  | .leaf l =>
    match ofLeaf l with
    | some k => .ok k
    | none => .error (.unsupportedAt .doublePrecision t.spell)
  | .record n fields => (names.require ⟨n, fields⟩).map .struct

def storageOf (names : RecordNames) (t : ElementType) : Except ComputeError KernelType :=
  if t = .bool then .ok .u32 else names.typeOf t

end RecordNames
end ArrayQuery.Kernel
