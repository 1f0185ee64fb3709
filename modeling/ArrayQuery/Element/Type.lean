import ArrayQuery.Text.Quoted

/-! The types of array elements: leaves, and records of named fields. -/

set_option autoImplicit false
namespace ArrayQuery

/-- The types without fields. Double precision exists on the host only. -/
inductive Leaf where
  | bool
  | i32
  | u32
  | f32
  | f64
  | vector2
  | vector3
  | vector4
  | matrix4x4
  | matrix3x2
  deriving DecidableEq, Repr

namespace Leaf

def all : List Leaf :=
  [bool, i32, u32, f32, f64, vector2, vector3, vector4, matrix4x4, matrix3x2]

def name : Leaf → String
  | bool => "bool"
  | i32 => "i32"
  | u32 => "u32"
  | f32 => "f32"
  | f64 => "f64"
  | vector2 => "Vector2"
  | vector3 => "Vector3"
  | vector4 => "Vector4"
  | matrix4x4 => "Matrix4x4"
  | matrix3x2 => "Matrix3x2"

def constructorName : Leaf → String
  | bool => "Bool"
  | i32 => "I32"
  | u32 => "U32"
  | f32 => "F32"
  | f64 => "F64"
  | l => l.name

def isScalar : Leaf → Bool
  | bool | i32 | u32 | f32 | f64 => true
  | _ => false

def isVector : Leaf → Bool
  | vector2 | vector3 | vector4 => true
  | _ => false

def isMatrix : Leaf → Bool
  | matrix4x4 | matrix3x2 => true
  | _ => false

def components : Leaf → List String
  | vector2 => ["x", "y"]
  | vector3 => ["x", "y", "z"]
  | vector4 => ["x", "y", "z", "w"]
  | _ => []

def shape : Leaf → Nat × Nat
  | matrix4x4 => (4, 4)
  | matrix3x2 => (3, 2)
  | _ => (0, 0)

/-- The row and column, from zero, that a matrix member addresses: `m`, then both digits, which
count from one. -/
def cell? (l : Leaf) (member : String) : Option (Nat × Nat) :=
  match member.toList with
  | ['m', r, c] =>
    let row := r.toNat - '0'.toNat
    let column := c.toNat - '0'.toNat
    if r.isDigit && c.isDigit && decide (1 ≤ row) && decide (1 ≤ column) &&
        decide (row ≤ l.shape.1) && decide (column ≤ l.shape.2) then
      some (row - 1, column - 1)
    else none
  | _ => none

end Leaf

/-- Records are told apart by their name and fields, not by where they were made. -/
inductive ElementType where
  | leaf (l : Leaf)
  | record (name : String) (fields : List (String × ElementType))
  deriving Repr

structure RecordType where
  name : String
  fields : List (String × ElementType)
  deriving Repr

def RecordType.type (r : RecordType) : ElementType :=
  .record r.name r.fields

namespace ElementType

@[match_pattern] abbrev bool : ElementType := .leaf .bool
@[match_pattern] abbrev i32 : ElementType := .leaf .i32
@[match_pattern] abbrev u32 : ElementType := .leaf .u32
@[match_pattern] abbrev f32 : ElementType := .leaf .f32
@[match_pattern] abbrev f64 : ElementType := .leaf .f64
@[match_pattern] abbrev vector3 : ElementType := .leaf .vector3
@[match_pattern] abbrev vector4 : ElementType := .leaf .vector4
@[match_pattern] abbrev matrix4x4 : ElementType := .leaf .matrix4x4

mutual
def decEq : (a b : ElementType) → Decidable (a = b)
  | .leaf a, .leaf b => decidable_of_iff (a = b) (by simp)
  | .leaf _, .record .. => isFalse (by simp)
  | .record .., .leaf _ => isFalse (by simp)
  | .record n fs, .record m gs =>
    match decEqFields fs gs with
    | isTrue h => decidable_of_iff (n = m) (by simp [h])
    | isFalse h => isFalse (by simp [h])

def decEqFields : (fs gs : List (String × ElementType)) → Decidable (fs = gs)
  | [], [] => isTrue rfl
  | [], _ :: _ => isFalse (by simp)
  | _ :: _, [] => isFalse (by simp)
  | (n, t) :: fs, (m, u) :: gs =>
    match decEq t u, decEqFields fs gs with
    | isTrue h, isTrue k => decidable_of_iff (n = m) (by simp [h, k])
    | isFalse h, _ => isFalse (by simp [h])
    | _, isFalse k => isFalse (by simp [k])
end

instance : DecidableEq ElementType := decEq

def name : ElementType → String
  | .leaf l => l.name
  | .record n _ => n

mutual
def spell : ElementType → String
  | .leaf l => l.constructorName
  | .record n fs => Text.applied "Record" [Text.labelled "RecordType"
      [("name", Text.quoted n), ("fields", Text.listed (spellFields fs))]]

def spellFields : List (String × ElementType) → List String
  | [] => []
  | (n, t) :: rest =>
    Text.labelled "RecordField" [("name", Text.quoted n), ("ty", t.spell)] :: spellFields rest
end

def isScalar : ElementType → Bool
  | .leaf l => l.isScalar
  | _ => false

def isVector : ElementType → Bool
  | .leaf l => l.isVector
  | _ => false

def isMatrix : ElementType → Bool
  | .leaf l => l.isMatrix
  | _ => false

def cell? : ElementType → String → Option (Nat × Nat)
  | .leaf l, member => if l.isMatrix then l.cell? member else none
  | .record .., _ => none

/-- The type of a member: vectors have components, matrices cells, records the fields of their
schema, of which the first of a name counts. -/
def member? : ElementType → String → Option ElementType
  | .leaf l, member =>
    if l.isMatrix then (l.cell? member).map fun _ => f32
    else if l.components.contains member then some f32 else none
  | .record _ fields, member => fields.lookup member

end ElementType

instance : DecidableEq RecordType := fun a b =>
  decidable_of_iff (a.name = b.name ∧ a.fields = b.fields) (by cases a; cases b; simp)

def RecordType.spell (r : RecordType) : String :=
  Text.labelled "RecordType"
    [("name", Text.quoted r.name), ("fields", Text.listed (ElementType.spellFields r.fields))]

end ArrayQuery
