import ArrayQuery.Geometry.Vector

/-! Matrices by rows. A point is a row vector, so a product applies its left factor first. -/

set_option autoImplicit false
namespace ArrayQuery

structure Matrix4x4 (α : Type) where
  row1 : Vector4 α
  row2 : Vector4 α
  row3 : Vector4 α
  row4 : Vector4 α
  deriving DecidableEq, Repr, Inhabited

structure Matrix3x2 (α : Type) where
  row1 : Vector2 α
  row2 : Vector2 α
  row3 : Vector2 α
  deriving DecidableEq, Repr, Inhabited

variable {α β γ : Type}

namespace Matrix4x4

def rows (m : Matrix4x4 α) : List (Vector4 α) := [m.row1, m.row2, m.row3, m.row4]

def toList (m : Matrix4x4 α) : List α := m.rows.flatMap Vector4.toList

def ofList? (cells : List α) : Option (Matrix4x4 α) := do
  let row (i : Nat) : List α := (cells.drop (4 * i)).take 4
  return ⟨← Vector4.ofList? (row 0), ← Vector4.ofList? (row 1), ← Vector4.ofList? (row 2),
    ← Vector4.ofList? (cells.drop 12)⟩

def mapRows (f : Vector4 α → Vector4 β) (m : Matrix4x4 α) : Matrix4x4 β :=
  ⟨f m.row1, f m.row2, f m.row3, f m.row4⟩

def zipRows (f : Vector4 α → Vector4 β → Vector4 γ) (m : Matrix4x4 α) (n : Matrix4x4 β) :
    Matrix4x4 γ :=
  ⟨f m.row1 n.row1, f m.row2 n.row2, f m.row3 n.row3, f m.row4 n.row4⟩

instance [Add α] : Add (Matrix4x4 α) := ⟨zipRows (· + ·)⟩
instance [Sub α] : Sub (Matrix4x4 α) := ⟨zipRows (· - ·)⟩
instance [Neg α] : Neg (Matrix4x4 α) := ⟨mapRows (- ·)⟩

def scale [Mul α] (m : Matrix4x4 α) (s : α) : Matrix4x4 α := m.mapRows (·.scale s)

/-- A row vector times a matrix; each component is summed from `start`, in the order of the rows. -/
def rowTimes [Add α] [Mul α] (start : α) (v : Vector4 α) (m : Matrix4x4 α) : Vector4 α :=
  let column (f : Vector4 α → α) : α :=
    start + v.x * f m.row1 + v.y * f m.row2 + v.z * f m.row3 + v.w * f m.row4
  ⟨column (·.x), column (·.y), column (·.z), column (·.w)⟩

def product [Add α] [Mul α] (start : α) (m n : Matrix4x4 α) : Matrix4x4 α :=
  m.mapRows fun row => rowTimes start row n

/-- The sum of no singles is the negative zero, which changes nothing that is added to it. -/
instance : Mul (Matrix4x4 Single) := ⟨product Single.negativeZero⟩

def constant (a : α) : Matrix4x4 α :=
  let row : Vector4 α := ⟨a, a, a, a⟩
  ⟨row, row, row, row⟩

def identity (zero one : α) : Matrix4x4 α :=
  ⟨⟨one, zero, zero, zero⟩, ⟨zero, one, zero, zero⟩,
   ⟨zero, zero, one, zero⟩, ⟨zero, zero, zero, one⟩⟩

def uniformScale (zero one s : α) : Matrix4x4 α :=
  ⟨⟨s, zero, zero, zero⟩, ⟨zero, s, zero, zero⟩, ⟨zero, zero, s, zero⟩, ⟨zero, zero, zero, one⟩⟩

def displacement (zero one x y z : α) : Matrix4x4 α :=
  ⟨⟨one, zero, zero, zero⟩, ⟨zero, one, zero, zero⟩, ⟨zero, zero, one, zero⟩, ⟨x, y, z, one⟩⟩

end Matrix4x4

namespace Matrix3x2

def rows (m : Matrix3x2 α) : List (Vector2 α) := [m.row1, m.row2, m.row3]

def toList (m : Matrix3x2 α) : List α := m.rows.flatMap Vector2.toList

def ofList? (cells : List α) : Option (Matrix3x2 α) := do
  return ⟨← Vector2.ofList? (cells.take 2), ← Vector2.ofList? ((cells.drop 2).take 2),
    ← Vector2.ofList? (cells.drop 4)⟩

def mapRows (f : Vector2 α → Vector2 β) (m : Matrix3x2 α) : Matrix3x2 β :=
  ⟨f m.row1, f m.row2, f m.row3⟩

def zipRows (f : Vector2 α → Vector2 β → Vector2 γ) (m : Matrix3x2 α) (n : Matrix3x2 β) :
    Matrix3x2 γ :=
  ⟨f m.row1 n.row1, f m.row2 n.row2, f m.row3 n.row3⟩

instance [Add α] : Add (Matrix3x2 α) := ⟨zipRows (· + ·)⟩
instance [Sub α] : Sub (Matrix3x2 α) := ⟨zipRows (· - ·)⟩
instance [Neg α] : Neg (Matrix3x2 α) := ⟨mapRows (- ·)⟩

def scale [Mul α] (m : Matrix3x2 α) (s : α) : Matrix3x2 α := m.mapRows (·.scale s)

def constant (a : α) : Matrix3x2 α :=
  ⟨⟨a, a⟩, ⟨a, a⟩, ⟨a, a⟩⟩

def identity (zero one : α) : Matrix3x2 α :=
  ⟨⟨one, zero⟩, ⟨zero, one⟩, ⟨zero, zero⟩⟩

end Matrix3x2
end ArrayQuery
