import ArrayQuery.Binary.Number

/-! Vectors of two to four components, over any component type. -/

set_option autoImplicit false
namespace ArrayQuery

structure Vector2 (α : Type) where
  x : α
  y : α
  deriving DecidableEq, Repr, Inhabited

structure Vector3 (α : Type) where
  x : α
  y : α
  z : α
  deriving DecidableEq, Repr, Inhabited

structure Vector4 (α : Type) where
  x : α
  y : α
  z : α
  w : α
  deriving DecidableEq, Repr, Inhabited

variable {α β γ : Type}

namespace Vector2

def toList (v : Vector2 α) : List α := [v.x, v.y]

def ofList? : List α → Option (Vector2 α)
  | [x, y] => some ⟨x, y⟩
  | _ => none

def map (f : α → β) (v : Vector2 α) : Vector2 β := ⟨f v.x, f v.y⟩

def zipWith (f : α → β → γ) (v : Vector2 α) (w : Vector2 β) : Vector2 γ :=
  ⟨f v.x w.x, f v.y w.y⟩

instance [Add α] : Add (Vector2 α) := ⟨zipWith (· + ·)⟩
instance [Sub α] : Sub (Vector2 α) := ⟨zipWith (· - ·)⟩
instance [Mul α] : Mul (Vector2 α) := ⟨zipWith (· * ·)⟩
instance [Neg α] : Neg (Vector2 α) := ⟨map (- ·)⟩

def scale [Mul α] (v : Vector2 α) (s : α) : Vector2 α := v.map (· * s)
def shrink [Div α] (v : Vector2 α) (s : α) : Vector2 α := v.map (· / s)

def dot [Add α] [Mul α] (v w : Vector2 α) : α := v.x * w.x + v.y * w.y

end Vector2

namespace Vector3

def toList (v : Vector3 α) : List α := [v.x, v.y, v.z]

def ofList? : List α → Option (Vector3 α)
  | [x, y, z] => some ⟨x, y, z⟩
  | _ => none

def map (f : α → β) (v : Vector3 α) : Vector3 β := ⟨f v.x, f v.y, f v.z⟩

def zipWith (f : α → β → γ) (v : Vector3 α) (w : Vector3 β) : Vector3 γ :=
  ⟨f v.x w.x, f v.y w.y, f v.z w.z⟩

instance [Add α] : Add (Vector3 α) := ⟨zipWith (· + ·)⟩
instance [Sub α] : Sub (Vector3 α) := ⟨zipWith (· - ·)⟩
instance [Mul α] : Mul (Vector3 α) := ⟨zipWith (· * ·)⟩
instance [Neg α] : Neg (Vector3 α) := ⟨map (- ·)⟩

def scale [Mul α] (v : Vector3 α) (s : α) : Vector3 α := v.map (· * s)
def shrink [Div α] (v : Vector3 α) (s : α) : Vector3 α := v.map (· / s)

def dot [Add α] [Mul α] (v w : Vector3 α) : α := v.x * w.x + v.y * w.y + v.z * w.z

def cross [Sub α] [Mul α] (v w : Vector3 α) : Vector3 α :=
  ⟨v.y * w.z - v.z * w.y, v.z * w.x - v.x * w.z, v.x * w.y - v.y * w.x⟩

end Vector3

namespace Vector4

def toList (v : Vector4 α) : List α := [v.x, v.y, v.z, v.w]

def ofList? : List α → Option (Vector4 α)
  | [x, y, z, w] => some ⟨x, y, z, w⟩
  | _ => none

def map (f : α → β) (v : Vector4 α) : Vector4 β := ⟨f v.x, f v.y, f v.z, f v.w⟩

def zipWith (f : α → β → γ) (v : Vector4 α) (w : Vector4 β) : Vector4 γ :=
  ⟨f v.x w.x, f v.y w.y, f v.z w.z, f v.w w.w⟩

instance [Add α] : Add (Vector4 α) := ⟨zipWith (· + ·)⟩
instance [Sub α] : Sub (Vector4 α) := ⟨zipWith (· - ·)⟩
instance [Mul α] : Mul (Vector4 α) := ⟨zipWith (· * ·)⟩
instance [Neg α] : Neg (Vector4 α) := ⟨map (- ·)⟩

def scale [Mul α] (v : Vector4 α) (s : α) : Vector4 α := v.map (· * s)
def shrink [Div α] (v : Vector4 α) (s : α) : Vector4 α := v.map (· / s)

def dot [Add α] [Mul α] (v w : Vector4 α) : α :=
  v.x * w.x + v.y * w.y + v.z * w.z + v.w * w.w

end Vector4

def Vector2.length (v : Vector2 Single) : Single := (v.dot v).sqrt
def Vector3.length (v : Vector3 Single) : Single := (v.dot v).sqrt
def Vector4.length (v : Vector4 Single) : Single := (v.dot v).sqrt

def Vector3.distance (v w : Vector3 Single) : Single := (v - w).length

end ArrayQuery
