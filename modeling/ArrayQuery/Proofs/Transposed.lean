import ArrayQuery.Proofs.Columns
import Mathlib.Data.Matrix.Mul
import Mathlib.Tactic.FinCases
import Mathlib.Tactic.IntervalCases

/-! Kernels compute with transposed matrices what queries compute: the rows of a host matrix are the
columns of the device's, and the operands of a product are written the other way round. -/

set_option autoImplicit false
namespace ArrayQuery

def Vector2.components (v : Vector2 ℚ) : Fin 2 → ℚ := ![v.x, v.y]
def Vector3.components (v : Vector3 ℚ) : Fin 3 → ℚ := ![v.x, v.y, v.z]
def Vector4.components (v : Vector4 ℚ) : Fin 4 → ℚ := ![v.x, v.y, v.z, v.w]

namespace Matrix4x4

def cells (m : Matrix4x4 ℚ) : Matrix (Fin 4) (Fin 4) ℚ :=
  .of ![m.row1.components, m.row2.components, m.row3.components, m.row4.components]

theorem cells_mapRows (f : ℚ → ℚ) (m : Matrix4x4 ℚ) :
    (m.mapRows (·.map f)).cells = m.cells.map f := by
  ext i j
  fin_cases i <;> fin_cases j <;> rfl

theorem cells_zipRows (f : ℚ → ℚ → ℚ) (m n : Matrix4x4 ℚ) :
    (m.zipRows (·.zipWith f ·) n).cells = .of fun i j => f (m.cells i j) (n.cells i j) := by
  ext i j
  fin_cases i <;> fin_cases j <;> rfl

theorem components_rowTimes (v : Vector4 ℚ) (m : Matrix4x4 ℚ) :
    (rowTimes 0 v m).components = Matrix.vecMul v.components m.cells := by
  funext j
  rw [Matrix.vecMul, dotProduct, Fin.sum_univ_four]
  fin_cases j <;> simp [rowTimes, cells, Vector4.components]

/-- A displacement moves points. -/
example : rowTimes 0 ⟨1, 2, 3, 1⟩ (displacement 0 1 10 20 30) = (⟨11, 22, 33, 1⟩ : Vector4 ℚ) := by
  decide +kernel

theorem cells_product (m n : Matrix4x4 ℚ) : (m.product 0 n).cells = m.cells * n.cells := by
  funext i
  rw [Matrix.mul_apply_eq_vecMul]
  fin_cases i
  · exact components_rowTimes m.row1 n
  · exact components_rowTimes m.row2 n
  · exact components_rowTimes m.row3 n
  · exact components_rowTimes m.row4 n

end Matrix4x4

namespace Matrix3x2

def cells (m : Matrix3x2 ℚ) : Matrix (Fin 3) (Fin 2) ℚ :=
  .of ![m.row1.components, m.row2.components, m.row3.components]

theorem cells_mapRows (f : ℚ → ℚ) (m : Matrix3x2 ℚ) :
    (m.mapRows (·.map f)).cells = m.cells.map f := by
  ext i j
  fin_cases i <;> fin_cases j <;> rfl

theorem cells_zipRows (f : ℚ → ℚ → ℚ) (m n : Matrix3x2 ℚ) :
    (m.zipRows (·.zipWith f ·) n).cells = .of fun i j => f (m.cells i j) (n.cells i j) := by
  ext i j
  fin_cases i <;> fin_cases j <;> rfl

end Matrix3x2

namespace Kernel.DeviceValue

theorem zip?_vector (f : ℚ → ℚ → ℚ) {n : Nat} (v w : Fin n → ℚ) :
    zip? f (vector n v) (vector n w) = some (vector n fun i => f (v i) (w i)) :=
  dif_pos rfl

theorem zip?_matrix (f : ℚ → ℚ → ℚ) {c r : Nat} (m n : Matrix (Fin r) (Fin c) ℚ) :
    zip? f (matrix c r m) (matrix c r n) =
      some (matrix c r (.of fun i j => f (m i j) (n i j))) :=
  dif_pos ⟨rfl, rfl⟩

theorem mul?_scalar (e : DeviceValue) (a : ℚ) : e.mul? (scalar a) = some (e.map (a * ·)) := by
  cases e with
  | scalar b => exact congrArg (some ∘ scalar) (mul_comm b a)
  | _ => rfl

theorem mul?_matrix {c d r : Nat} (m : Matrix (Fin r) (Fin c) ℚ) (n : Matrix (Fin c) (Fin d) ℚ) :
    mul? (matrix c r m) (matrix d c n) = some (matrix d r (m * n)) :=
  dif_pos rfl

theorem mul?_column {c r : Nat} (m : Matrix (Fin r) (Fin c) ℚ) (v : Fin c → ℚ) :
    mul? (matrix c r m) (vector c v) = some (vector r (m.mulVec v)) :=
  dif_pos rfl

end Kernel.DeviceValue

namespace Quantity

open Kernel

/-- What stands for a quantity on the device, where the rows of the host are columns. -/
def onDevice : Quantity → DeviceValue
  | scalar a => .scalar a
  | vector2 v => .vector 2 v.components
  | vector3 v => .vector 3 v.components
  | vector4 v => .vector 4 v.components
  | matrix4x4 m => .matrix 4 4 m.cells.transpose
  | matrix3x2 m => .matrix 3 2 m.cells.transpose

def map (f : ℚ → ℚ) : Quantity → Quantity
  | scalar a => scalar (f a)
  | vector2 v => vector2 (v.map f)
  | vector3 v => vector3 (v.map f)
  | vector4 v => vector4 (v.map f)
  | matrix4x4 m => matrix4x4 (m.mapRows (·.map f))
  | matrix3x2 m => matrix3x2 (m.mapRows (·.map f))

def zip? (f : ℚ → ℚ → ℚ) : Quantity → Quantity → Option Quantity
  | scalar a, scalar b => some (scalar (f a b))
  | vector2 v, vector2 w => some (vector2 (v.zipWith f w))
  | vector3 v, vector3 w => some (vector3 (v.zipWith f w))
  | vector4 v, vector4 w => some (vector4 (v.zipWith f w))
  | matrix4x4 m, matrix4x4 n => some (matrix4x4 (m.zipRows (·.zipWith f ·) n))
  | matrix3x2 m, matrix3x2 n => some (matrix3x2 (m.zipRows (·.zipWith f ·) n))
  | _, _ => none

theorem scale_eq_map (s : ℚ) (q : Quantity) : q.scale s = q.map (· * s) := by
  cases q <;> rfl

theorem neg_eq_map (q : Quantity) : q.neg = q.map (- ·) := by
  cases q <;> rfl

theorem add?_eq_zip (p q : Quantity) : p.add? q = p.zip? (· + ·) q := by
  cases p <;> cases q <;> rfl

theorem sub?_eq_zip (p q : Quantity) : p.sub? q = p.zip? (· - ·) q := by
  cases p <;> cases q <;> rfl

theorem onDevice_map (f : ℚ → ℚ) (q : Quantity) : (q.map f).onDevice = q.onDevice.map f := by
  cases q with
  | scalar a => rfl
  | vector2 v => exact congrArg (DeviceValue.vector 2) (funext fun i => by fin_cases i <;> rfl)
  | vector3 v => exact congrArg (DeviceValue.vector 3) (funext fun i => by fin_cases i <;> rfl)
  | vector4 v => exact congrArg (DeviceValue.vector 4) (funext fun i => by fin_cases i <;> rfl)
  | matrix4x4 m =>
    rw [map, onDevice, m.cells_mapRows]
    rfl
  | matrix3x2 m =>
    rw [map, onDevice, m.cells_mapRows]
    rfl

theorem onDevice_zip {f : ℚ → ℚ → ℚ} {p q r : Quantity} (found : p.zip? f q = some r) :
    p.onDevice.zip? f q.onDevice = some r.onDevice := by
  cases p with
  | scalar a =>
    cases q with
    | scalar b =>
      obtain rfl := Option.some.inj found
      rfl
    | _ => exact nomatch found
  | vector2 v =>
    cases q with
    | vector2 w =>
      obtain rfl := Option.some.inj found
      exact (DeviceValue.zip?_vector f ..).trans (congrArg (some ∘ DeviceValue.vector 2)
        (funext fun i => by fin_cases i <;> rfl))
    | _ => exact nomatch found
  | vector3 v =>
    cases q with
    | vector3 w =>
      obtain rfl := Option.some.inj found
      exact (DeviceValue.zip?_vector f ..).trans (congrArg (some ∘ DeviceValue.vector 3)
        (funext fun i => by fin_cases i <;> rfl))
    | _ => exact nomatch found
  | vector4 v =>
    cases q with
    | vector4 w =>
      obtain rfl := Option.some.inj found
      exact (DeviceValue.zip?_vector f ..).trans (congrArg (some ∘ DeviceValue.vector 4)
        (funext fun i => by fin_cases i <;> rfl))
    | _ => exact nomatch found
  | matrix4x4 m =>
    cases q with
    | matrix4x4 n =>
      obtain rfl := Option.some.inj found
      rw [onDevice, onDevice, onDevice, m.cells_zipRows]
      exact DeviceValue.zip?_matrix f ..
    | _ => exact nomatch found
  | matrix3x2 m =>
    cases q with
    | matrix3x2 n =>
      obtain rfl := Option.some.inj found
      rw [onDevice, onDevice, onDevice, m.cells_zipRows]
      exact DeviceValue.zip?_matrix f ..
    | _ => exact nomatch found

/-! ## Products -/

theorem onDevice_scale (s : ℚ) (q : Quantity) :
    (q.scale s).onDevice = q.onDevice.map (s * ·) := by
  rw [scale_eq_map, onDevice_map, funext fun a => mul_comm a s]

theorem mul?_scalar (q : Quantity) (s : ℚ) : q.mul? (scalar s) = some (q.scale s) := by
  cases q <;> rfl

theorem scalar_mul? (s : ℚ) (q : Quantity) : (scalar s).mul? q = some (q.scale s) := by
  cases q with
  | scalar a => exact congrArg (some ∘ scalar) (mul_comm s a)
  | _ => rfl

theorem zip?_mul_comm (p q : Quantity) : p.zip? (· * ·) q = q.zip? (· * ·) p := by
  cases p <;> cases q <;>
    simp [zip?, Vector2.zipWith, Vector3.zipWith, Vector4.zipWith, Matrix4x4.zipRows,
      Matrix3x2.zipRows, mul_comm]

theorem onDevice_mul {p q r : Quantity} (found : p.mul? q = some r) :
    q.onDevice.mul? p.onDevice = some r.onDevice := by
  have left (s : ℚ) (same : p = scalar s) : q.onDevice.mul? p.onDevice = some r.onDevice := by
    subst same
    rw [scalar_mul?] at found
    obtain rfl := Option.some.inj found
    rw [onDevice_scale]
    exact q.onDevice.mul?_scalar s
  have right (s : ℚ) (same : q = scalar s) : q.onDevice.mul? p.onDevice = some r.onDevice := by
    subst same
    rw [mul?_scalar] at found
    obtain rfl := Option.some.inj found
    rw [onDevice_scale]
    rfl
  have componentwise (same : p.mul? q = p.zip? (· * ·) q)
      (same' : q.onDevice.mul? p.onDevice = q.onDevice.zip? (· * ·) p.onDevice) :
      q.onDevice.mul? p.onDevice = some r.onDevice := by
    rw [same', onDevice_zip]
    rw [zip?_mul_comm, ← same, found]
  -- Numbers scale, vectors of one size go by component, and the rest are products of matrices.
  cases p with
  | scalar s => exact left s rfl
  | vector2 v =>
    cases q with
    | scalar s => exact right s rfl
    | vector2 w => exact componentwise rfl rfl
    | _ => exact nomatch found
  | vector3 v =>
    cases q with
    | scalar s => exact right s rfl
    | vector3 w => exact componentwise rfl rfl
    | _ => exact nomatch found
  | vector4 v =>
    cases q with
    | scalar s => exact right s rfl
    | vector4 w => exact componentwise rfl rfl
    | matrix4x4 m =>
      obtain rfl := Option.some.inj found
      change DeviceValue.mul? (.matrix 4 4 m.cells.transpose) (.vector 4 v.components) = _
      rw [DeviceValue.mul?_column, Matrix.mulVec_transpose, ← Matrix4x4.components_rowTimes]
      rfl
    | _ => exact nomatch found
  | matrix4x4 m =>
    cases q with
    | scalar s => exact right s rfl
    | matrix4x4 n =>
      obtain rfl := Option.some.inj found
      change DeviceValue.mul? (.matrix 4 4 n.cells.transpose) (.matrix 4 4 m.cells.transpose) = _
      rw [DeviceValue.mul?_matrix, ← Matrix.transpose_mul, ← Matrix4x4.cells_product]
      rfl
    | _ => exact nomatch found
  | matrix3x2 m =>
    cases q with
    | scalar s => exact right s rfl
    | _ => exact nomatch found

/-- Every operator that the compiler lets through has a value. -/
theorem operate?_defined {op : BinaryOp} (listed : op = .add ∨ op = .sub ∨ op = .mul)
    {p q : Quantity} (defined : isOperatorDefined op p.type q.type = true) :
    ∃ r, p.operate? op q = some r ∧ r.type = operatorType p.type q.type := by
  rcases listed with rfl | rfl | rfl <;> cases p <;> cases q <;>
    first
    | exact ⟨_, rfl, rfl⟩
    | exact absurd defined Bool.false_ne_true

theorem onDevice_operate {op : BinaryOp} (other : op ≠ .mul) {p q r : Quantity}
    (found : p.operate? op q = some r) :
    DeviceValue.operate? op p.onDevice q.onDevice = some r.onDevice := by
  cases op with
  | add => exact onDevice_zip ((add?_eq_zip p q).symm.trans found)
  | sub => exact onDevice_zip ((sub?_eq_zip p q).symm.trans found)
  | mul => exact absurd rfl other
  | _ => exact nomatch found

theorem onDevice_neg {q : Quantity} (other : q.type.isMatrix = false) :
    q.onDevice.neg? = some q.neg.onDevice := by
  rw [neg_eq_map, onDevice_map]
  cases q with
  | matrix4x4 m => exact Bool.noConfusion other
  | matrix3x2 m => exact Bool.noConfusion other
  | _ => rfl

theorem onDevice_negMatrix (q : Quantity) :
    DeviceValue.mul? (.scalar (-1)) q.onDevice = some q.neg.onDevice := by
  rw [neg_eq_map, onDevice_map]
  change some (q.onDevice.map (-1 * ·)) = _
  rw [funext neg_one_mul]

theorem ofNumbers?_vector {n : Nat} {numbers : List ℚ} (counted : numbers.length = n)
    {v : Fin n → ℚ} (each : ∀ i : Fin n, numbers.getD i 0 = v i) :
    (KernelType.vector n).ofNumbers? numbers = some (.vector n v) := by
  rw [KernelType.ofNumbers?, if_pos counted, funext each]

theorem ofNumbers?_matrix {c r : Nat} {numbers : List ℚ} (counted : numbers.length = c * r)
    {m : Matrix (Fin r) (Fin c) ℚ}
    (each : ∀ (i : Fin r) (k : Fin c), (numbers.drop (k * r)).getD i 0 = m i k) :
    (KernelType.matrix c r).ofNumbers? numbers = some (.matrix c r m) := by
  rw [KernelType.ofNumbers?, if_pos counted]
  exact congrArg (some ∘ DeviceValue.matrix c r) (Matrix.ext each)

/-- The numbers of a host matrix, row by row, are those of the columns of the device. -/
theorem ofNumbers?_numbers {q : Quantity} {k : KernelType} (known : ofLeaf q.leaf = some k) :
    k.ofNumbers? q.numbers = some q.onDevice := by
  cases q with
  | scalar a =>
    obtain rfl := Option.some.inj known
    rfl
  | vector2 v =>
    obtain rfl := Option.some.inj known
    exact ofNumbers?_vector rfl fun i => by fin_cases i <;> rfl
  | vector3 v =>
    obtain rfl := Option.some.inj known
    exact ofNumbers?_vector rfl fun i => by fin_cases i <;> rfl
  | vector4 v =>
    obtain rfl := Option.some.inj known
    exact ofNumbers?_vector rfl fun i => by fin_cases i <;> rfl
  | matrix4x4 m =>
    obtain rfl := Option.some.inj known
    exact ofNumbers?_matrix rfl fun i k => by fin_cases i <;> fin_cases k <;> rfl
  | matrix3x2 m =>
    obtain rfl := Option.some.inj known
    exact ofNumbers?_matrix rfl fun i k => by fin_cases i <;> fin_cases k <;> rfl

theorem toString_digit {c : Char} (digit : c.isDigit = true) :
    (toString (c.toNat - '0'.toNat)).toList = [c] := by
  obtain ⟨low, high⟩ := Char.isDigit_iff_toNat.mp digit
  rw [← Char.ofNat_toNat c]
  generalize c.toNat = n at low high ⊢
  change 48 ≤ n at low
  change n ≤ 57 at high
  interval_cases n <;> rfl

theorem cell_name {l : Leaf} {name : String} {row column : Nat}
    (found : l.cell? name = some (row, column)) :
    name = "m" ++ toString (row + 1) ++ toString (column + 1) := by
  unfold Leaf.cell? at found
  split at found
  · next r c spelled =>
    dsimp only at found
    split at found
    · next inside =>
      simp only [Bool.and_eq_true, decide_eq_true_eq] at inside
      obtain ⟨rfl, rfl⟩ := Prod.mk.inj (Option.some.inj found)
      obtain ⟨⟨⟨⟨⟨digit, digit'⟩, first⟩, first'⟩, _⟩, _⟩ := inside
      apply String.toList_injective
      rw [spelled, String.toList_append, String.toList_append, Nat.sub_add_cancel first,
        Nat.sub_add_cancel first', toString_digit digit, toString_digit digit']
      rfl
    · exact nomatch found
  · exact nomatch found

theorem onDevice_cell (q : Quantity) {row column : Nat} (below : row < q.leaf.shape.1)
    (below' : column < q.leaf.shape.2) :
    ∃ r, q.member? ("m" ++ toString (row + 1) ++ toString (column + 1)) = some r ∧ r.type = .f32 ∧
      ((q.onDevice.element? row).bind (·.element? column)) = some r.onDevice := by
  cases q with
  | matrix4x4 m =>
    change row < 4 at below
    change column < 4 at below'
    interval_cases row <;> interval_cases column <;> exact ⟨_, rfl, rfl, rfl⟩
  | matrix3x2 m =>
    change row < 3 at below
    change column < 2 at below'
    interval_cases row <;> interval_cases column <;> exact ⟨_, rfl, rfl, rfl⟩
  | _ => exact absurd below (Nat.not_lt_zero _)

theorem onDevice_component (q : Quantity) {name : String} (member : name ∈ q.leaf.components) :
    ∃ r, q.member? name = some r ∧ r.type = .f32 ∧
      q.onDevice.component? name = some r.onDevice := by
  cases q with
  | vector2 v =>
    simp only [leaf, Leaf.components, List.mem_cons, List.not_mem_nil, or_false] at member
    rcases member with rfl | rfl <;> exact ⟨_, rfl, rfl, rfl⟩
  | vector3 v =>
    simp only [leaf, Leaf.components, List.mem_cons, List.not_mem_nil, or_false] at member
    rcases member with rfl | rfl | rfl <;> exact ⟨_, rfl, rfl, rfl⟩
  | vector4 v =>
    simp only [leaf, Leaf.components, List.mem_cons, List.not_mem_nil, or_false] at member
    rcases member with rfl | rfl | rfl | rfl <;> exact ⟨_, rfl, rfl, rfl⟩
  | _ => exact absurd member List.not_mem_nil

end Quantity
end ArrayQuery
