import ArrayQuery.Proofs.Quantities
import Mathlib.Data.Matrix.Mul

/-! Exact arithmetic of the device on numbers, vectors and matrices. Matrices are given by columns,
and a vector behind a matrix is a column. -/

set_option autoImplicit false
namespace ArrayQuery.Kernel

inductive DeviceValue where
  | scalar (a : ℚ)
  | vector (size : Nat) (v : Fin size → ℚ)
  | matrix (columns rows : Nat) (m : Matrix (Fin rows) (Fin columns) ℚ)

/-- The value of a type that is made from numbers. The k-th group of a matrix's numbers is its k-th
column. -/
def KernelType.ofNumbers? (numbers : List ℚ) : KernelType → Option DeviceValue
  | f32 => if numbers.length = 1 then some (.scalar (numbers.getD 0 0)) else none
  | vector n => if numbers.length = n then some (.vector n fun i => numbers.getD i 0) else none
  | matrix c r =>
    if numbers.length = c * r then
      some (.matrix c r (.of fun i k => (numbers.drop (k * r)).getD i 0))
    else none
  | _ => none

namespace DeviceValue

def zip? (f : ℚ → ℚ → ℚ) : DeviceValue → DeviceValue → Option DeviceValue
  | scalar a, scalar b => some (scalar (f a b))
  | vector n v, vector k w =>
    if same : n = k then some (vector n fun i => f (v i) (w (i.cast same))) else none
  | matrix c r m, matrix d s n =>
    if same : r = s ∧ c = d then
      some (matrix c r (.of fun i j => f (m i j) (n (i.cast same.1) (j.cast same.2))))
    else none
  | _, _ => none

def map (f : ℚ → ℚ) : DeviceValue → DeviceValue
  | scalar a => scalar (f a)
  | vector n v => vector n fun i => f (v i)
  | matrix c r m => matrix c r (m.map f)

/-- A scalar on either side scales; vectors are multiplied component by component; products with
matrices are those of linear algebra, for a column behind and for a row in front. -/
def mul? : DeviceValue → DeviceValue → Option DeviceValue
  | scalar a, e => some (e.map (a * ·))
  | e, scalar a => some (e.map (a * ·))
  | vector n v, vector k w => zip? (· * ·) (vector n v) (vector k w)
  | matrix c r m, matrix d s n =>
    if same : c = s then some (matrix d r (m * n.submatrix (Fin.cast same) id)) else none
  | matrix c r m, vector n v =>
    if same : c = n then some (vector r (m.mulVec (v ∘ Fin.cast same))) else none
  | vector n v, matrix c r m =>
    if same : r = n then some (vector c (Matrix.vecMul (v ∘ Fin.cast same) m)) else none

def operate? : BinaryOp → DeviceValue → DeviceValue → Option DeviceValue
  | .add, a, b => a.zip? (· + ·) b
  | .sub, a, b => a.zip? (· - ·) b
  | .mul, a, b => a.mul? b
  | _, _, _ => none

/-- There is no minus for matrices. -/
def neg? : DeviceValue → Option DeviceValue
  | matrix .. => none
  | e => some (e.map (- ·))

def element? : DeviceValue → Nat → Option DeviceValue
  | vector n v, i => if inside : i < n then some (scalar (v ⟨i, inside⟩)) else none
  | matrix c r m, k => if inside : k < c then some (vector r fun i => m i ⟨k, inside⟩) else none
  | scalar _, _ => none

def component? (e : DeviceValue) (name : String) : Option DeviceValue :=
  match e with
  | vector n v => (componentNames.idxOf? name).bind (vector n v).element?
  | _ => none

def number? : DeviceValue → Option ℚ
  | scalar a => some a
  | _ => none

end DeviceValue

/-- What the names in an expression stand for: the element that is read from a buffer, by its type
and its numbers, and the values computed before. -/
structure Surroundings where
  buffers : List (String × KernelType × List ℚ)
  values : List (String × DeviceValue)

def single? (text : List Char) : Option ℚ :=
  if text.getLast? = some 'f' then (Decimal.read text.dropLast).nearest? else none

namespace Form

mutual
def value? (s : Surroundings) : Form → Option DeviceValue
  | number text => (single? text).map .scalar
  | name n => s.values.lookup n
  | paren e => e.value? s
  | negate e => do (← e.value? s).neg?
  | binary (.arithmetic op) l r => do DeviceValue.operate? op (← l.value? s) (← r.value? s)
  | index (name buffer) (member (name "gid") "x") => do
    let (t, numbers) ← s.buffers.lookup buffer
    t.ofNumbers? numbers
  | index e (number digits) => do (← e.value? s).element? (← natural? digits)
  | member e n => do (← e.value? s).component? n
  | call callee args => do
    let t ← KernelType.builtin.find? (·.text == callee)
    t.ofNumbers? (← (← values? s args).mapM DeviceValue.number?)
  | _ => none

def values? (s : Surroundings) : List Form → Option (List DeviceValue)
  | [] => some []
  | e :: rest => do return (← e.value? s) :: (← values? s rest)
end

variable (s : Surroundings)

theorem value?_number (text : List Char) : (number text).value? s = (single? text).map .scalar :=
  rfl

theorem value?_paren (e : Form) : (paren e).value? s = e.value? s :=
  rfl

theorem value?_negate (e : Form) : (negate e).value? s = (e.value? s).bind DeviceValue.neg? :=
  rfl

theorem value?_arithmetic (op : BinaryOp) (l r : Form) :
    (binary (.arithmetic op) l r).value? s =
      (l.value? s).bind fun a => (r.value? s).bind (DeviceValue.operate? op a) :=
  rfl

theorem value?_stored (buffer : String) :
    (index (name buffer) (member (name "gid") "x")).value? s =
      (s.buffers.lookup buffer).bind fun held => held.1.ofNumbers? held.2 :=
  rfl

theorem value?_at (e : Form) (digits : List Char) :
    (index e (number digits)).value? s =
      (e.value? s).bind fun d => (natural? digits).bind d.element? := by
  cases e <;> rfl

theorem value?_member (e : Form) (n : String) :
    (member e n).value? s = (e.value? s).bind (·.component? n) :=
  rfl

theorem value?_call (callee : String) (args : List Form) :
    (call callee args).value? s = (KernelType.builtin.find? (·.text == callee)).bind fun t =>
      (values? s args).bind fun ds => (ds.mapM DeviceValue.number?).bind t.ofNumbers? :=
  rfl

theorem values?_cons (e : Form) (rest : List Form) :
    values? s (e :: rest) =
      (e.value? s).bind fun d => (values? s rest).bind fun ds => some (d :: ds) :=
  rfl

end Form
end ArrayQuery.Kernel
