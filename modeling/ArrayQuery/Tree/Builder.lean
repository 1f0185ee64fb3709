import ArrayQuery.Tree.Expr

/-! Building trees: the coercions of operands, and queries as chains of operators. -/

set_option autoImplicit false
namespace ArrayQuery

/-- A number literal as another scalar type; integers are cut off toward zero and held within the
bounds of the type. -/
def Value.retype (v : Value) (t : ElementType) : Option Value :=
  let number? : Option Double := match v with
    | .i32 n => some (.ofInt n.toInt)
    | .u32 n => some (.ofNat n.toNat)
    | .f32 x => some x.toDouble
    | .f64 x => some x
    | _ => none
  match number?, t with
  | some x, .i32 => some (.i32 x.toInt32)
  | some x, .u32 => some (.u32 x.toUInt32)
  | some x, .f32 => some (.f32 x.toSingle)
  | some x, .f64 => some (.f64 x)
  | _, _ => none

namespace ElementType

/-- The order in which scalar types take up each other's values. -/
def rank : ElementType → Nat
  | .bool => 0
  | .u32 => 1
  | .i32 => 2
  | .f32 => 3
  | _ => 4

def wider (a b : ElementType) : ElementType :=
  if b.rank ≤ a.rank then a else b

end ElementType

namespace Expr

/-- Brings a scalar expression to a scalar type: number literals are retyped in place, other
expressions are converted by a node with the given tag. -/
def conform (tag : Tag) (t : ElementType) (e : Expr) : Expr :=
  if e.type = t ∨ e.type.isScalar = false ∨ t.isScalar = false then e
  else match e with
    | constant v =>
      match v.retype t with
      | some w => constant w
      | none => convert tag e t
    | _ => convert tag e t

/-- Brings the operands of a binary operator together. A scalar beside anything else becomes a
single; of two scalars a literal takes the other's type, and otherwise the wider type wins. -/
def coercePair (leftTag rightTag : Tag) (l r : Expr) : Expr × Expr :=
  if l.type = r.type then (l, r)
  else match l.type.isScalar, r.type.isScalar with
    | false, false => (l, r)
    | true, false => (l.conform leftTag .f32, r)
    | false, true => (l, r.conform rightTag .f32)
    | true, true =>
      match l.isConstant, r.isConstant with
      | false, true => (l, r.conform rightTag l.type)
      | true, false => (l.conform leftTag r.type, r)
      | _, _ =>
        let t := l.type.wider r.type
        (l.conform leftTag t, r.conform rightTag t)

/-- A binary operator over coerced operands: scaling has the type of what is scaled. -/
def operate (leftTag rightTag : Tag) (op : BinaryOp) (l r : Expr) : Expr :=
  let p := coercePair leftTag rightTag l r
  let t := if p.1.type.isScalar && !p.2.type.isScalar then p.2.type else p.1.type
  binary op p.1 p.2 t

def opposite (e : Expr) : Expr :=
  negate e e.type

def element (tag : Tag) (a i : Expr) : Expr :=
  index a (i.conform tag .u32) a.type

/-- A member that the type does not have keeps the type, for the compiler to refuse. -/
def field (e : Expr) (name : String) : Expr :=
  member e name ((e.type.member? name).getD e.type)

def cast (tag : Tag) (e : Expr) (t : ElementType) : Expr :=
  convert tag e t

/-- The values of a record conform to its fields; values beyond the last field stay as they are. -/
def conformFields (tag : Tag) : List (String × ElementType) → List Expr → List Expr
  | (_, t) :: fields, e :: rest => e.conform tag t :: conformFields (tag + 1) fields rest
  | [], es => es
  | _ :: _, [] => []

def build (tag : Tag) (r : RecordType) (values : List Expr) : Expr :=
  construct r (conformFields tag r.fields values)

def applyLike (tag : Tag) (fn : MathFn) (first : Expr) (others : List Expr) : Expr :=
  let t := first.type
  call fn (first :: (others.zipIdx tag).map fun p => p.1.conform p.2 t) t

def applyTo (fn : MathFn) (args : List Expr) (t : ElementType) : Expr :=
  call fn args t

end Expr

abbrev Build := StateT Tag (Except ComputeError)

namespace Build

def fresh (n : Nat) : Build Tag :=
  modifyGet fun tag => (tag, tag + n)

def share (a : HostArray) : Build SharedArray := do
  return ⟨← fresh 1, a⟩

def binary (op : BinaryOp) (l r : Expr) : Build Expr := do
  let tag ← fresh 2
  return l.operate tag (tag + 1) op r

def element (a i : Expr) : Build Expr := do
  return a.element (← fresh 1) i

def cast (e : Expr) (t : ElementType) : Build Expr := do
  return e.cast (← fresh 1) t

def record (r : RecordType) (values : List Expr) : Build Expr := do
  return .build (← fresh values.length) r values

def apply (fn : MathFn) (first : Expr) (others : List Expr) : Build Expr := do
  match fn.result? with
  | some t => return .applyTo fn (first :: others) t
  | none => return first.applyLike (← fresh others.length) fn others

end Build

/-- A chain of operators; its elements have a type of their own, whatever its body has. -/
structure Query where
  element : ElementType
  node : Expr

namespace Query

def ofShared (a : SharedArray) : Query :=
  ⟨a.data.element, .array a⟩

def ofArray (a : SharedArray) (expected : ElementType) : Except ComputeError Query :=
  if a.data.element = expected then .ok (ofShared a)
  else .error (.usage (.queryElements a.data.element expected))

/-- Maps the elements; the body is brought to the element type asked for. -/
def select (q : Query) (result : ElementType) (body : Expr → Build Expr) : Build Query := do
  let x : Parameter := ⟨"x", q.element⟩
  let e ← body (.parameter x)
  let tag ← Build.fresh 2
  return ⟨result, .select (tag + 1) q.node [x] (e.conform tag result)⟩

def zip (q other : Query) (result : ElementType) (body : Expr → Expr → Build Expr) : Build Query := do
  let x : Parameter := ⟨"x", q.element⟩
  let y : Parameter := ⟨"y", other.element⟩
  let e ← body (.parameter x) (.parameter y)
  let tag ← Build.fresh 2
  return ⟨result, .zip (tag + 1) q.node other.node [x, y] (e.conform tag result)⟩

def spell (q : Query) : String :=
  "Query(" ++ q.node.spell ++ ")"

end Query
end ArrayQuery
