import ArrayQuery.Kernel.Type
import ArrayQuery.Tree.Expr

/-! Expressions of the kernel language and their text. -/

set_option autoImplicit false
namespace ArrayQuery.Kernel

/-- What a lambda parameter stands for: an element of a bound buffer, or the value of a step. -/
inductive Variable where
  | buffer (slot : Nat)
  | step (number : Nat)
  deriving DecidableEq, Repr

def Variable.name : Variable → String
  | buffer slot => "buf" ++ toString slot
  | step number => "v" ++ toString number

def invocation : String := "gid.x"

inductive Literal where
  | bool (b : Bool)
  | int (n : Int32)
  | uint (n : UInt32)
  | float (x : Single)
  deriving DecidableEq, Repr

/-- Every literal has a suffix that fixes its type. The least integer is written as a conversion,
since its magnitude is no integer of the type. -/
def Literal.text : Literal → String
  | bool b => if b then "true" else "false"
  | int n =>
    if n.toInt = -2147483648 then "i32(-2147483648)" else toString n.toInt ++ "i"
  | uint n => toString n.toNat ++ "u"
  | float x => x.text ++ "f"

inductive Callee where
  | type (t : KernelType)
  | function (fn : MathFn)
  deriving DecidableEq, Repr

def Callee.text : Callee → String
  | type t => t.text
  | function fn => fn.kernelName

/-- A step into a value: a field, or a matrix cell by column and row. -/
inductive Access where
  | field (name : String)
  | cell (column row : Nat)
  deriving DecidableEq, Repr

def Access.text : Access → String
  | field name => "." ++ name
  | cell column row => "[" ++ toString column ++ "][" ++ toString row ++ "]"

inductive Term where
  | literal (l : Literal)
  | step (number : Nat)
  /-- The element of a buffer at the current invocation. -/
  | element (slot : Nat)
  /-- An element of a buffer at a computed index. -/
  | index (slot : Nat) (position : Term)
  /-- A stored truth value. -/
  | nonzero (e : Term)
  | binary (op : BinaryOp) (left right : Term)
  | negate (e : Term)
  /-- The opposite of a matrix, for which there is no unary minus. -/
  | negateMatrix (e : Term)
  | call (callee : Callee) (args : List Term)
  | group (e : Term)
  | access (e : Term) (a : Access)

namespace Term

mutual
/-- Operators always stand in parentheses, so no precedence is relied on. -/
def text : Term → String
  | literal l => l.text
  | step n => (Variable.step n).name
  | element slot => (Variable.buffer slot).name ++ "[" ++ invocation ++ "]"
  | index slot i => (Variable.buffer slot).name ++ "[" ++ i.text ++ "]"
  | nonzero e => "(" ++ e.text ++ " != 0u)"
  | binary op l r => "(" ++ l.text ++ " " ++ op.symbol ++ " " ++ r.text ++ ")"
  | negate e => "(-" ++ e.text ++ ")"
  | negateMatrix e => "(-1.0f * " ++ e.text ++ ")"
  | call c args => c.text ++ "(" ++ ", ".intercalate (textAll args) ++ ")"
  | group e => "(" ++ e.text ++ ")"
  | access e a => e.text ++ a.text

def textAll : List Term → List String
  | [] => []
  | e :: rest => e.text :: textAll rest
end

theorem text_binary (op : BinaryOp) (l r : Term) :
    (binary op l r).text = "(" ++ l.text ++ " " ++ op.symbol ++ " " ++ r.text ++ ")" := by
  rw [text]

end Term

structure Operand where
  target : Variable
  type : ElementType
  deriving DecidableEq, Repr

def Operand.term (o : Operand) : Term :=
  match o.target with
  | .step n => .step n
  | .buffer slot => if o.type = .bool then .nonzero (.element slot) else .element slot

/-- The step from a value of type `container` to a member. The cells of a host row lie in one
column of the kernel matrix. -/
def accessOf (container : ElementType) (member : String) : Option Access :=
  match container.cell? member with
  | some (row, column) => some (.cell row column)
  | none => (container.member? member).map fun _ => .field (identifier member)

def floatLiteral (x : Single) : Except ComputeError Term :=
  if x.isFinite then .ok (.literal (.float x))
  else .error (.unsupportedAt .nonFinite x.text)

def floatLiterals : List Single → Except ComputeError (List Term)
  | [] => .ok []
  | x :: rest => do return (← floatLiteral x) :: (← floatLiterals rest)

namespace RecordNames

mutual
/-- A value as a kernel expression. Doubles are rounded to singles, and the cells of a matrix are
listed row by row. -/
def literal (names : RecordNames) : Value → Except ComputeError Term
  | .bool b => .ok (.literal (.bool b))
  | .i32 n => .ok (.literal (.int n))
  | .u32 n => .ok (.literal (.uint n))
  | .f32 x => floatLiteral x
  | .f64 x => floatLiteral x.toSingle
  | .vector2 v => do return .call (.type (.vector 2)) (← floatLiterals v.toList)
  | .vector3 v => do return .call (.type (.vector 3)) (← floatLiterals v.toList)
  | .vector4 v => do return .call (.type (.vector 4)) (← floatLiterals v.toList)
  | .matrix4x4 m => do return .call (.type (.matrix 4 4)) (← floatLiterals m.toList)
  | .matrix3x2 m => do return .call (.type (.matrix 3 2)) (← floatLiterals m.toList)
  | .record r values =>
    let node := (Value.record r values).spell
    if values.length ≠ r.fields.length then
      .error (.unsupportedAt (.literalFieldCount values.length r.fields.length) node)
    else do
      let args ← fieldLiterals names node r.fields values
      let name ← names.require r
      return .call (.type (.struct name)) args

def fieldLiterals (names : RecordNames) (node : String) (fields : List (String × ElementType)) :
    List Value → Except ComputeError (List Term)
  | [] => .ok []
  | v :: rest =>
    match fields with
    | [] => .ok []
    | (field, t) :: fields =>
      if t = .bool then .error (.unsupportedAt (.booleanLiteralField field) node)
      else do return (← literal names v) :: (← fieldLiterals names node fields rest)
end

end RecordNames
end ArrayQuery.Kernel
