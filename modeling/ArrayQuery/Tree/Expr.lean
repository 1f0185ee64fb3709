import ArrayQuery.Element.Array
import ArrayQuery.Element.Value

/-! Trees of query operators and the expressions of their lambda bodies. -/

set_option autoImplicit false
namespace ArrayQuery

inductive BinaryOp where
  | add
  | sub
  | mul
  | div
  | rem
  deriving DecidableEq, Repr

def BinaryOp.symbol : BinaryOp → String
  | add => "+"
  | sub => "-"
  | mul => "*"
  | div => "/"
  | rem => "%"

inductive MathFn where
  | sin
  | cos
  | tan
  | asin
  | acos
  | atan
  | abs
  | clamp
  | lerp
  | pow
  | exp
  | log
  | floor
  | ceiling
  | round
  | dot
  | cross
  | length
  | distance
  deriving DecidableEq, Repr

namespace MathFn

def all : List MathFn :=
  [sin, cos, tan, asin, acos, atan, abs, clamp, lerp, pow, exp, log, floor, ceiling, round, dot,
   cross, length, distance]

def name : MathFn → String
  | sin => "Sin"
  | cos => "Cos"
  | tan => "Tan"
  | asin => "Asin"
  | acos => "Acos"
  | atan => "Atan"
  | abs => "Abs"
  | clamp => "Clamp"
  | lerp => "Lerp"
  | pow => "Pow"
  | exp => "Exp"
  | log => "Log"
  | floor => "Floor"
  | ceiling => "Ceiling"
  | round => "Round"
  | dot => "Dot"
  | cross => "Cross"
  | length => "Length"
  | distance => "Distance"

def kernelName : MathFn → String
  | sin => "sin"
  | cos => "cos"
  | tan => "tan"
  | asin => "asin"
  | acos => "acos"
  | atan => "atan"
  | abs => "abs"
  | clamp => "clamp"
  | lerp => "mix"
  | pow => "pow"
  | exp => "exp"
  | log => "log"
  | floor => "floor"
  | ceiling => "ceil"
  | round => "round"
  | dot => "dot"
  | cross => "cross"
  | length => "length"
  | distance => "distance"

def arity : MathFn → Nat
  | clamp | lerp => 3
  | pow | dot | cross | distance => 2
  | _ => 1

/-- The result of the primitives that reduce vectors, or are made for one kind of vector. -/
def result? : MathFn → Option ElementType
  | dot | length | distance => some .f32
  | cross => some .vector3
  | _ => none

/-- Result and parameters of the primitives that are double precision on the host. A conversion
around such a call, or of one of its arguments, is to the declared type. -/
def signature? : MathFn → Option (ElementType × List ElementType)
  | sin | cos | tan | asin | acos | atan | log | floor | ceiling | round | exp =>
    some (.f32, [.f32])
  | pow => some (.f32, [.f32, .f32])
  | _ => none

end MathFn

structure Parameter where
  name : String
  type : ElementType
  deriving DecidableEq, Repr

/-- A node carries its type, which nothing here infers. Nodes are shared: a tag stands for the
identity of the nodes that are looked up by it, the query steps and the conversions. -/
inductive Expr where
  | constant (value : Value)
  | array (source : SharedArray)
  | parameter (p : Parameter)
  | select (tag : Tag) (source : Expr) (params : List Parameter) (body : Expr)
  | zip (tag : Tag) (first second : Expr) (params : List Parameter) (body : Expr)
  | binary (op : BinaryOp) (left right : Expr) (type : ElementType)
  | negate (operand : Expr) (type : ElementType)
  | convert (tag : Tag) (operand : Expr) (type : ElementType)
  | member (target : Expr) (name : String) (type : ElementType)
  | index (array position : Expr) (type : ElementType)
  | construct (record : RecordType) (args : List Expr)
  | call (fn : MathFn) (args : List Expr) (type : ElementType)

namespace Expr

def type : Expr → ElementType
  | constant v => v.type
  | array a => a.data.element
  | parameter p => p.type
  | select _ _ _ body | zip _ _ _ _ body => body.type
  | binary _ _ _ t | negate _ t | convert _ _ t | member _ _ t | index _ _ t | call _ _ t => t
  | construct r _ => r.type

def isQuery : Expr → Bool
  | select .. | zip .. => true
  | _ => false

def isConstant : Expr → Bool
  | constant _ => true
  | _ => false

def kind : Expr → String
  | constant _ => "constant"
  | array _ => "array"
  | parameter _ => "parameter"
  | select .. => "select"
  | zip .. => "zip"
  | binary .. => "binary"
  | negate .. => "negate"
  | convert .. => "convert"
  | member .. => "member"
  | index .. => "index"
  | construct .. => "new"
  | call .. => "call"

def spellParams (params : List Parameter) : String :=
  "(" ++ ", ".intercalate (params.map Parameter.name) ++ ") => "

mutual
/-- The written form of a tree, as error messages quote it. -/
def spell : Expr → String
  | constant v => v.spell
  | array a => a.data.spell
  | parameter p => p.name
  | select _ source params body =>
    source.spell ++ ".select(" ++ spellParams params ++ body.spell ++ ")"
  | zip _ first second params body =>
    first.spell ++ ".zip(" ++ second.spell ++ ", " ++ spellParams params ++ body.spell ++ ")"
  | binary op l r _ => "(" ++ l.spell ++ " " ++ op.symbol ++ " " ++ r.spell ++ ")"
  | negate e _ => "-" ++ e.spell
  | convert _ e t => "(" ++ t.name ++ ")" ++ e.spell
  | member e name _ => e.spell ++ "." ++ name
  | index a i _ => a.spell ++ "[" ++ i.spell ++ "]"
  | construct r args => "new " ++ r.name ++ Text.listed (spellAll args)
  | call fn args _ => fn.name ++ Text.listed (spellAll args)

def spellAll : List Expr → List String
  | [] => []
  | e :: rest => e.spell :: spellAll rest
end

end Expr
end ArrayQuery
