import ArrayQuery.Kernel.Compile
import ArrayQuery.Proofs.Readable

/-! The 32-bit integers of queries and of kernels: what a query computes from its arrays, element by
element, and what the statements of a kernel's body store. Both wrap around. -/

set_option autoImplicit false
namespace ArrayQuery

inductive Word where
  | signed (n : Int32)
  | unsigned (n : UInt32)
  deriving DecidableEq, Repr

namespace Word

def leaf : Word → Leaf
  | signed _ => .i32
  | unsigned _ => .u32

def operate? : BinaryOp → Word → Word → Option Word
  | .add, signed a, signed b => some (signed (a + b))
  | .sub, signed a, signed b => some (signed (a - b))
  | .mul, signed a, signed b => some (signed (a * b))
  | .add, unsigned a, unsigned b => some (unsigned (a + b))
  | .sub, unsigned a, unsigned b => some (unsigned (a - b))
  | .mul, unsigned a, unsigned b => some (unsigned (a * b))
  | _, _, _ => none

def negate? : Word → Option Word
  | signed a => some (signed (-a))
  | unsigned _ => none

def toSigned : Word → Int32
  | signed a => a
  | unsigned a => a.toInt32

def toUnsigned : Word → UInt32
  | signed a => a.toUInt32
  | unsigned a => a

def convert? : ElementType → Word → Option Word
  | .i32, w => some (signed w.toSigned)
  | .u32, w => some (unsigned w.toUnsigned)
  | _, _ => none

end Word

def HostArray.word? (a : HostArray) (j : Nat) : Option Word :=
  match a.element with
  | .i32 => (Element.decodeAll Int32 a.bytes)[j]?.map .signed
  | .u32 => (Element.decodeAll UInt32 a.bytes)[j]?.map .unsigned
  | _ => none

namespace Expr

def word? (bindings : List (String × Word)) : Expr → Option Word
  | constant (.i32 n) => some (.signed n)
  | constant (.u32 n) => some (.unsigned n)
  | parameter p => bindings.lookup p.name
  | binary op l r _ => do (← l.word? bindings).operate? op (← r.word? bindings)
  | negate e _ => do (← e.word? bindings).negate?
  | convert _ e t => do (← e.word? bindings).convert? t
  | index (array a) i _ => do a.data.word? (← i.word? bindings).toUnsigned.toNat
  | _ => none

def wordAt (i : Nat) : Expr → Option Word
  | array a => a.data.word? i
  | select _ source params body => do
    body.word? ((params.map Parameter.name).zip [← source.wordAt i])
  | zip _ first second params body => do
    body.word? ((params.map Parameter.name).zip [← first.wordAt i, ← second.wordAt i])
  | _ => none

/-- Whether all indices that a body takes lie within their arrays. -/
def InRange (bindings : List (String × Word)) : Expr → Prop
  | binary _ l r _ => l.InRange bindings ∧ r.InRange bindings
  | negate e _ | convert _ e _ => e.InRange bindings
  | index (array a) i _ => i.InRange bindings ∧
    ∀ w, i.word? bindings = some w → w.toUnsigned.toNat < a.data.count
  | _ => True

def InRangeAt (i : Nat) : Expr → Prop
  | select _ source params body => source.InRangeAt i ∧
    ∀ v, source.wordAt i = some v → body.InRange ((params.map Parameter.name).zip [v])
  | zip _ first second params body => first.InRangeAt i ∧ second.InRangeAt i ∧
    ∀ v w, first.wordAt i = some v → second.wordAt i = some w →
      body.InRange ((params.map Parameter.name).zip [v, w])
  | _ => True

end Expr

def ElementType.isInteger (t : ElementType) : Bool :=
  t == .i32 || t == .u32

namespace Expr

/-- Bodies over 32-bit integers whose nodes carry their types. -/
def IsInteger (params : List Parameter) : Expr → Prop
  | constant (.i32 _) | constant (.u32 _) => True
  | parameter p => p ∈ params
  | binary op l r t => (op = .add ∨ op = .sub ∨ op = .mul) ∧ l.IsInteger params ∧
    r.IsInteger params ∧ l.type = t ∧ r.type = t
  | negate e t => e.IsInteger params ∧ e.type = .i32 ∧ t = .i32 ∧ e.isNegativeLiteral = false
  | convert _ e t => e.IsInteger params ∧ t.isInteger = true
  | index (array a) i t => a.data.element = t ∧ t.isInteger = true ∧ i.IsInteger params ∧
    i.type = .u32
  | _ => False

/-- Queries over arrays of 32-bit integers with such bodies. -/
def IsIntegerQuery : Expr → Prop
  | array a => a.data.element.isInteger = true
  | select _ source params body => source.IsIntegerQuery ∧
    ∃ p, params = [p] ∧ p.type = source.type ∧ body.IsInteger [p]
  | zip _ first second params body => first.IsIntegerQuery ∧ second.IsIntegerQuery ∧
    ∃ p q, params = [p, q] ∧ p.type = first.type ∧ q.type = second.type ∧ p.name ≠ q.name ∧
      body.IsInteger [p, q]
  | _ => False

def stepTag? : Expr → Option Tag
  | select tag .. | zip tag .. => some tag
  | _ => none

/-- The operators of a query, those that are shared once for each use. -/
def queries : Expr → List Expr
  | select tag source params body => select tag source params body :: source.queries
  | zip tag first second params body =>
    zip tag first second params body :: (first.queries ++ second.queries)
  | _ => []

/-- Whether operators with one tag are one operator, and arrays with one tag one array, as it is where
tags stand for identities. -/
structure Faithful (root : Expr) : Prop where
  queries : ∀ a ∈ root.queries, ∀ b ∈ root.queries, a.stepTag? = b.stepTag? → a = b
  arrays : ∀ a ∈ root.arrays, ∀ b ∈ root.arrays, a.tag = b.tag → a = b

end Expr

namespace Kernel

/-! ## Bodies of kernels -/

structure Store where
  buffer : String
  position : Nat
  value : Word
  deriving DecidableEq, Repr

/-- What the statements of a body see, and what they have done. The buffer that is stored to is not
read. -/
structure Invocation where
  index : Nat
  buffers : List (String × HostArray)
  values : List (String × Word) := []
  stores : List Store := []

def natural? (digits : List Char) : Option Nat :=
  if digits ≠ [] ∧ digits.all Char.isDigit = true then some (Nat.ofDigitChars 10 digits 0) else none

def numeral? (text : List Char) : Option Word :=
  match text.getLast?, natural? text.dropLast with
  | some 'i', some n => if n < 2147483648 then some (.signed (Int32.ofNat n)) else none
  | some 'u', some n => if n < UInt32.size then some (.unsigned (UInt32.ofNat n)) else none
  | _, _ => none

namespace Form

def integer? : Form → Option Int
  | number text => (natural? text).map Int.ofNat
  | negate e => e.integer?.map (- ·)
  | _ => none

def word? (s : Invocation) : Form → Option Word
  | number text => numeral? text
  | name n => s.values.lookup n
  | paren e => e.word? s
  | negate e => do (← e.word? s).negate?
  | binary (.arithmetic op) l r => do (← l.word? s).operate? op (← r.word? s)
  | index (name buffer) (member (name "gid") "x") => do
    (← s.buffers.lookup buffer).word? s.index
  | index (name buffer) position => do
    match ← position.word? s with
    | .unsigned j => (← s.buffers.lookup buffer).word? j.toNat
    | .signed _ => none
  | call callee [e] =>
    if callee = "i32" then
      match e.integer? with
      | some n => if -2147483648 ≤ n ∧ n < 2147483648 then some (.signed (Int32.ofInt n)) else none
      | none => do return .signed (← e.word? s).toSigned
    else if callee = "u32" then do return .unsigned (← e.word? s).toUnsigned
    else none
  | _ => none

theorem word?_number (s : Invocation) (text : List Char) : (number text).word? s = numeral? text := by
  rw [word?]

def place? (s : Invocation) : Form → Option (String × Nat)
  | index (name buffer) (member (name "gid") "x") => some (buffer, s.index)
  | _ => none

end Form

/-- A declared value has the type that is written with it. -/
def Statement.exec (s : Invocation) : Statement → Option Invocation
  | bind name type value => do
    let w ← value.word? s
    if w.leaf.name = type then some { s with values := (name, w) :: s.values } else none
  | store place value => do
    let (buffer, j) ← place.place? s
    let w ← value.word? s
    return { s with stores := s.stores ++ [⟨buffer, j, w⟩] }

def exec (statements : List Statement) (s : Invocation) : Option Invocation :=
  statements.foldlM Statement.exec s

def namedBuffers (inputs : List Input) : List (String × HostArray) :=
  inputs.zipIdx.map fun i => (Program.bufferName i.2, i.1.array)

def Program.invocation (p : Program) (i : Nat) : Invocation :=
  { index := i, buffers := namedBuffers p.inputs }

def Program.stores (p : Program) (i : Nat) : Option (List Store) := do
  let statements ← readBody p.bodyText
  return (← exec statements (p.invocation i)).stores

end Kernel
end ArrayQuery
