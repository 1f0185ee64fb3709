import ArrayQuery.Proofs.Lexemes
import ArrayQuery.Tree.Expr

/-! The expressions and statements of kernel text, read off its lexemes. Accessors bind tightest, then
the unary minus, then products, then sums, then comparisons; equal ones group to the left. -/

set_option autoImplicit false
namespace ArrayQuery.Kernel

inductive Operator where
  | arithmetic (op : BinaryOp)
  | unequal
  deriving DecidableEq, Repr

def Operator.tightness : Operator → Nat
  | unequal => 0
  | arithmetic .add | arithmetic .sub => 1
  | arithmetic _ => 2

def Operator.ofLexeme? : Lexeme → Option Operator
  | .mark '+' => some (arithmetic .add)
  | .mark '-' => some (arithmetic .sub)
  | .mark '*' => some (arithmetic .mul)
  | .mark '/' => some (arithmetic .div)
  | .mark '%' => some (arithmetic .rem)
  | .pair '!' '=' => some unequal
  | _ => none

/-- An expression as it is written. A callee is a name, with the template argument if it has one. -/
inductive Form where
  | number (text : List Char)
  | name (name : String)
  | paren (e : Form)
  | index (e position : Form)
  | member (e : Form) (name : String)
  | negate (e : Form)
  | binary (op : Operator) (left right : Form)
  | call (callee : String) (args : List Form)

/-- What is pending around the expression that is being read. -/
inductive Frame where
  | paren
  | index (e : Form)
  /-- The arguments read so far, the last one first. -/
  | args (callee : String) (before : List Form)
  | negate
  | left (e : Form) (op : Operator)

def settle (tightness : Nat) : Form → List Frame → Form × List Frame
  | e, .negate :: frames => settle tightness (.negate e) frames
  | e, .left l op :: frames =>
    if tightness ≤ op.tightness then settle tightness (.binary op l e) frames
    else (e, .left l op :: frames)
  | e, frames => (e, frames)

inductive Reading where
  | operand (frames : List Frame)
  | after (e : Form) (frames : List Frame)
  | dot (e : Form) (frames : List Frame)
  | template (callee : String) (frames : List Frame)
  | templated (callee : String) (frames : List Frame)
  | callee (callee : String) (frames : List Frame)

namespace Reading

def close : Form × List Frame → Lexeme → Option Reading
  | (e, .paren :: frames), .mark ')' => some (after (.paren e) frames)
  | (e, .args f before :: frames), .mark ')' => some (after (.call f (before.reverse ++ [e])) frames)
  | (e, .args f before :: frames), .mark ',' => some (operand (.args f (e :: before) :: frames))
  | (e, .index a :: frames), .mark ']' => some (after (.index a e) frames)
  | _, _ => none

def step : Reading → Lexeme → Option Reading
  | operand frames, .number text => some (after (.number text) frames)
  | operand frames, .word name => some (after (.name name) frames)
  | operand frames, .mark '(' => some (operand (.paren :: frames))
  | operand frames, .mark '-' => some (operand (.negate :: frames))
  | operand (.args f [] :: frames), .mark ')' => some (after (.call f []) frames)
  | after e frames, .mark '.' => some (dot e frames)
  | after e frames, .mark '[' => some (operand (.index e :: frames))
  | after (.name f) frames, .mark '(' => some (operand (.args f [] :: frames))
  | after (.name f) frames, .mark '<' => some (template f frames)
  | after e frames, l =>
    match Operator.ofLexeme? l with
    | some op =>
      let settled := settle op.tightness e frames
      some (operand (.left settled.1 op :: settled.2))
    | none => close (settle 0 e frames) l
  | dot e frames, .word name => some (after (.member e name) frames)
  | template f frames, .word t => some (templated (f ++ "<" ++ t ++ ">") frames)
  | templated f frames, .mark '>' => some (callee f frames)
  | callee f frames, .mark '(' => some (operand (.args f [] :: frames))
  | _, _ => none

def finish : Reading → Option Form
  | after e frames =>
    match settle 0 e frames with
    | (e, []) => some e
    | _ => none
  | _ => none

end Reading

def readForm (ls : List Lexeme) : Option Form :=
  (ls.foldlM Reading.step (.operand [])).bind Reading.finish

def readExpression (text : String) : Option Form :=
  (lex text).bind readForm

inductive Statement where
  | bind (name type : String) (value : Form)
  | store (place value : Form)

def readType : List Lexeme → Option String
  | [.word t] => some t
  | [.word t, .mark '<', .word u, .mark '>'] => some (t ++ "<" ++ u ++ ">")
  | _ => none

def readStatement (ls : List Lexeme) : Option Statement :=
  let left := ls.takeWhile (· != .mark '=')
  match ls.dropWhile (· != .mark '=') with
  | [] => none
  | _ :: value =>
    match left with
    | keyword :: .word name :: .mark ':' :: type =>
      if keyword = .word "let" then
        (readType type).bind fun t => (readForm value).map (.bind name t ·)
      else none
    | _ => (readForm left).bind fun place => (readForm value).map (.store place ·)

/-- Statements up to the end of the text; `current` holds the lexemes since the last semicolon, the
last one first. -/
def readStatements (current : List Lexeme) : List Lexeme → Option (List Statement)
  | [] => if current.isEmpty then some [] else none
  | l :: rest =>
    if l = .mark ';' then
      (readStatement current.reverse).bind fun s => (readStatements [] rest).map (s :: ·)
    else readStatements (l :: current) rest

def readBody (text : String) : Option (List Statement) :=
  (lex text).bind (readStatements [])

end ArrayQuery.Kernel
