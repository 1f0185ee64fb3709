import ArrayQuery.Proofs.Integers

/-! The types of kernel expressions as they are read, by the rules of the kernel language: for each
operator and each accessor the operand types that it is defined for, and for each type the arguments
that a value of it is made from. -/

set_option autoImplicit false
namespace ArrayQuery.Kernel

/-- What an expression stands for: a value, an integer that takes on the type its place asks for, a
bound array, or the three indices of an invocation. -/
inductive FormType where
  | value (t : KernelType)
  | constant (n : Int)
  | array (element : KernelType)
  | indices
  deriving DecidableEq, Repr

namespace KernelType

def isNumeric : KernelType → Bool
  | i32 | u32 | f32 => true
  | _ => false

def isScalar (t : KernelType) : Bool :=
  t.isNumeric || t == bool

/-- The result of an arithmetic operator. A vector goes with a scalar component by component; the
columns of a matrix are as many as the vector on its right has components, and its rows as many as
the vector on its left has. -/
def arithmetic? (op : BinaryOp) (a b : KernelType) : Option KernelType :=
  match op, a, b with
  | _, vector n, vector m => if n = m then some (vector n) else none
  | _, vector n, f32 | _, f32, vector n => some (vector n)
  | .add, matrix c r, matrix d s | .sub, matrix c r, matrix d s =>
    if c = d ∧ r = s then some (matrix c r) else none
  | .mul, matrix c r, f32 | .mul, f32, matrix c r => some (matrix c r)
  | .mul, matrix c r, vector n => if n = c then some (vector r) else none
  | .mul, vector n, matrix c r => if n = r then some (vector c) else none
  | .mul, matrix c r, matrix d s => if c = s then some (matrix d r) else none
  | _, a, b => if a = b ∧ a.isNumeric = true then some a else none

def opposite? : KernelType → Option KernelType
  | i32 => some i32
  | f32 => some f32
  | vector n => some (vector n)
  | _ => none

/-- Whether a value of a type that the language has by itself can be made from the arguments. -/
def isMadeFrom : KernelType → List FormType → Bool
  | i32, [.constant n] => decide (-2147483648 ≤ n ∧ n < 2147483648)
  | u32, [.constant n] => decide (0 ≤ n ∧ n < 4294967296)
  | vector n, args => args == List.replicate n (.value f32)
  | matrix c r, args => args == List.replicate (c * r) (.value f32)
  | struct _, _ => false
  | _, [.value t] => t.isScalar
  | _, _ => false

def builtin : List KernelType := [
  bool, i32, u32, f32, vector 2, vector 3, vector 4, matrix 2 2, matrix 2 3, matrix 2 4, matrix 3 2,
  matrix 3 3, matrix 3 4, matrix 4 2, matrix 4 3, matrix 4 4]

end KernelType

namespace FormType

def operate? : Operator → FormType → FormType → Option FormType
  | .arithmetic op, value a, value b => (KernelType.arithmetic? op a b).map value
  | .unequal, value a, value b => if a = b ∧ a.isScalar = true then some (value .bool) else none
  | _, _, _ => none

def opposite? : FormType → Option FormType
  | value t => t.opposite?.map value
  | constant n => some (constant (-n))
  | _ => none

/-- Whether something can be taken at an index; an index that is known lies within the size. -/
def isIndex (size : Nat) : FormType → Bool
  | value t => t == .i32 || t == .u32
  | constant n => decide (0 ≤ n ∧ n < size)
  | _ => false

/-- What stands at an index. The parts of a matrix are its columns; nothing is known of the length
of an array. -/
def element? : FormType → FormType → Option FormType
  | array t, value i => if i = .i32 ∨ i = .u32 then some (value t) else none
  | value (.vector n), i => if i.isIndex n then some (value .f32) else none
  | value (.matrix c r), i => if i.isIndex c then some (value (.vector r)) else none
  | _, _ => none

end FormType

def componentNames : List String := ["x", "y", "z", "w"]

/-- What the names in an expression stand for. -/
structure Declarations where
  structs : List Struct
  values : List (String × FormType)

namespace Declarations

/-- The one struct of a name. Structs have members, whose names are all different. -/
def struct? (g : Declarations) (name : String) : Option Struct :=
  match g.structs.filter (·.name == name) with
  | [s] => if s.fields ≠ [] ∧ (s.fields.map Prod.fst).Nodup then some s else none
  | _ => none

/-- The type that a name stands for where it does not stand for a value. -/
def type? (g : Declarations) (name : String) : Option KernelType :=
  if (g.values.lookup name).isSome then none
  else (KernelType.builtin.find? (·.text == name)).or ((g.struct? name).map fun s => .struct s.name)

def makes (g : Declarations) : KernelType → List FormType → Bool
  | .struct name, args =>
    match g.struct? name with
    | some s => args == s.fields.map fun m => .value m.2
    | none => false
  | t, args => t.isMadeFrom args

def member? (g : Declarations) (member : String) : FormType → Option FormType
  | .value (.vector n) => if member ∈ componentNames.take n then some (.value .f32) else none
  | .value (.struct name) => do return .value (← (← g.struct? name).fields.lookup member)
  | .indices => if member ∈ componentNames.take 3 then some (.value .u32) else none
  | _ => none

end Declarations

/-- The type of a numeral, given by its suffix. One without a suffix is exact. -/
def numeralType? (text : List Char) : Option FormType :=
  match numeral? text with
  | some (.signed _) => some (.value .i32)
  | some (.unsigned _) => some (.value .u32)
  | none =>
    if text.getLast? = some 'f' then some (.value .f32)
    else (natural? text).map fun n => .constant n

namespace Form

mutual
def type? (g : Declarations) : Form → Option FormType
  | number text => numeralType? text
  | name n => if n = "true" ∨ n = "false" then some (.value .bool) else g.values.lookup n
  | paren e => e.type? g
  | negate e => do (← e.type? g).opposite?
  | binary op l r => do FormType.operate? op (← l.type? g) (← r.type? g)
  | index e position => do (← e.type? g).element? (← position.type? g)
  | member e n => do g.member? n (← e.type? g)
  | call callee args => do
    let t ← g.type? callee
    if g.makes t (← typeAll? g args) then some (.value t) else none

def typeAll? (g : Declarations) : List Form → Option (List FormType)
  | [] => some []
  | e :: rest => do return (← e.type? g) :: (← typeAll? g rest)
end

end Form

/-- Whether names that stand for something go on standing for it. -/
structure Declarations.Extends (g h : Declarations) : Prop where
  values : ∀ name t, g.values.lookup name = some t → h.values.lookup name = some t
  types : ∀ name t, g.type? name = some t → h.type? name = some t
  structs : ∀ name s, g.struct? name = some s → h.struct? name = some s

namespace Declarations.Extends

variable {g h : Declarations} (more : g.Extends h)
include more

theorem member? {name : String} {t u : FormType} (found : g.member? name t = some u) :
    h.member? name t = some u := by
  unfold Declarations.member? at found ⊢
  split at found
  · exact found
  · next n =>
    obtain ⟨s, known, member⟩ := Option.bind_eq_some_iff.mp found
    rw [more.structs n s known]
    exact member
  · exact found
  · exact nomatch found

theorem makes {t : KernelType} {args : List FormType} (made : g.makes t args = true) :
    h.makes t args = true := by
  cases t with
  | struct name =>
    cases known : g.struct? name with
    | none =>
      rw [Declarations.makes, known] at made
      exact absurd made Bool.false_ne_true
    | some s =>
      rw [Declarations.makes, known] at made
      rw [Declarations.makes, more.structs name s known]
      exact made
  | _ => exact made

end Declarations.Extends

mutual
theorem Form.type?_extends {g h : Declarations} (more : g.Extends h) : ∀ (e : Form) (t : FormType),
    e.type? g = some t → e.type? h = some t
  | .number _, _, found => found
  | .name n, t, found => by
    rw [Form.type?] at found ⊢
    split at found
    · next keyword => rwa [if_pos keyword]
    · next other =>
      rw [if_neg other]
      exact more.values n t found
  | .paren e, t, found => Form.type?_extends more e t found
  | .negate e, t, found => by
    obtain ⟨u, inner, last⟩ := Option.bind_eq_some_iff.mp found
    rw [Form.type?, Form.type?_extends more e u inner]
    exact last
  | .binary op l r, t, found => by
    obtain ⟨u, left, rest⟩ := Option.bind_eq_some_iff.mp found
    obtain ⟨v, right, last⟩ := Option.bind_eq_some_iff.mp rest
    rw [Form.type?, Form.type?_extends more l u left, Form.type?_extends more r v right]
    exact last
  | .index e position, t, found => by
    obtain ⟨u, whole, rest⟩ := Option.bind_eq_some_iff.mp found
    obtain ⟨v, place, last⟩ := Option.bind_eq_some_iff.mp rest
    rw [Form.type?, Form.type?_extends more e u whole, Form.type?_extends more position v place]
    exact last
  | .member e n, t, found => by
    obtain ⟨u, inner, last⟩ := Option.bind_eq_some_iff.mp found
    rw [Form.type?, Form.type?_extends more e u inner]
    exact more.member? last
  | .call callee args, t, found => by
    obtain ⟨k, named, rest⟩ := Option.bind_eq_some_iff.mp found
    obtain ⟨ts, typed, last⟩ := Option.bind_eq_some_iff.mp rest
    rw [Form.type?, more.types callee k named, Form.typeAll?_extends more args ts typed]
    change (if g.makes k ts = true then _ else _) = _ at last
    change (if h.makes k ts = true then _ else _) = _
    split at last
    · next made => rwa [if_pos (more.makes made)]
    · exact nomatch last

theorem Form.typeAll?_extends {g h : Declarations} (more : g.Extends h) : ∀ (es : List Form)
    (ts : List FormType), Form.typeAll? g es = some ts → Form.typeAll? h es = some ts
  | [], _, found => found
  | e :: es, ts, found => by
    obtain ⟨u, first, rest⟩ := Option.bind_eq_some_iff.mp found
    obtain ⟨us, others, last⟩ := Option.bind_eq_some_iff.mp rest
    rw [Form.typeAll?, Form.type?_extends more e u first, Option.bind_eq_bind, Option.bind_some,
      Form.typeAll?_extends more es us others]
    exact last
end

end ArrayQuery.Kernel
