import ArrayQuery.Kernel.Program

/-! Lambda bodies as kernel expressions. Translating a body may declare structs and bind arrays. -/

set_option autoImplicit false
namespace ArrayQuery.Kernel

structure Draft where
  records : RecordNames := {}
  structs : List Struct := []
  inputs : List Input := []
  lets : List Let := []
  /-- The values of the steps compiled so far. -/
  steps : List (Tag × Operand) := []
  /-- Conversions that are spelled with another type than their own. -/
  overrides : List (Tag × ElementType) := []
  /-- The length of the arrays in source position, once there is one. -/
  sourceCount : Option Nat := none

abbrev Compile := StateT Draft (Except ComputeError)

/-- What the parameters of a lambda stand for. -/
abbrev Scope := List (String × Operand)

namespace Compile

def refuse {α : Type} (node : Expr) (cause : Unsupported) : Compile α :=
  throw (.unsupportedAt cause node.spell)

def misuse {α : Type} (cause : Misuse) : Compile α :=
  throw (.usage cause)

def typeOf (t : ElementType) : Compile KernelType := do
  (← get).records.typeOf t

def addStruct (r : RecordType) (fields : List (String × KernelType)) : Compile Unit :=
  modify fun d =>
    let (name, records) := d.records.assign r
    { d with records := records, structs := d.structs ++ [⟨name, fields⟩] }

mutual
/-- Declares a record on first use, after the records in its fields. -/
def declare (node : Expr) : ElementType → Compile Unit
  | .leaf _ => pure ()
  | .record name fields => do
    match (← get).records.get? ⟨name, fields⟩ with
    | some _ => pure ()
    | none => addStruct ⟨name, fields⟩ (← declareFields node name fields)

def declareFields (node : Expr) (record : String) :
    List (String × ElementType) → Compile (List (String × KernelType))
  | [] => pure []
  | (field, t) :: rest => do
    if t = .bool then refuse node (.booleanField field record)
    declare node t
    let k ← typeOf t
    return (identifier field, k) :: (← declareFields node record rest)
end

def valueType (node : Expr) (t : ElementType) : Compile KernelType := do
  declare node t
  typeOf t

def storageType (node : Expr) (t : ElementType) : Compile KernelType := do
  declare node t
  (← get).records.storageOf t

/-- The slot of an array. Another use of the same array finds the slot of the first. -/
def bindArray (node : Expr) (a : SharedArray) : Compile Nat := do
  let inputs := (← get).inputs
  match inputs.findIdx? (·.tag == a.tag) with
  | some slot => return slot
  | none =>
    let storage ← storageType node a.data.element
    modify fun d => { d with inputs := d.inputs ++ [⟨a.tag, a.data, storage⟩] }
    return inputs.length

def override (tag : Tag) (t : ElementType) : Compile Unit :=
  modify fun d => { d with overrides := (tag, t) :: d.overrides }

/-- Arguments that are conversions to another type than the declared one are spelled with the
declared one. -/
def overrideArguments : List Expr → List ElementType → Compile Unit
  | .convert tag _ t :: args, p :: params => do
    if t ≠ p then override tag p
    overrideArguments args params
  | _ :: args, _ :: params => overrideArguments args params
  | _, _ => pure ()

def overrideCall (fn : MathFn) (args : List Expr) : Compile Unit :=
  match fn.signature? with
  | some (_, params) => overrideArguments args params
  | none => pure ()

/-- A conversion to double precision around a primitive with a declared signature is spelled with
the declared result. -/
def overrideWrapper (tag : Tag) (t : ElementType) : Expr → Compile Unit
  | .call fn args _ => do
    match fn.signature? with
    | some (returns, params) =>
      if t = .f64 ∧ returns ≠ t then override tag returns
      overrideArguments args params
    | none => pure ()
  | _ => pure ()

def follow (node : Expr) (container : ElementType) (member : String) :
    Compile (Access × ElementType) :=
  match accessOf container member, container.member? member with
  | some a, some t => do
    declare node t
    return (a, t)
  | _, _ => refuse node (.noMember container member)

/-- The type that a chain of members comes to. Every step of it is checked, the innermost first. -/
def chainType (node : Expr) : Expr → Compile ElementType
  | .member target name _ => do
    let container ← chainType node target
    return (← follow node container name).2
  | e => pure e.type

end Compile

def isPlace : Expr → Bool
  | .parameter _ | .member .. => true
  | _ => false

/-- The operand types that an operator is defined for, with the meaning that it has on the host. -/
def isOperatorDefined (op : BinaryOp) (l r : ElementType) : Bool :=
  let composite (t : ElementType) := t.isVector || t.isMatrix
  if l = r ∧ (l = .i32 ∨ l = .u32 ∨ l = .f32) then true
  else match op with
    | .add | .sub => decide (l = r) && composite l
    | .mul =>
      (decide (l = r) && l.isVector) ||
      (composite l && decide (r = .f32)) || (composite r && decide (l = .f32)) ||
      (decide (l = .matrix4x4) && decide (r = .matrix4x4)) ||
      (decide (l = .vector4) && decide (r = .matrix4x4))
    | .div => l.isVector && (decide (l = r) || decide (r = .f32))
    | .rem => false

open Compile in
mutual
def translate (scope : Scope) : Expr → Compile Term
  | node@(.constant v) => do
    declare node v.type
    (← get).records.literal v
  | node@(.parameter p) =>
    match scope.lookup p.name with
    | some operand => return operand.term
    | none => refuse node (.outOfScope p.name)
  | node@(.binary op l r _) => do
    if !isOperatorDefined op l.type r.type then
      refuse node (.noOperator l.type op.symbol r.type)
    -- The device holds matrices transposed, so that products are written the other way round.
    if op = .mul then
      let second ← translate scope r
      let first ← translate scope l
      return .binary op second first
    else
      let first ← translate scope l
      let second ← translate scope r
      return .binary op first second
  | node@(.negate e _) => do
    let t := e.type
    if t = .i32 ∨ t = .f32 ∨ t.isVector then return .negate (← translate scope e)
    else if t.isMatrix then return .negateMatrix (← translate scope e)
    else refuse node (.noNegation t)
  | node@(.convert tag e t) => do
    overrideWrapper tag t e
    let target := ((← get).overrides.lookup tag).getD t
    if !target.isScalar then refuse node (.notNumeric target)
    let k ← typeOf target
    return .call (.type k) [← translate scope e]
  | node@(.member target name _) => do
    let container ← chainType node target
    let (access, _) ← follow node container name
    let e ← translate scope target
    return .access (if isPlace target then e else .group e) access
  | node@(.index a i t) =>
    match a with
    | .array source => do
      let slot ← bindArray a source
      let e := Term.index slot (← translate scope i)
      return if t = .bool then .nonzero e else e
    | _ => refuse node .onlyCapturedIndexed
  | node@(.construct r args) => do
    if args.length ≠ r.fields.length then
      refuse node (.fieldCount r.name r.fields.length args.length)
    let k ← valueType node r.type
    return .call (.type k) (← translateAll scope args)
  | node@(.call fn args _) => do
    if args.length ≠ fn.arity then
      refuse node (.argumentCount fn.kernelName fn.arity args.length)
    overrideCall fn args
    return .call (.function fn) (← translateAll scope args)
  | node@(.select ..) => refuse node .nestedQuery
  | node@(.zip ..) => refuse node .nestedQuery
  | node@(.array _) => refuse node .wholeArray

def translateAll (scope : Scope) : List Expr → Compile (List Term)
  | [] => pure []
  | e :: rest => do
    let first ← translate scope e
    return first :: (← translateAll scope rest)
end

theorem translate_parameter {scope : Scope} {p : Parameter} {o : Operand}
    (found : scope.lookup p.name = some o) : translate scope (.parameter p) = pure o.term := by
  unfold translate
  simp only [found]

end ArrayQuery.Kernel
