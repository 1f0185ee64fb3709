import ArrayQuery.Kernel.Translate

/-! Query trees as kernels: each operator becomes one value, sources before what is built on them. -/

set_option autoImplicit false
namespace ArrayQuery.Kernel

namespace Compile

def bindSource (node : Expr) (a : SharedArray) : Compile Operand := do
  match (← get).sourceCount with
  | none => modify fun d => { d with sourceCount := some a.data.count }
  | some count =>
    if count ≠ a.data.count then misuse (.sourceLengths count a.data.count)
  let slot ← bindArray node a
  return ⟨.buffer slot, a.data.element⟩

/-- Of two parameters of one name the later one counts. -/
def scopeOf (params : List Parameter) (inputs : List Operand) : Scope :=
  ((params.map Parameter.name).zip inputs).reverse

/-- The value of an operator, from the values of its sources. -/
def emit (node : Expr) (tag : Tag) (params : List Parameter) (body : Expr)
    (inputs : List Operand) : Compile Operand := do
  if params.length ≠ inputs.length then
    misuse (.selectorParameters node.kind params.length inputs.length)
  let k ← valueType node body.type
  let value ← translate (scopeOf params inputs) body
  let d ← get
  let operand : Operand := ⟨.step (d.lets.length + 1), body.type⟩
  let next : Draft :=
    { d with lets := d.lets ++ [⟨k, value⟩], steps := (tag, operand) :: d.steps }
  set next
  return operand

/-- Compiles one link of the chain. A link that has been compiled before is not compiled again. -/
def step : Expr → Compile Operand
  | node@(.array a) => bindSource node a
  | node@(.select tag source params body) => do
    match (← get).steps.lookup tag with
    | some operand => return operand
    | none =>
      let input ← step source
      emit node tag params body [input]
  | node@(.zip tag first second params body) => do
    match (← get).steps.lookup tag with
    | some operand => return operand
    | none =>
      let a ← step first
      let b ← step second
      emit node tag params body [a, b]
  | node => refuse node (.sourceKind node.kind)

def root (node : Expr) : Compile (Operand × KernelType) := do
  if !node.isQuery then misuse (.noQuery node.kind)
  let result ← step node
  return (⟨result.target, node.type⟩, ← storageType node node.type)

end Compile

def compile (workgroupSize : Nat) (node : Expr) : Except ComputeError Program := do
  let ((result, storage), d) ← (Compile.root node).run {}
  return ⟨workgroupSize, d.structs, d.inputs, d.lets, result, storage⟩

end ArrayQuery.Kernel
