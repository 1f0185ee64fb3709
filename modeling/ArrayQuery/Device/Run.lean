import ArrayQuery.Device.Engine
import ArrayQuery.Kernel.Compile
import ArrayQuery.Tree.Builder

/-! Queries compiled, prepared for a device, and run on it. -/

set_option autoImplicit false
namespace ArrayQuery

/-- A kernel as text, with the buffers that its slots are bound to. -/
structure CompiledQuery where
  source : String
  inputs : List Buffer
  output : Buffer
  workgroupSize : Nat
  deriving DecidableEq

namespace CompiledQuery

def ofProgram (p : Kernel.Program) : CompiledQuery where
  source := p.text
  inputs := p.inputs.zipIdx.map fun i => .input i.2 i.1.array
  output := .output p.outputSlot p.result.type p.count
  workgroupSize := p.workgroupSize

def compile (c : Config) (root : Expr) : Except ComputeError CompiledQuery :=
  (Kernel.compile c.workgroupSize root).map ofProgram

end CompiledQuery

/-- Turns the text of a kernel into something the device takes, or refuses it. -/
abbrev ShaderCompiler := CompiledQuery → Except ComputeError ShaderModule

namespace ShaderCompiler

def accepting : ShaderCompiler := fun q =>
  .ok ⟨Kernel.entryPoint, q.workgroupSize⟩

def refusing : ShaderCompiler := fun q =>
  .error (.shaderCompile "refused" (toString q.source.utf8ByteSize ++ " bytes"))

end ShaderCompiler

namespace DeviceHandle

/-- Compiles a query all the way to what an engine executes. -/
def prepare (h : DeviceHandle) (compiler : ShaderCompiler) (root : Expr) :
    Except ComputeError ExecutionContext := do
  let q ← CompiledQuery.compile h.config root
  let shader ← compiler q
  return ⟨q.inputs, q.output, shader, q.workgroupSize⟩

def steps (h : DeviceHandle) : EngineM HostArray := do
  Engine.setup h
  Engine.transferInput h
  Engine.execute h
  Engine.transferOutput h
  Engine.takeOutput

/-- Runs the steps on a new engine, which is disposed whatever comes of them. -/
def runContext (h : DeviceHandle) (c : ExecutionContext) : DeviceM HostArray := fun d =>
  match (h.steps (({ context := c } : Engine), d)) with
  | .ok a (e, d) => .ok a (e.dispose d).2
  | .error err (e, d) => .error err (e.dispose d).2

/-- Runs a query. Where there are no elements the device is not used. -/
def executeWith (h : DeviceHandle) (compiler : ShaderCompiler) (root : Expr) : DeviceM HostArray := do
  let c ← match h.prepare compiler root with
    | .ok c => pure c
    | .error e => throw e
  if c.output.count = 0 then
    match HostArray.ofBytes c.output.element [] with
    | .ok a => return a
    | .error e => throw e
  else h.runContext c

def executeNode (h : DeviceHandle) (root : Expr) : DeviceM HostArray :=
  h.executeWith .accepting root

/-- Runs a query that is known to produce elements of a type; it is refused before anything else if
it produces others. -/
def execute (h : DeviceHandle) (requested : ElementType) (root : Expr) :
    DeviceM (List (List UInt8)) := do
  if requested ≠ root.type then throw (.usage (.resultElements root.type requested))
  let a ← h.executeNode root
  match a.elements requested with
  | .ok elements => return elements
  | .error e => throw e

/-- Runs a query for its elements as values of a host type, which has to be that of the elements. -/
def executeAs (h : DeviceHandle) (compiler : ShaderCompiler) (α : Type) [Element α] (root : Expr) :
    DeviceM (List α) := do
  if Element.type α ≠ root.type then
    throw (.usage (.resultElements root.type (Element.type α)))
  let a ← h.executeWith compiler root
  match a.toList α with
  | .ok vs => return vs
  | .error e => throw e

end DeviceHandle

def Query.elements (q : Query) (h : DeviceHandle) : DeviceM (List (List UInt8)) :=
  h.execute q.element q.node

end ArrayQuery
