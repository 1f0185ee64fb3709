import ArrayQuery.Device.Buffer

/-! One execution of a kernel: allocation, upload, dispatch and read back, each in its stage. -/

set_option autoImplicit false
namespace ArrayQuery

structure ShaderModule where
  entryPoint : String
  workgroupSize : Nat
  deriving DecidableEq, Repr

/-- What an execution needs: the buffers, in the order of their slots, and the kernel. -/
structure ExecutionContext where
  inputs : List Buffer
  output : Buffer
  shader : ShaderModule
  workgroupSize : Nat
  deriving DecidableEq

namespace ExecutionContext

/-- Enough workgroups for an invocation per element. -/
def workgroups (c : ExecutionContext) : Nat :=
  let size := max c.workgroupSize 1
  (c.output.count + size - 1) / size

def bindings (c : ExecutionContext) : Nat :=
  c.inputs.length + 1

end ExecutionContext

/-- A recorded command. Transfers are between the staging buffer and the storage of a slot. -/
inductive Command where
  | upload (slot : Nat)
  | dispatch (workgroups : Nat)
  | download (slot : Nat)
  deriving DecidableEq, Repr

/-- The slots of a bind group; kernels only read all but the last. -/
structure BindGroupLayout where
  entries : List (Nat × Bool)
  deriving DecidableEq, Repr

structure PipelineLayout where
  groups : List BindGroupLayout
  deriving DecidableEq, Repr

structure Pipeline where
  layout : PipelineLayout
  entryPoint : String
  deriving DecidableEq, Repr

structure BindGroup where
  layout : BindGroupLayout
  sizes : List Nat
  deriving DecidableEq, Repr

/-- Signalled when the submission of that number has been completed. -/
structure Fence where
  submission : Nat
  deriving DecidableEq, Repr

structure Engine where
  context : ExecutionContext
  stage : Stage := .created
  bindGroupLayout : Option BindGroupLayout := none
  pipelineLayout : Option PipelineLayout := none
  shader : Option ShaderModule := none
  pipeline : Option Pipeline := none
  bindGroup : Option BindGroup := none
  commands : Option (List Command) := none
  fence : Option Fence := none
  deriving DecidableEq

/-- Steps of an engine on a device. What has been done before an error stays. -/
abbrev EngineM := EStateM ComputeError (Engine × DeviceState)

namespace Engine

def getEngine : EngineM Engine := do
  return (← get).1

def modifyEngine (f : Engine → Engine) : EngineM Unit :=
  modify fun s => (f s.1, s.2)

def onDevice {α : Type} (x : DeviceM α) : EngineM α := fun s =>
  match x s.2 with
  | .ok a d => .ok a (s.1, d)
  | .error e d => .error e (s.1, d)

def orThrow {α : Type} : Except ComputeError α → EngineM α
  | .ok a => pure a
  | .error e => throw e

def expect (step : String) (required : Stage) : EngineM Unit := do
  let current := (← getEngine).stage
  if current ≠ required then throw (.usage (.wrongStage step required current))

def enter (stage : Stage) : EngineM Unit :=
  modifyEngine fun e => { e with stage := stage }

def setInputs (inputs : List Buffer) : EngineM Unit :=
  modifyEngine fun e => { e with context := { e.context with inputs := inputs } }

def setOutput (output : Buffer) : EngineM Unit :=
  modifyEngine fun e => { e with context := { e.context with output := output } }

/-- Applies a device call to the inputs one after the other. The ones before a failure keep what
the call made of them. -/
def eachInput (f : Buffer → DeviceM Buffer) : (done rest : List Buffer) → EngineM Unit
  | _, [] => pure ()
  | done, b :: rest => do
    let b ← onDevice (f b)
    setInputs (done ++ b :: rest)
    eachInput f (done ++ [b]) rest

def recordTransfer (b : Buffer) : EngineM (List Command) := do
  let a ← orThrow b.allocated
  if a.staging.isSome then
    match b.direction with
    | .hostToDevice =>
      onDevice (DeviceM.log (.copy (.staging b.slot) (.storage b.slot) b.alignedSize))
      return [.upload b.slot]
    | .deviceToHost =>
      onDevice (DeviceM.log (.copy (.storage b.slot) (.staging b.slot) b.alignedSize))
      return [.download b.slot]
  else return []

def recordTransfers : List Buffer → EngineM (List Command)
  | [] => pure []
  | b :: rest => do
    let first ← recordTransfer b
    return first ++ (← recordTransfers rest)

/-- Refuses what the device has no room for, before anything is allocated. -/
def checkLimits (h : DeviceHandle) (c : ExecutionContext) : Except ComputeError Unit :=
  let limits := h.device.limits
  if limits.bindings < c.bindings then .error (.device (.tooManyBindings c.bindings limits.bindings))
  else if limits.workgroups < c.workgroups then
    .error (.device (.dispatchTooLarge c.workgroups limits.workgroups))
  else .ok ()

def layoutOf (c : ExecutionContext) : BindGroupLayout :=
  ⟨c.inputs.map (fun b => (b.slot, true)) ++ [(c.output.slot, false)]⟩

/-- Makes the pipeline; the device may refuse the kernel only now. -/
def buildPipeline (h : DeviceHandle) : EngineM Unit := do
  let c := (← getEngine).context
  let layout := layoutOf c
  let pipelineLayout : PipelineLayout := ⟨[layout]⟩
  modifyEngine fun e => { e with
    bindGroupLayout := some layout
    pipelineLayout := some pipelineLayout
    shader := some c.shader
    pipeline := some ⟨pipelineLayout, c.shader.entryPoint⟩ }
  match h.device.pipelineFailure with
  | some diagnostic =>
    throw (.shaderCompile "pipeline creation rejected the kernel" diagnostic)
  | none => pure ()

def record : EngineM Unit := do
  let e ← getEngine
  let sizes ← orThrow ((e.context.inputs ++ [e.context.output]).mapM Buffer.binding)
  let layout ← match e.bindGroupLayout with
    | some layout => pure layout
    | none => throw (.usage .bindGroupLayoutMissing)
  let uploads ← recordTransfers e.context.inputs
  if e.pipeline.isNone then throw (.usage .pipelineMissing)
  onDevice (DeviceM.log (.dispatch e.context.workgroups e.context.bindings))
  let downloads ← recordTransfer e.context.output
  let commands := uploads ++ .dispatch e.context.workgroups :: downloads
  modifyEngine fun e => { e with bindGroup := some ⟨layout, sizes⟩, commands := some commands }

def setup (h : DeviceHandle) : EngineM Unit := do
  expect "gpu_setup" .created
  let c := (← getEngine).context
  orThrow (checkLimits h c)
  eachInput (Buffer.allocate h) [] c.inputs
  setOutput (← onDevice (Buffer.allocate h c.output))
  buildPipeline h
  record
  enter .configured

def transferInput (h : DeviceHandle) : EngineM Unit := do
  expect "gpu_transfer_input" .configured
  eachInput (Buffer.write h) [] (← getEngine).context.inputs
  enter .inputReady

/-- Copies between staging and storage of the buffer at a slot. -/
def transfer (slot : Nat) (f : Allocation → Allocation) (b : Buffer) : Buffer :=
  if b.slot = slot then { b with allocation := b.allocation.map f } else b

def boundBytes (b : Buffer) : List UInt8 :=
  match b.allocation with
  | some a => a.storage.take b.boundSize
  | none => []

def putBound (b : Buffer) (bytes : List UInt8) : Buffer :=
  { b with allocation := b.allocation.map fun a =>
      { a with storage := bytes ++ a.storage.drop bytes.length } }

def runCommand (device : Device) (c : ExecutionContext) : Command → ExecutionContext
  | .upload slot =>
    let f (a : Allocation) : Allocation := { a with storage := a.staging.getD a.storage }
    { c with inputs := c.inputs.map (transfer slot f), output := transfer slot f c.output }
  | .download slot =>
    let f (a : Allocation) : Allocation := { a with staging := a.staging.map fun _ => a.storage }
    { c with inputs := c.inputs.map (transfer slot f), output := transfer slot f c.output }
  | .dispatch _ =>
    let image := device.kernelRun (c.inputs.map boundBytes) (boundBytes c.output)
    { c with output := putBound c.output image }

/-- Waits for a free slot of the queue pool and takes it. A slot that others return while this call
waits is taken at once, and leaves the pool as it was. -/
def acquire (pool : QueuePool (Channel Unit)) : Except ComputeError (QueuePool (Channel Unit)) :=
  match pool.attempt with
  | .leased _ rest => .ok rest
  | .busy => .ok pool
  | .closed => .error (.device .queuePoolClosed)

def submit (device : Device) (commands : List Command) : EngineM Fence := do
  let (e, d) ← get
  let leased ← orThrow (acquire d.pool)
  let context := commands.foldl (runCommand device) e.context
  let n := d.submissions + 1
  set ({ e with context := context }, { d with pool := leased.release (), submissions := n })
  return ⟨n⟩

def execute (h : DeviceHandle) : EngineM Unit := do
  expect "gpu_execute" .inputReady
  let commands ← match (← getEngine).commands with
    | some commands => pure commands
    | none => throw (.usage .commandsSubmitted)
  modifyEngine fun e => { e with commands := none }
  let fence ← submit h.device commands
  modifyEngine fun e => { e with fence := some fence }
  enter .executed

def transferOutput (h : DeviceHandle) : EngineM Unit := do
  expect "gpu_transfer_output" .executed
  setOutput (← onDevice (Buffer.read h (← getEngine).context.output))
  enter .complete

def whenAt (stage : Stage) (step : EngineM Unit) : EngineM Unit := do
  if (← getEngine).stage = stage then step

def run (h : DeviceHandle) : EngineM Unit := do
  whenAt .created (setup h)
  whenAt .configured (transferInput h)
  whenAt .inputReady (execute h)
  whenAt .executed (transferOutput h)
  expect "run" .complete

/-- The result of a completed execution, once. -/
def takeOutput : EngineM HostArray := do
  expect "take_output" .complete
  let (host, output) := (← getEngine).context.output.takeHost
  setOutput output
  match host with
  | some a => return a
  | none => throw (.usage .outputTaken)

def releaseAll : List Buffer → DeviceState → List Buffer × DeviceState
  | [], d => ([], d)
  | b :: rest, d =>
    let (b, d) := b.release d
    let (rest, d) := releaseAll rest d
    (b :: rest, d)

/-- Frees everything that is held, in the reverse order of allocation. -/
def dispose (e : Engine) (d : DeviceState) : Engine × DeviceState :=
  if e.stage = .disposed then (e, d)
  else
    let (output, d) := e.context.output.release d
    let (inputs, d) := releaseAll e.context.inputs.reverse d
    let context := { e.context with inputs := inputs.reverse, output := output }
    ({ context := context, stage := .disposed }, d)

end Engine
end ArrayQuery
