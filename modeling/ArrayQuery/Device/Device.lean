import ArrayQuery.Config.Basic
import ArrayQuery.Device.Queue

/-! What a compute device offers, what can go wrong on it, and what has been asked of it. -/

set_option autoImplicit false
namespace ArrayQuery

structure Limits where
  bindings : Nat := 8
  workgroups : Nat := 65535
  bufferSize : Nat := 268435456
  bindingSize : Nat := 134217728
  deriving DecidableEq, Repr

/-- A device as its callers see it. Failures are given by the number of the call, from one; a run
of the kernel turns the bound bytes of the inputs and of the output into new bytes of the output. -/
structure Device where
  limits : Limits
  /-- Whether storage buffers can be mapped. -/
  mappable : Bool
  mapFailure : Nat → Option String
  allocationFailure : Nat → Option String
  pipelineFailure : Option String
  kernelRun : List (List UInt8) → List UInt8 → List UInt8

def Device.echo (limits : Limits) (mappable : Bool) (mapFailure : Nat → Option String) : Device where
  limits := limits
  mappable := mappable
  mapFailure := mapFailure
  allocationFailure _ := none
  pipelineFailure := none
  kernelRun inputs output :=
    let source := inputs.headD output
    source.take output.length ++ output.drop source.length

/-- The buffers of the device: a slot has storage, and may have a staging buffer. -/
inductive Memory where
  | storage (slot : Nat)
  | staging (slot : Nat)
  deriving DecidableEq, Repr

def Memory.label : Memory → String
  | storage slot => "buffer" ++ toString slot
  | staging slot => "staging" ++ toString slot

inductive Event where
  | create (m : Memory) (size : Nat)
  | map (m : Memory) (size : Nat)
  | destroy (m : Memory)
  | copy (source target : Memory) (size : Nat)
  | dispatch (workgroups bindings : Nat)
  deriving DecidableEq, Repr

def Event.text : Event → String
  | create m size => "create " ++ m.label ++ " " ++ toString size
  | map m size => "map " ++ m.label ++ " 0.." ++ toString size
  | destroy m => "destroy " ++ m.label
  | copy source target size =>
    "copy " ++ source.label ++ " to " ++ target.label ++ " " ++ toString size
  | dispatch workgroups bindings =>
    "dispatch [" ++ toString workgroups ++ ", 1, 1] over " ++ toString bindings ++ " bindings"

/-- The part of a device that changes. -/
structure DeviceState where
  pool : QueuePool (Channel Unit)
  events : List Event := []
  mappings : Nat := 0
  allocations : Nat := 0
  submissions : Nat := 0
  deriving DecidableEq, Repr

/-- Calls on a device. What has happened before an error stays. -/
abbrev DeviceM := EStateM ComputeError DeviceState

namespace DeviceM

def log (e : Event) : DeviceM Unit :=
  modify fun s => { s with events := s.events ++ [e] }

end DeviceM

structure DeviceHandle where
  device : Device
  config : Config
  placements : List MemoryPlacement

namespace DeviceHandle

/-- Device-local memory can be used only where storage buffers can be mapped. -/
def placementsOf (d : Device) : List MemoryPlacement :=
  (if d.mappable then [.deviceLocalHostVisible] else []) ++ [.hostVisible]

def ofDevice (d : Device) (c : Config) : Except ComputeError DeviceHandle :=
  match c.validate with
  | .error e => .error (.config e)
  | .ok () => .ok ⟨d, c, placementsOf d⟩

def initial (h : DeviceHandle) : DeviceState :=
  { pool := .new () h.config.queueSlots }

/-- The first of the preferred placements that is available. -/
def selectPlacement (h : DeviceHandle) : Except ComputeError MemoryPlacement :=
  match h.config.memoryPreference.find? h.placements.contains with
  | some p => .ok p
  | none => .error (.device .noSuitableMemoryType)

def maxAllocation (h : DeviceHandle) : Nat :=
  min h.device.limits.bufferSize h.device.limits.bindingSize

end DeviceHandle
end ArrayQuery
