import ArrayQuery.Device.Device
import ArrayQuery.Element.Array
import ArrayQuery.Element.Layout

/-! The buffers of a kernel: host data, and the device memory that carries it. -/

set_option autoImplicit false
namespace ArrayQuery

inductive Direction where
  | hostToDevice
  | deviceToHost
  deriving DecidableEq, Repr

def Direction.name : Direction → String
  | hostToDevice => "HostToDevice"
  | deviceToHost => "DeviceToHost"

structure Allocation where
  placement : MemoryPlacement
  storage : List UInt8
  staging : Option (List UInt8)
  deriving DecidableEq, Repr

structure Buffer where
  slot : Nat
  element : ElementType
  count : Nat
  direction : Direction
  layout : Layout
  /-- The data of an input, or of an output once it has been read back. -/
  host : Option HostArray
  allocation : Option Allocation
  deriving DecidableEq

def mapAlignment : Nat := 8

namespace Buffer

def input (slot : Nat) (a : HostArray) : Buffer :=
  ⟨slot, a.element, a.count, .hostToDevice, .of a.element, some a, none⟩

def output (slot : Nat) (element : ElementType) (count : Nat) : Buffer :=
  ⟨slot, element, count, .deviceToHost, .of element, none, none⟩

/-- The bytes of the elements in the device image. Sizes of buffers have no bound; up to what 64 bits
count they are those of the layout. -/
def deviceSize (b : Buffer) : Nat :=
  b.count * b.layout.deviceStride

def hostSize (b : Buffer) : Nat :=
  b.count * b.layout.hostStride

/-- The size of the allocation, which is never empty. -/
def alignedSize (b : Buffer) : Nat :=
  alignUp (max b.deviceSize deviceWord) mapAlignment

def padding (b : Buffer) : Nat :=
  b.alignedSize - b.deviceSize

def isInitialized (b : Buffer) : Bool :=
  b.allocation.isSome

def placement? (b : Buffer) : Option MemoryPlacement :=
  b.allocation.map Allocation.placement

def takeHost (b : Buffer) : Option HostArray × Buffer :=
  (b.host, { b with host := none })

def spell (b : Buffer) : String :=
  Text.labelled "BufferDescriptor" [
    ("slot", toString b.slot),
    ("element", b.element.spell),
    ("count", toString b.count),
    ("direction", b.direction.name),
    ("device_stride", toString b.layout.deviceStride),
    ("placement", match b.placement? with
      | none => "None"
      | some p => Text.applied "Some" [p.constructorName])]

def allocated (b : Buffer) : Except ComputeError Allocation :=
  match b.allocation with
  | some a => .ok a
  | none => .error (.usage (.unallocatedBuffer b.slot))

def mapped (b : Buffer) (a : Allocation) : Memory :=
  if a.staging.isSome then .staging b.slot else .storage b.slot

/-- Exactly the element data is bound, or all of the memory where there is none. -/
def boundSize (b : Buffer) : Nat :=
  if b.deviceSize = 0 then b.alignedSize else b.deviceSize

def binding (b : Buffer) : Except ComputeError Nat :=
  match b.allocated with
  | .ok _ => .ok b.boundSize
  | .error e => .error e

def displace (b : Buffer) : DeviceM Unit :=
  match b.allocation with
  | none => pure ()
  | some a => do
    DeviceM.log (.destroy (.storage b.slot))
    if a.staging.isSome then DeviceM.log (.destroy (.staging b.slot))

/-- Takes zeroed memory for the buffer, with a staging buffer unless storage is mapped directly.
Where that fails, the buffer keeps the memory it had. -/
def allocate (h : DeviceHandle) (b : Buffer) : DeviceM Buffer := do
  let size := b.alignedSize
  if h.maxAllocation < size then
    throw (.device (.allocationTooLarge size h.maxAllocation))
  let placement ← match h.selectPlacement with
    | .ok p => pure p
    | .error e => throw e
  let staged := placement == .hostVisible
  let n := (← get).allocations + 1
  modify fun s => { s with allocations := n }
  DeviceM.log (.create (.storage b.slot) size)
  if staged then DeviceM.log (.create (.staging b.slot) size)
  if let some reason := h.device.allocationFailure n then
    DeviceM.log (.destroy (.storage b.slot))
    if staged then DeviceM.log (.destroy (.staging b.slot))
    throw (.device (.outOfDeviceMemory reason))
  displace b
  let zeros := List.replicate size 0
  return { b with allocation := some ⟨placement, zeros, if staged then some zeros else none⟩ }

def map (h : DeviceHandle) (m : Memory) (size : Nat) : DeviceM Unit := do
  let n := (← get).mappings + 1
  modify fun s => { s with mappings := n }
  match h.device.mapFailure n with
  | some reason => throw (.device (.mapFailed reason))
  | none => DeviceM.log (.map m size)

def Allocation.view (a : Allocation) : List UInt8 :=
  a.staging.getD a.storage

def Allocation.setView (a : Allocation) (bytes : List UInt8) : Allocation :=
  match a.staging with
  | some _ => { a with staging := some bytes }
  | none => { a with storage := bytes }

def write (h : DeviceHandle) (b : Buffer) : DeviceM Buffer := do
  let a ← match b.allocated with
    | .ok a => pure a
    | .error e => throw e
  let host ← match b.host with
    | some host => pure host
    | none => throw (.usage (.noHostData b.slot))
  map h (b.mapped a) b.alignedSize
  let view := Allocation.view a
  let image := (b.layout.hostToDevice b.count host.bytes view).getD view
  return { b with allocation := some (Allocation.setView a image) }

def read (h : DeviceHandle) (b : Buffer) : DeviceM Buffer := do
  let a ← match b.allocated with
    | .ok a => pure a
    | .error e => throw e
  map h (b.mapped a) b.alignedSize
  let zeros := List.replicate b.hostSize 0
  let bytes := (b.layout.deviceToHost b.count (Allocation.view a) zeros).getD zeros
  match HostArray.ofBytes b.element bytes with
  | .ok host => return { b with host := some host }
  | .error e => throw e

/-- Frees the device memory, staging first; a buffer without memory stays as it is. -/
def release (b : Buffer) (s : DeviceState) : Buffer × DeviceState :=
  match b.allocation with
  | none => (b, s)
  | some a =>
    let freed := (if a.staging.isSome then [Event.destroy (.staging b.slot)] else []) ++
      [.destroy (.storage b.slot)]
    ({ b with allocation := none }, { s with events := s.events ++ freed })

end Buffer
end ArrayQuery
