import ArrayQuery.Error

/-! How queries are run: the size of workgroups, the queue pool, and where buffers are placed. -/

set_option autoImplicit false
namespace ArrayQuery

/-- Device memory that the host maps directly, or device storage that is reached by copies from and
to a mapped staging buffer. -/
inductive MemoryPlacement where
  | deviceLocalHostVisible
  | hostVisible
  deriving DecidableEq, Repr

namespace MemoryPlacement

def all : List MemoryPlacement := [deviceLocalHostVisible, hostVisible]

def name : MemoryPlacement → String
  | deviceLocalHostVisible => "device_local_host_visible"
  | hostVisible => "host_visible"

def constructorName : MemoryPlacement → String
  | deviceLocalHostVisible => "DeviceLocalHostVisible"
  | hostVisible => "HostVisible"

end MemoryPlacement

inductive AdapterPreference where
  | highPerformance
  | lowPower
  deriving DecidableEq, Repr

namespace AdapterPreference

def all : List AdapterPreference := [highPerformance, lowPower]

def name : AdapterPreference → String
  | highPerformance => "high_performance"
  | lowPower => "low_power"

end AdapterPreference

/-- The most preferred placement stands first. -/
structure Config where
  workgroupSize : Nat := 256
  queueSlots : Nat := 1
  memoryPreference : List MemoryPlacement := [.deviceLocalHostVisible, .hostVisible]
  adapter : AdapterPreference := .highPerformance
  label : String := "compute-query"
  deriving DecidableEq, Repr

namespace Config

def greatestWorkgroupSize : Nat := 1024

def fault? (c : Config) : Option ConfigError :=
  if c.workgroupSize = 0 ∨ greatestWorkgroupSize < c.workgroupSize then
    some (.workgroupSize greatestWorkgroupSize c.workgroupSize)
  else if c.queueSlots = 0 then some .noQueueSlots
  else if c.memoryPreference = [] then some .noMemoryPreference
  else none

def validate (c : Config) : Except ConfigError Unit :=
  match c.fault? with
  | some e => .error e
  | none => .ok ()

def withWorkgroupSize (c : Config) (size : Nat) : Config :=
  { c with workgroupSize := size }

def withQueueSlots (c : Config) (slots : Nat) : Config :=
  { c with queueSlots := slots }

def withMemoryPreference (c : Config) (preference : List MemoryPlacement) : Config :=
  { c with memoryPreference := preference }

end Config
end ArrayQuery
