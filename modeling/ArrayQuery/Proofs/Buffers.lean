import ArrayQuery.Device.Buffer

/-! What a call on one buffer comes to: the memory that the buffer has then, what the device has been
asked for, and each way in which the call can fail. -/

set_option autoImplicit false
namespace ArrayQuery

namespace DeviceState

def noting (d : DeviceState) (events : List Event) : DeviceState :=
  { d with events := d.events ++ events }

def countAllocation (d : DeviceState) : DeviceState :=
  { d with allocations := d.allocations + 1 }

def countMapping (d : DeviceState) : DeviceState :=
  { d with mappings := d.mappings + 1 }

end DeviceState

namespace DeviceM

variable {α β : Type} {m : DeviceM α} {f : α → DeviceM β} {d : DeviceState}

theorem bind_apply : (m >>= f) d = match m d with
    | .ok a after => f a after
    | .error e after => .error e after := by
  show EStateM.bind m f d = _
  unfold EStateM.bind
  cases m d <;> rfl

theorem pure_apply (a : α) : (pure a : DeviceM α) d = .ok a d := rfl

theorem throw_apply (e : ComputeError) : (throw e : DeviceM α) d = .error e d := rfl

theorem get_apply : (get : DeviceM DeviceState) d = .ok d d := rfl

theorem modify_apply (g : DeviceState → DeviceState) :
    (modify g : DeviceM PUnit) d = .ok ⟨⟩ (g d) := rfl

theorem log_apply (e : Event) : log e d = .ok () (d.noting [e]) := rfl

end DeviceM

/-- The buffers of the device that are behind a slot. -/
def Memory.behind (slot : Nat) (staged : Bool) : List Memory :=
  .storage slot :: if staged then [.staging slot] else []

def Allocation.new (p : MemoryPlacement) (size : Nat) : Allocation :=
  let zeros := List.replicate size 0
  ⟨p, zeros, if p == .hostVisible then some zeros else none⟩

theorem copyBytes_length {source target result : List UInt8} {start goal length : Nat}
    (copied : copyBytes source start target goal length = some result) :
    result.length = target.length := by
  unfold copyBytes at copied
  split at copied
  · cases copied
    simp only [List.length_append, List.length_take, List.length_drop]
    omega
  · cases copied

theorem copyElement_length {segments : List Segment} {source target result : List UInt8}
    (copied : copyElement source target segments = some result) : result.length = target.length := by
  induction segments generalizing target with
  | nil =>
    cases copied
    rfl
  | cons s rest ih =>
    unfold copyElement at copied
    cases first : copyBytes source s.host target s.device s.length with
    | none => simp [first] at copied
    | some middle =>
      simp only [first] at copied
      exact (ih copied).trans (copyBytes_length first)

theorem copyElements_length {segments : List Segment} {sourceStride targetStride count : Nat}
    {done source target result : List UInt8}
    (copied : copyElements segments sourceStride targetStride done source target count = some result) :
    result.length = done.length + target.length := by
  induction count generalizing done source target with
  | zero =>
    cases copied
    rw [List.length_append, List.length_reverse]
  | succ count ih =>
    unfold copyElements at copied
    cases first : copyElement (source.take sourceStride) (target.take targetStride) segments with
    | none => simp [first] at copied
    | some element =>
      simp only [first] at copied
      have own := copyElement_length first
      rw [ih copied, List.length_append, List.length_reverse, own, List.length_take, List.length_drop]
      omega

theorem copyAll_length {segments : List Segment} {sourceStride targetStride count : Nat}
    {source target result : List UInt8}
    (copied : copyAll segments sourceStride targetStride count source target = some result) :
    result.length = target.length := by
  unfold copyAll at copied
  split at copied
  · cases copied
    rfl
  · simpa using copyElements_length copied

theorem Layout.deviceToHost_length {l : Layout} {count : Nat} {device host result : List UInt8}
    (copied : l.deviceToHost count device host = some result) : result.length = host.length := by
  unfold deviceToHost at copied
  split at copied
  · exact copyBytes_length copied
  · exact copyAll_length copied

namespace Buffer

def memories (b : Buffer) : List Memory :=
  match b.allocation with
  | none => []
  | some a => Memory.behind b.slot a.staging.isSome

def room (b : Buffer) : List UInt8 :=
  List.replicate b.hostSize 0

def readBack (b : Buffer) (a : Allocation) : List UInt8 :=
  (b.layout.deviceToHost b.count (Allocation.view a) b.room).getD b.room

def written (b : Buffer) (a : Allocation) (host : HostArray) : Allocation :=
  Allocation.setView a
    ((b.layout.hostToDevice b.count host.bytes (Allocation.view a)).getD (Allocation.view a))

section Calls

variable {h : DeviceHandle} {b : Buffer} {d : DeviceState}

theorem displace_apply (b : Buffer) (d : DeviceState) :
    displace b d = .ok () (d.noting (b.memories.map .destroy)) := by
  unfold displace memories DeviceState.noting
  cases b.allocation with
  | none =>
    rw [List.map_nil, List.append_nil]
    rfl
  | some a =>
    obtain ⟨placement, storage, staging⟩ := a
    cases staging with
    | none => rfl
    | some bytes =>
      show EStateM.Result.ok () { d with events := d.events ++ [_] ++ [_] } = _
      rw [List.append_assoc]
      rfl

/-- Memory is taken only where it is within the limit, has a placement, and the device has some
left. What the buffer had before is freed last of all. -/
theorem allocate_apply : allocate h b d =
    if h.maxAllocation < b.alignedSize then
      .error (.device (.allocationTooLarge b.alignedSize h.maxAllocation)) d
    else match h.selectPlacement with
    | .error e => .error e d
    | .ok p =>
      let made := Memory.behind b.slot (p == .hostVisible)
      let created := made.map (.create · b.alignedSize)
      match h.device.allocationFailure (d.allocations + 1) with
      | some reason => .error (.device (.outOfDeviceMemory reason))
          (d.countAllocation.noting (created ++ made.map .destroy))
      | none => .ok { b with allocation := some (.new p b.alignedSize) }
          (d.countAllocation.noting (created ++ b.memories.map .destroy)) := by
  unfold allocate
  by_cases large : h.maxAllocation < b.alignedSize
  · simp only [large, if_true]
    rfl
  · simp only [large, if_false]
    cases h.selectPlacement with
    | error e => rfl
    | ok p =>
      -- The placement decides on the staging buffer, which is in both lists of events.
      cases failing : h.device.allocationFailure (d.allocations + 1) <;> cases p <;>
      · simp only [DeviceM.bind_apply, DeviceM.pure_apply, DeviceM.throw_apply, DeviceM.get_apply,
          DeviceM.modify_apply, DeviceM.log_apply, displace_apply, failing, beq_iff_eq, reduceCtorEq,
          if_true, if_false, DeviceState.noting, Memory.behind, List.append_assoc]
        rfl

theorem map_apply (m : Memory) (size : Nat) : map h m size d =
    match h.device.mapFailure (d.mappings + 1) with
    | some reason => .error (.device (.mapFailed reason)) d.countMapping
    | none => .ok () (d.countMapping.noting [.map m size]) := by
  unfold map
  cases failing : h.device.mapFailure (d.mappings + 1) <;>
  · simp only [DeviceM.bind_apply, DeviceM.get_apply, DeviceM.modify_apply, failing]
    rfl

theorem write_apply : write h b d =
    match b.allocation with
    | none => .error (.usage (.unallocatedBuffer b.slot)) d
    | some a => match b.host with
      | none => .error (.usage (.noHostData b.slot)) d
      | some host => match h.device.mapFailure (d.mappings + 1) with
        | some reason => .error (.device (.mapFailed reason)) d.countMapping
        | none => .ok { b with allocation := some (b.written a host) }
            (d.countMapping.noting [.map (b.mapped a) b.alignedSize]) := by
  unfold write allocated
  cases b.allocation with
  | none => rfl
  | some a =>
    cases b.host with
    | none => rfl
    | some host =>
      simp only [DeviceM.bind_apply, DeviceM.pure_apply, map_apply]
      cases h.device.mapFailure (d.mappings + 1) <;> rfl

theorem read_apply : read h b d =
    match b.allocation with
    | none => .error (.usage (.unallocatedBuffer b.slot)) d
    | some a => match h.device.mapFailure (d.mappings + 1) with
      | some reason => .error (.device (.mapFailed reason)) d.countMapping
      | none =>
        let after := d.countMapping.noting [.map (b.mapped a) b.alignedSize]
        match HostArray.ofBytes b.element (b.readBack a) with
        | .ok host => .ok { b with host := some host } after
        | .error e => .error e after := by
  unfold read allocated
  cases b.allocation with
  | none => rfl
  | some a =>
    simp only [DeviceM.bind_apply, DeviceM.pure_apply, map_apply]
    cases h.device.mapFailure (d.mappings + 1) with
    | some reason => rfl
    | none =>
      simp only [readBack, room]
      cases HostArray.ofBytes b.element _ <;> rfl

theorem release_apply (b : Buffer) (d : DeviceState) :
    b.release d = ({ b with allocation := none }, d.noting (b.memories.reverse.map .destroy)) := by
  obtain ⟨slot, element, count, direction, layout, host, allocation⟩ := b
  cases allocation with
  | none =>
    simp only [release, memories, DeviceState.noting, List.reverse_nil, List.map_nil, List.append_nil]
  | some a =>
    obtain ⟨placement, storage, staging⟩ := a
    cases staging <;> rfl

/-- What is read back is a whole number of elements, if the layout is that of the elements and an
element takes space. -/
theorem readBack_whole (layout : b.layout = .of b.element) (positive : 0 < b.element.hostStride)
    (a : Allocation) : ∃ host, HostArray.ofBytes b.element (b.readBack a) = .ok host := by
  have room : b.room.length = b.count * b.element.hostStride := by
    rw [Buffer.room, List.length_replicate, hostSize, layout]
    rfl
  have length : (b.readBack a).length = b.count * b.element.hostStride := by
    unfold readBack
    cases copied : b.layout.deviceToHost b.count (Allocation.view a) b.room with
    | none => exact room
    | some bytes => exact (Layout.deviceToHost_length copied).trans room
  -- The length is what counts; which bytes were copied does not matter here.
  unfold HostArray.ofBytes
  rw [dif_pos ⟨positive, b.count, length.trans (Nat.mul_comm _ _)⟩]
  exact ⟨_, rfl⟩

end Calls

end Buffer
end ArrayQuery
