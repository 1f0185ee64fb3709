import ArrayQuery.Proofs.Bindings
import ArrayQuery.Proofs.Copies
import ArrayQuery.Proofs.Coverage
import ArrayQuery.Proofs.Disposal
import ArrayQuery.Proofs.HostArrays

/-! What a run returns. The kernel sees the data of the inputs, whatever the placement of the buffers,
and the result is read from what it leaves in the output. Where there are no elements the device is
left alone. -/

set_option autoImplicit false
namespace ArrayQuery

namespace Expr

/-- Whether a query has sources, all of that length. -/
structure HasLength (root : Expr) (n : Nat) : Prop where
  nonempty : root.sources ≠ []
  counts : ∀ source ∈ root.sources, source.data.count = n

theorem HasLength.unique {root : Expr} {n m : Nat} (first : root.HasLength n)
    (second : root.HasLength m) : n = m := by
  obtain ⟨source, member⟩ := List.exists_mem_of_ne_nil _ first.nonempty
  exact (first.counts source member).symm.trans (second.counts source member)

end Expr

namespace Buffer

/-- What the memory of a buffer holds once the host has written its data, if it has any. -/
def image (b : Buffer) : List UInt8 :=
  let zeros := List.replicate b.alignedSize 0
  match b.host with
  | some a => (b.layout.hostToDevice b.count a.bytes zeros).getD zeros
  | none => zeros

def housed (p : MemoryPlacement) (b : Buffer) : Buffer :=
  { b with allocation := some (.new p b.alignedSize) }

def loaded (p : MemoryPlacement) (b : Buffer) : Buffer :=
  { b with allocation := some (Allocation.setView (.new p b.alignedSize) b.image) }

def settled (b : Buffer) : Buffer :=
  { b with allocation := b.allocation.map fun a => { a with storage := Allocation.view a } }

def transfers (b : Buffer) : List Command :=
  match b.allocation with
  | none => []
  | some a =>
    if a.staging.isSome then
      match b.direction with
      | .hostToDevice => [.upload b.slot]
      | .deviceToHost => [.download b.slot]
    else []

variable {h : DeviceHandle} {b b' : Buffer} {d d' : DeviceState} {p : MemoryPlacement}

theorem allocate_ok (ran : allocate h b d = .ok b' d') :
    ∃ p, h.selectPlacement = .ok p ∧ b' = b.housed p := by
  rw [allocate_apply] at ran
  split at ran
  · cases ran
  · cases placed : h.selectPlacement with
    | error e => simp [placed] at ran
    | ok p =>
      simp only [placed] at ran
      split at ran
      · cases ran
      · cases ran
        exact ⟨p, rfl, rfl⟩

theorem view_new (p : MemoryPlacement) (size : Nat) :
    Allocation.view (.new p size) = List.replicate size 0 := by
  cases p <;> rfl

theorem write_ok (supplied : b.host.isSome = true) (ran : write h (b.housed p) d = .ok b' d') :
    b' = b.loaded p := by
  rw [write_apply] at ran
  cases data : b.host with
  | none => simp [data] at supplied
  | some host =>
    simp only [housed, data] at ran
    split at ran
    · cases ran
    · cases ran
      simp only [written, loaded, image, data, view_new]

theorem boundBytes_settled (p : MemoryPlacement) (b : Buffer) :
    Engine.boundBytes (b.loaded p).settled = b.image.take b.boundSize := by
  cases p <;> rfl

theorem settled_settled (b : Buffer) : b.settled.settled = b.settled := by
  obtain ⟨slot, element, count, direction, layout, host, allocation⟩ := b
  cases allocation with
  | none => rfl
  | some a =>
    obtain ⟨placement, storage, staging⟩ := a
    cases staging <;> rfl

theorem settled_housed (p : MemoryPlacement) (b : Buffer) :
    (b.housed p).settled = b.housed p := by
  cases p <;> rfl

theorem settled_direct (b : Buffer) :
    (b.loaded .deviceLocalHostVisible).settled = b.loaded .deviceLocalHostVisible := rfl

def settledAt (slots : List Nat) (b : Buffer) : Buffer :=
  if b.slot ∈ slots then b.settled else b

theorem settledAt_cons (slot : Nat) (slots : List Nat) (b : Buffer) :
    settledAt slots (settledAt [slot] b) = settledAt (slot :: slots) b := by
  by_cases same : b.slot = slot
  · have here : settledAt [slot] b = b.settled := if_pos (by simp [same])
    rw [here, settledAt, settledAt, if_pos (show b.slot ∈ slot :: slots by simp [same])]
    -- Whether the slot is there again does not matter.
    split
    · exact settled_settled b
    · rfl
  · have here : settledAt [slot] b = b := if_neg (by simp [same])
    rw [here]
    simp only [settledAt, List.mem_cons, same, false_or]

end Buffer

/-! ## Commands -/

namespace ExecutionContext

/-- What the storage of the output holds after the kernel has run over the data of the inputs. -/
def outcome (device : Device) (c : ExecutionContext) : List UInt8 :=
  let zeros := List.replicate c.output.alignedSize 0
  let bytes := device.kernelRun (c.inputs.map fun b => b.image.take b.boundSize)
    (zeros.take c.output.boundSize)
  bytes ++ zeros.drop bytes.length

def recorded (c : ExecutionContext) : List Command :=
  c.inputs.flatMap Buffer.transfers ++ .dispatch c.workgroups :: c.output.transfers

def housed (p : MemoryPlacement) (c : ExecutionContext) : ExecutionContext :=
  { c with inputs := c.inputs.map (Buffer.housed p), output := c.output.housed p }

def loaded (p : MemoryPlacement) (c : ExecutionContext) : ExecutionContext :=
  { c with inputs := c.inputs.map (Buffer.loaded p), output := c.output.housed p }

/-- Whether the buffers go the way that they are used in, the inputs with their data. -/
structure Directed (c : ExecutionContext) : Prop where
  inputs : ∀ b ∈ c.inputs, b.direction = .hostToDevice
  supplied : ∀ b ∈ c.inputs, b.host.isSome = true
  output : c.output.direction = .deviceToHost

end ExecutionContext

namespace Engine

open Buffer

variable {device : Device} {c : ExecutionContext} {p : MemoryPlacement}

theorem runCommand_upload (slot : Nat) : runCommand device c (.upload slot) =
    { c with inputs := c.inputs.map (settledAt [slot]), output := settledAt [slot] c.output } := by
  have own : ∀ b : Buffer, transfer slot
      (fun a => { a with storage := a.staging.getD a.storage }) b = settledAt [slot] b := fun b => by
    simp only [transfer, settledAt, List.mem_singleton]
    rfl
  simp only [runCommand, own, funext own]

theorem runCommands_uploads (slots : List Nat) :
    (slots.map Command.upload).foldl (runCommand device) c =
      { c with inputs := c.inputs.map (settledAt slots), output := settledAt slots c.output } := by
  induction slots generalizing c with
  | nil =>
    have none : settledAt [] = id := funext fun b => if_neg (List.not_mem_nil)
    simp [none]
  | cons slot slots ih =>
    simp only [List.map_cons, List.foldl_cons, runCommand_upload, ih, List.map_map, settledAt_cons]
    congr 2
    funext b
    exact settledAt_cons slot slots b

/-- Once the recorded copies are done, the kernel can read what the host has written. -/
theorem uploads_settle (directed : c.Directed) :
    ((c.inputs.map (Buffer.housed p)).flatMap transfers).foldl (runCommand device) (c.loaded p) =
      { c with inputs := c.inputs.map fun b => (b.loaded p).settled, output := c.output.housed p } := by
  unfold ExecutionContext.loaded
  cases p with
  | deviceLocalHostVisible =>
    -- The host writes to the storage itself, so that there is nothing to copy.
    have none : (c.inputs.map (Buffer.housed .deviceLocalHostVisible)).flatMap transfers = [] := by
      rw [List.flatMap_map]
      exact List.flatMap_eq_nil_iff.mpr fun _ _ => rfl
    simp only [none, List.foldl_nil, settled_direct]
  | hostVisible =>
    have uploads : (c.inputs.map (Buffer.housed .hostVisible)).flatMap transfers =
        (c.inputs.map Buffer.slot).map .upload := by
      rw [List.flatMap_map, List.map_map, List.map_eq_flatMap]
      apply List.flatMap_congr
      intro b member
      simp only [transfers, Buffer.housed, directed.inputs b member]
      rfl
    have inputs : (c.inputs.map (Buffer.loaded .hostVisible)).map (settledAt (c.inputs.map Buffer.slot)) =
        c.inputs.map fun b => (b.loaded .hostVisible).settled := by
      rw [List.map_map]
      apply List.map_congr_left
      intro b member
      exact if_pos (List.mem_map_of_mem member)
    -- Should an input share the slot of the output, the copy would find zeros on both sides.
    have output : settledAt (c.inputs.map Buffer.slot) (c.output.housed .hostVisible) =
        c.output.housed .hostVisible := by
      unfold settledAt
      rw [settled_housed, ite_self]
    simp only [uploads, runCommands_uploads, inputs, output]

theorem recorded_run (device : Device) (p : MemoryPlacement) (directed : c.Directed) :
    ∃ a : Allocation,
      ((c.housed p).recorded.foldl (runCommand device) (c.loaded p)).output =
          { c.output with allocation := some a } ∧
        Allocation.view a = c.outcome device := by
  have bound : (c.inputs.map fun b => (b.loaded p).settled).map boundBytes =
      c.inputs.map fun b => b.image.take b.boundSize := by
    rw [List.map_map]
    exact List.map_congr_left fun b _ => boundBytes_settled p b
  unfold ExecutionContext.recorded
  rw [List.foldl_append, List.foldl_cons]
  simp only [ExecutionContext.housed, uploads_settle directed, runCommand, bound]
  -- The kernel has run; what is left is the copy to the memory that the host can see.
  cases p with
  | deviceLocalHostVisible => exact ⟨_, rfl, rfl⟩
  | hostVisible =>
    have download : (c.output.housed .hostVisible).transfers = [.download c.output.slot] := by
      simp only [transfers, Buffer.housed, directed.output]
      rfl
    rw [download]
    simp only [List.foldl_cons, List.foldl_nil, runCommand, transfer]
    exact ⟨_, if_pos rfl, rfl⟩

section Steps

variable {α β : Type} {h : DeviceHandle} {e : Engine} {d : DeviceState} {s t : Engine × DeviceState}

theorem bind_eq_ok {m : EngineM α} {f : α → EngineM β} {b : β} :
    (m >>= f) s = .ok b t ↔ ∃ a u, m s = .ok a u ∧ f a u = .ok b t := by
  rw [bind_apply]
  cases m s with
  | error e u => simp
  | ok a u =>
    constructor
    · exact fun ran => ⟨a, u, rfl, ran⟩
    · rintro ⟨_, _, ⟨⟩, ran⟩
      exact ran

theorem onDevice_eq_ok {x : DeviceM α} {a : α} (ran : onDevice x s = .ok a t) : t.1 = s.1 := by
  unfold onDevice at ran
  cases answer : x s.2 <;> simp only [answer] at ran <;> cases ran
  rfl

theorem orThrow_eq_ok {r : Except ComputeError α} {a : α} (ran : orThrow r s = .ok a t) :
    r = .ok a ∧ t = s := by
  cases r <;> cases ran
  exact ⟨rfl, rfl⟩

theorem recordTransfer_ok {b : Buffer} {commands : List Command}
    (ran : recordTransfer b s = .ok commands t) : commands = b.transfers ∧ t.1 = s.1 := by
  unfold recordTransfer at ran
  obtain ⟨a, u, allocated, rest⟩ := bind_eq_ok.mp ran
  obtain ⟨held, rfl⟩ := orThrow_eq_ok allocated
  have memory : b.allocation = some a := by
    unfold Buffer.allocated at held
    cases own : b.allocation <;> simp [own] at held
    rw [held]
  unfold transfers
  rw [memory]
  dsimp only
  cases staged : a.staging.isSome with
  | false =>
    rw [staged] at rest
    cases rest
    exact ⟨rfl, rfl⟩
  | true =>
    rw [staged] at rest
    -- Both directions log the copy, and differ in what they record.
    cases way : b.direction <;> rw [way] at rest <;> cases rest <;> exact ⟨rfl, rfl⟩

theorem recordTransfers_ok {bs : List Buffer} {commands : List Command}
    (ran : recordTransfers bs s = .ok commands t) :
    commands = bs.flatMap transfers ∧ t.1 = s.1 := by
  induction bs generalizing s t commands with
  | nil =>
    cases ran
    exact ⟨rfl, rfl⟩
  | cons b bs ih =>
    obtain ⟨own, u, first, later⟩ := bind_eq_ok.mp ran
    obtain ⟨others, v, rest, last⟩ := bind_eq_ok.mp later
    cases last
    obtain ⟨rfl, same⟩ := recordTransfer_ok first
    obtain ⟨rfl, same'⟩ := ih rest
    exact ⟨rfl, same'.trans same⟩

theorem record_ok (ran : record (e, d) = .ok () t) :
    t.1.context = e.context ∧ t.1.commands = some e.context.recorded := by
  unfold record at ran
  rw [getEngine_bind] at ran
  obtain ⟨sizes, u, sized, ran⟩ := bind_eq_ok.mp ran
  obtain ⟨_, rfl⟩ := orThrow_eq_ok sized
  cases laid : e.bindGroupLayout with
  | none =>
    rw [laid] at ran
    cases ran
  | some layout =>
    rw [laid] at ran
    obtain ⟨_, _, ⟨⟩, ran⟩ := bind_eq_ok.mp ran
    obtain ⟨uploads, u, uploaded, ran⟩ := bind_eq_ok.mp ran
    obtain ⟨rfl, same⟩ := recordTransfers_ok uploaded
    cases piped : e.pipeline with
    | none =>
      rw [piped] at ran
      cases ran
    | some pipeline =>
      rw [piped] at ran
      obtain ⟨_, v, logged, ran⟩ := bind_eq_ok.mp ran
      obtain ⟨downloads, w, downloaded, ran⟩ := bind_eq_ok.mp ran
      obtain ⟨rfl, last⟩ := recordTransfer_ok downloaded
      cases ran
      have engine : w.1 = e := last.trans ((onDevice_eq_ok logged).trans same)
      exact ⟨show w.1.context = e.context by rw [engine], rfl⟩

def Ensures (P : Engine → Prop) (m : EngineM α) : Prop :=
  ∀ ⦃s a t⦄, m s = .ok a t → P t.1

theorem ensures_bind {P : Engine → Prop} {m : EngineM α} {f : α → EngineM β}
    (rest : ∀ a, Ensures P (f a)) : Ensures P (m >>= f) := by
  intro s b t ran
  obtain ⟨a, u, _, last⟩ := bind_eq_ok.mp ran
  exact rest a last

theorem setup_recorded (h : DeviceHandle) :
    Ensures (fun e => e.commands = some e.context.recorded) (setup h) := by
  -- Recording is the last but one of the actions; entering the stage changes neither part.
  refine ensures_bind fun _ => ensures_bind fun _ => ensures_bind fun _ => ensures_bind fun _ =>
    ensures_bind fun _ => ensures_bind fun _ => ensures_bind fun _ => ?_
  intro s _ t ran
  obtain ⟨_, u, recorded, entered⟩ := bind_eq_ok.mp ran
  cases entered
  obtain ⟨same, commands⟩ := record_ok recorded
  exact commands.trans (congrArg (some ·.recorded) same.symm)

theorem Through.eq_map {f : Buffer → DeviceM Buffer} {g : Buffer → Buffer} {bs bs' : List Buffer}
    {d' : DeviceState} (served : Through f bs d bs' d')
    (each : ∀ b ∈ bs, ∀ {b' d d'}, f b d = .ok b' d' → b' = g b) : bs' = bs.map g := by
  induction served with
  | nil d => rfl
  | cons first _ ih =>
    obtain ⟨own, others⟩ := List.forall_mem_cons.mp each
    rw [List.map_cons, own first, ih others]

theorem setup_ok (standing : e.stage = .created) (ran : setup h (e, d) = .ok () t) :
    ∃ p, t.1.context = e.context.housed p ∧ t.1.commands = some (e.context.housed p).recorded ∧
      t.1.stage = .configured := by
  have recorded := setup_recorded h ran
  have outcome := setup_outcome (h := h) (d := d) standing
  rw [ran] at outcome
  cases outcome with
  | @done inputs output between d' group commands checked served accepted noted =>
    -- There is an output, so that there is a placement, which is the same for all buffers.
    obtain ⟨p, placed⟩ : ∃ p, h.selectPlacement = .ok p := by
      cases placed : h.selectPlacement with
      | ok p => exact ⟨p, rfl⟩
      | error err =>
        have none := served.made (P := fun _ => False) fun ran => by
          obtain ⟨p, placed', _⟩ := allocate_ok ran
          cases placed.symm.trans placed'
        exact (none output (by simp)).elim
    have made : inputs ++ [output] = e.context.buffers.map (Buffer.housed p) :=
      served.eq_map fun b _ {_ _ _} ran => by
        obtain ⟨p', placed', rfl⟩ := allocate_ok ran
        cases placed.symm.trans placed'
        rfl
    rw [ExecutionContext.buffers, List.map_append] at made
    obtain ⟨rfl, last⟩ := List.append_inj' made rfl
    obtain rfl := (List.cons.inj last).1
    exact ⟨p, rfl, recorded, rfl⟩

theorem transferInput_ok (directed : c.Directed) (standing : e.stage = .configured)
    (context : e.context = c.housed p) (ran : transferInput h (e, d) = .ok () t) :
    t.1.context = c.loaded p ∧ t.1.commands = e.commands ∧ t.1.stage = .inputReady := by
  have outcome := transferInput_outcome (h := h) (d := d) standing
  rw [ran] at outcome
  cases outcome with
  | @done made d' served =>
    rw [context] at served
    have written : made = (c.inputs.map (Buffer.housed p)).map (Buffer.loaded p) := by
      apply served.eq_map
      intro b member b' _ _ wrote
      obtain ⟨b, own, rfl⟩ := List.mem_map.mp member
      exact write_ok (directed.supplied b own) wrote
    rw [List.map_map] at written
    subst written
    refine ⟨?_, rfl, rfl⟩
    simp only [withBuffers, context]
    rfl

theorem execute_ok {commands : List Command} (standing : e.stage = .inputReady)
    (recorded : e.commands = some commands) (ran : execute h (e, d) = .ok () t) :
    t.1.context = commands.foldl (runCommand h.device) e.context ∧ t.1.stage = .executed := by
  rw [execute_outcome standing, recorded] at ran
  cases leased : acquire d.pool with
  | error err => simp [leased] at ran
  | ok pool =>
    simp only [leased] at ran
    cases ran
    exact ⟨rfl, rfl⟩

theorem transferOutput_ok {a : Allocation} (standing : e.stage = .executed)
    (memory : e.context.output.allocation = some a) (ran : transferOutput h (e, d) = .ok () t) :
    ∃ host, HostArray.ofBytes e.context.output.element (e.context.output.readBack a) = .ok host ∧
      t.1.context.output.host = some host ∧ t.1.stage = .complete := by
  rw [transferOutput_outcome standing, Buffer.read_apply, memory] at ran
  dsimp only at ran
  cases mapped : h.device.mapFailure (d.mappings + 1) with
  | some reason => simp [mapped] at ran
  | none =>
    cases wrapped : HostArray.ofBytes e.context.output.element (e.context.output.readBack a) with
    | error err => simp [mapped, wrapped] at ran
    | ok host =>
      simp only [mapped, wrapped] at ran
      cases ran
      exact ⟨host, rfl, rfl, rfl⟩

end Steps

end Engine

namespace DeviceHandle

open Engine
open HostArray (ofBytes_ok length_decodeAll)

variable {h : DeviceHandle} {c : ExecutionContext} {d d' : DeviceState} {a : HostArray}

/-- The result of a run is what the kernel has left, copied over zeroed room for the elements. -/
theorem steps_ok (directed : c.Directed) {s : Engine × DeviceState}
    (ran : h.steps (({ context := c } : Engine), d) = .ok a s) :
    HostArray.ofBytes c.output.element
      ((c.output.layout.deviceToHost c.output.count (c.outcome h.device) c.output.room).getD
        c.output.room) = .ok a := by
  unfold steps at ran
  obtain ⟨_, ⟨e₁, d₁⟩, first, ran⟩ := bind_eq_ok.mp ran
  obtain ⟨_, ⟨e₂, d₂⟩, second, ran⟩ := bind_eq_ok.mp ran
  obtain ⟨_, ⟨e₃, d₃⟩, third, ran⟩ := bind_eq_ok.mp ran
  obtain ⟨_, ⟨e₄, d₄⟩, fourth, last⟩ := bind_eq_ok.mp ran
  obtain ⟨p, housed, recorded, configured⟩ := setup_ok rfl first
  obtain ⟨loaded, kept, ready⟩ := transferInput_ok directed configured housed second
  obtain ⟨context, executed⟩ := execute_ok ready (kept.trans recorded) third
  obtain ⟨memory, output, view⟩ := recorded_run h.device p directed
  rw [loaded] at context
  have placed : e₃.context.output = { c.output with allocation := some memory } :=
    (congrArg ExecutionContext.output context).trans output
  obtain ⟨host, wrapped, result, complete⟩ :=
    transferOutput_ok executed (congrArg Buffer.allocation placed) fourth
  rw [placed] at wrapped
  rw [takeOutput_apply complete, result] at last
  cases last
  rw [← view]
  exact wrapped

theorem prepare_directed {compiler : ShaderCompiler} {root : Expr}
    (prepared : h.prepare compiler root = .ok c) :
    c.Directed ∧ c.output.layout = .of c.output.element := by
  obtain ⟨p, shader, _, _, rfl⟩ := prepare_ok.mp prepared
  have input : ∀ b ∈ (CompiledQuery.ofProgram p).inputs, ∃ slot a, b = .input slot a :=
    fun b member => inputs_ofProgram member
  refine ⟨⟨fun b member => ?_, fun b member => ?_, rfl⟩, rfl⟩
  · obtain ⟨slot, a, rfl⟩ := input b member
    rfl
  · obtain ⟨slot, a, rfl⟩ := input b member
    rfl

theorem executeWith_prepared {compiler : ShaderCompiler} {root : Expr}
    (prepared : h.prepare compiler root = .ok c) : h.executeWith compiler root d =
      if c.output.count = 0 then
        match HostArray.ofBytes c.output.element [] with
        | .ok a => .ok a d
        | .error e => .error e d
      else h.runContext c d := by
  unfold executeWith
  rw [prepared]
  simp only [DeviceM.bind_apply, DeviceM.pure_apply]
  split
  · cases HostArray.ofBytes c.output.element [] <;> rfl
  · rfl

theorem executeWith_unprepared {compiler : ShaderCompiler} {root : Expr} {e : ComputeError}
    (prepared : h.prepare compiler root = .error e) : h.executeWith compiler root d = .error e d := by
  unfold executeWith
  rw [prepared]
  rfl

theorem runContext_ok (ran : h.runContext c d = .ok a d') :
    ∃ s, h.steps (({ context := c } : Engine), d) = .ok a s := by
  unfold runContext at ran
  cases stepped : h.steps (({ context := c } : Engine), d) with
  | ok b s =>
    rw [stepped] at ran
    cases ran
    exact ⟨s, rfl⟩
  | error e s =>
    rw [stepped] at ran
    cases ran

theorem result_copied {a : HostArray} {t : ElementType} (device : Device)
    (element : c.output.element = t) (layout : c.output.layout = .of t)
    (wrapped : HostArray.ofBytes t ((c.output.layout.deviceToHost c.output.count (c.outcome device)
      c.output.room).getD c.output.room) = .ok a) :
    a.count = c.output.count ∧ a.bytes.length = a.count * t.hostStride ∧
      (Layout.of t).deviceToHost a.count (c.outcome device)
        (List.replicate (a.count * t.hostStride) 0) = some a.bytes := by
  obtain ⟨rfl, bytes⟩ := ofBytes_ok wrapped
  -- Room and storage are both long enough for the copy, which then fails for no element.
  have room : c.output.room = List.replicate (c.output.count * a.element.hostStride) 0 := by
    rw [Buffer.room, Buffer.hostSize, layout]
    rfl
  have readable : c.output.count * a.element.deviceStride ≤ (c.outcome device).length := by
    have size : c.output.deviceSize = c.output.count * a.element.deviceStride := by
      rw [Buffer.deviceSize, layout]
      rfl
    have within := c.output.deviceSize_le_alignedSize
    simp only [ExecutionContext.outcome, List.length_append, List.length_drop, List.length_replicate]
    omega
  obtain ⟨result, copied, filled⟩ := Layout.deviceToHost_completes a.element c.output.count
    (c.outcome device) (List.replicate (c.output.count * a.element.hostStride) 0) readable
    (List.length_replicate.ge)
  rw [layout, room, copied] at bytes
  have length : a.bytes.length = c.output.count * a.element.hostStride := by
    rw [bytes]
    exact filled.trans List.length_replicate
  have count : a.count = c.output.count := by
    rw [HostArray.count, length, Nat.mul_div_cancel _ a.stride_pos]
  rw [count]
  exact ⟨rfl, length, by rw [bytes]; exact copied⟩

/-! ## Results -/

section Results

variable {compiler : ShaderCompiler} {root : Expr}

theorem prepare_output (faithful : root.Faithful) (prepared : h.prepare compiler root = .ok c) :
    c.output.element = root.type ∧ root.HasLength c.output.count := by
  obtain ⟨p, shader, compiled, _, rfl⟩ := prepare_ok.mp prepared
  obtain ⟨source, member, counts, _, count⟩ := Kernel.compile_led faithful compiled
  refine ⟨Kernel.compile_result compiled, List.ne_nil_of_mem member, fun other held => ?_⟩
  exact (counts other held).trans count.symm

/-- A result has the type of the query and the length of its sources, and its bytes are those that
the kernel has left, wherever there are elements. -/
theorem executeWith_result (faithful : root.Faithful)
    (ran : h.executeWith compiler root d = .ok a d') :
    a.element = root.type ∧ root.HasLength a.count ∧
      a.bytes.length = a.count * root.type.hostStride ∧
      ∃ c, h.prepare compiler root = .ok c ∧ (a.count ≠ 0 →
        (Layout.of root.type).deviceToHost a.count (c.outcome h.device)
          (List.replicate (a.count * root.type.hostStride) 0) = some a.bytes) := by
  cases prepared : h.prepare compiler root with
  | error e =>
    rw [executeWith_unprepared prepared] at ran
    cases ran
  | ok c =>
    obtain ⟨element, length⟩ := prepare_output faithful prepared
    obtain ⟨directed, layout⟩ := prepare_directed prepared
    rw [executeWith_prepared prepared, element] at ran
    -- The shortcut has to give what the device would have given.
    by_cases none : c.output.count = 0
    · rw [if_pos none] at ran
      cases wrapped : HostArray.ofBytes root.type [] with
      | error e =>
        rw [wrapped] at ran
        cases ran
      | ok b =>
        rw [wrapped] at ran
        cases ran
        obtain ⟨same, bytes⟩ := ofBytes_ok wrapped
        have count : a.count = 0 := by rw [HostArray.count, bytes, List.length_nil, Nat.zero_div]
        refine ⟨same, by rwa [count, ← none], ?_, c, rfl, fun some => absurd count some⟩
        rw [bytes, count, List.length_nil, Nat.zero_mul]
    · rw [if_neg none] at ran
      obtain ⟨s, stepped⟩ := runContext_ok ran
      have wrapped := steps_ok directed stepped
      rw [element] at layout wrapped
      obtain ⟨count, whole, copied⟩ := result_copied h.device element layout wrapped
      exact ⟨(ofBytes_ok wrapped).1, by rwa [count], whole, c, rfl, fun _ => copied⟩

theorem executeWith_empty (faithful : root.Faithful) (length : root.HasLength 0) :
    (h.executeWith compiler root).after d = d ∧
      ∀ c, h.prepare compiler root = .ok c → 0 < root.type.hostStride →
        ∃ a, h.executeWith compiler root d = .ok a d ∧ a.element = root.type ∧ a.count = 0 := by
  have none : ∀ c, h.prepare compiler root = .ok c → c.output.count = 0 := fun c prepared =>
    (prepare_output faithful prepared).2.unique length
  constructor
  · rw [executeWith_after]
    cases prepared : h.prepare compiler root with
    | error e => rfl
    | ok c => exact if_pos (none c prepared)
  · intro c prepared positive
    have wrapped : HostArray.ofBytes root.type [] = .ok ⟨root.type, [], positive, Nat.dvd_zero _⟩ :=
      dif_pos ⟨positive, Nat.dvd_zero _⟩
    rw [executeWith_prepared prepared, if_pos (none c prepared), (prepare_output faithful prepared).1,
      wrapped]
    exact ⟨_, rfl, rfl, Nat.zero_div _⟩

variable {α : Type} [Element α]

theorem executeAs_mismatch (other : Element.type α ≠ root.type) :
    h.executeAs compiler α root d = .error (.usage (.resultElements root.type (Element.type α))) d := by
  unfold executeAs
  rw [if_pos other]
  rfl

/-- With the bytes of the elements instead of their values it is the same run. -/
theorem executeAs_elements : h.executeAs .accepting α root d =
    match h.execute (Element.type α) root d with
    | .ok elements d' => .ok (elements.map Element.decode) d'
    | .error e d' => .error e d' := by
  by_cases same : Element.type α = root.type
  · simp only [executeAs, execute, same, ne_eq, not_true_eq_false, if_false, DeviceM.bind_apply,
      executeNode]
    cases h.executeWith .accepting root d with
    | error e after => rfl
    | ok a after =>
      by_cases typed : root.type = a.element
      · simp only [HostArray.toList, HostArray.elements, same, Element.decodeAll,
          HostArray.count, typed]
        rfl
      · simp only [HostArray.toList, HostArray.elements, same, if_neg typed]
        rfl
  · simp only [executeAs, execute, same, ne_eq, not_false_eq_true, if_true]
    rfl

theorem executeAs_ok (faithful : root.Faithful) {vs : List α} :
    h.executeAs compiler α root d = .ok vs d' ↔ Element.type α = root.type ∧
      ∃ a : HostArray, h.executeWith compiler root d = .ok a d' ∧ vs = Element.decodeAll α a.bytes := by
  by_cases same : Element.type α = root.type
  · simp only [executeAs, same, ne_eq, not_true_eq_false, if_false, DeviceM.bind_apply, true_and]
    cases ran : h.executeWith compiler root d with
    | error e after => simp
    | ok a after =>
      have typed : Element.type α = a.element := same.trans (executeWith_result faithful ran).1.symm
      simp only [HostArray.toList, if_pos typed, DeviceM.pure_apply]
      constructor
      · rintro ⟨⟩
        exact ⟨a, rfl, rfl⟩
      · rintro ⟨_, ⟨⟩, rfl⟩
        rfl
  · rw [executeAs_mismatch same]
    exact ⟨nofun, fun held => absurd held.1 same⟩

end Results

/-- What is returned for a query has its type and the length of its sources; its bytes are copied from
what the kernel has left in the output, and no device is needed where there are no elements. As values
of a host type it has one for each element of a source, and if that is not the type of the query it
is refused, whether or not the query compiles. -/
theorem execution_fits (h : DeviceHandle) (compiler : ShaderCompiler) {root : Expr}
    (faithful : root.Faithful) (d : DeviceState) :
    (∀ a d', h.executeWith compiler root d = .ok a d' →
      a.element = root.type ∧ root.HasLength a.count ∧
        a.bytes.length = a.count * root.type.hostStride ∧
        ∃ c, h.prepare compiler root = .ok c ∧ (a.count ≠ 0 →
          (Layout.of root.type).deviceToHost a.count (c.outcome h.device)
            (List.replicate (a.count * root.type.hostStride) 0) = some a.bytes)) ∧
    (root.HasLength 0 → (h.executeWith compiler root).after d = d ∧
      ∀ c, h.prepare compiler root = .ok c → 0 < root.type.hostStride →
        ∃ a, h.executeWith compiler root d = .ok a d ∧ a.element = root.type ∧ a.count = 0) ∧
    ∀ (α : Type) [Element α],
      (∀ vs d', h.executeAs compiler α root d = .ok vs d' ↔ Element.type α = root.type ∧
        ∃ a, h.executeWith compiler root d = .ok a d' ∧ vs = Element.decodeAll α a.bytes) ∧
      (∀ vs d', h.executeAs compiler α root d = .ok vs d' → root.HasLength vs.length) ∧
      (Element.type α ≠ root.type → h.executeAs compiler α root d =
        .error (.usage (.resultElements root.type (Element.type α))) d) := by
  refine ⟨fun a d' => executeWith_result faithful, executeWith_empty faithful, fun α _ => ?_⟩
  refine ⟨fun vs d' => executeAs_ok faithful, fun vs d' ran => ?_, executeAs_mismatch⟩
  obtain ⟨same, a, executed, rfl⟩ := (executeAs_ok faithful).mp ran
  obtain ⟨element, length, _⟩ := executeWith_result faithful executed
  rwa [length_decodeAll (same.trans element.symm)]

theorem execution_fits_flagged :
    let h : DeviceHandle := ⟨.echo {} true fun _ => none, {}, [.hostVisible]⟩
    Kernel.flaggedQuery.Faithful ∧ ∃ (a : HostArray) (d' : DeviceState),
      h.executeWith .accepting Kernel.flaggedQuery h.initial = .ok a d' ∧ a.element = .u32 ∧
      Kernel.flaggedQuery.HasLength 2 ∧
      h.executeAs .accepting UInt32 Kernel.flaggedQuery h.initial = .ok [2, 0] d' ∧
      h.executeAs .accepting Bool Kernel.flaggedQuery h.initial =
        .error (.usage (.resultElements .u32 .bool)) h.initial := by
  intro h
  have answer : (match h.executeWith .accepting Kernel.flaggedQuery h.initial with
      | .ok a _ => decide (a.bytes = [2, 0, 0, 0, 0, 0, 0, 0])
      | .error _ _ => false) = true := by decide +kernel
  have faithful := Kernel.flaggedQuery_faithful
  obtain ⟨results, -, values⟩ := execution_fits h .accepting faithful h.initial
  cases ran : h.executeWith .accepting Kernel.flaggedQuery h.initial with
  | error e d' =>
    rw [ran] at answer
    cases answer
  | ok a d' =>
    rw [ran] at answer
    have bytes : a.bytes = [2, 0, 0, 0, 0, 0, 0, 0] := of_decide_eq_true answer
    have decoded : [(2 : UInt32), 0] = Element.decodeAll UInt32 a.bytes := by
      rw [bytes]
      rfl
    have words := ((values UInt32).1 _ _).mpr ⟨rfl, a, ran, decoded⟩
    exact ⟨faithful, a, d', rfl, (results a d' ran).1, (values UInt32).2.1 _ _ words, words,
      (values Bool).2.2 (by decide)⟩

end DeviceHandle

end ArrayQuery
