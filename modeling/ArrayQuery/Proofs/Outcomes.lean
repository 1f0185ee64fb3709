import ArrayQuery.Proofs.Buffers
import ArrayQuery.Proofs.Lifecycle
import Mathlib.Data.List.Forall2

/-! What the steps of an execution come to, taken apart by the action that decided it. The buffers of
a context are served in the order of their slots, the output last; the first failure ends a step, and
the buffers served before it stay as the step has made them. -/

set_option autoImplicit false
namespace ArrayQuery

namespace Event

def taken : Event → List Memory
  | create m _ => [m]
  | _ => []

def freed : Event → List Memory
  | destroy m => [m]
  | _ => []

end Event

/-- Between the two states the device has noted what it was asked for; no memory has changed hands. -/
def DeviceState.Notes (d d' : DeviceState) : Prop :=
  ∃ events, d' = d.noting events ∧ ∀ event ∈ events, event.taken = [] ∧ event.freed = []

namespace DeviceState.Notes

variable {d d₁ d₂ : DeviceState}

theorem refl (d : DeviceState) : d.Notes d :=
  ⟨[], by rw [noting, List.append_nil], nofun⟩

theorem trans (first : d.Notes d₁) (second : d₁.Notes d₂) : d.Notes d₂ := by
  obtain ⟨xs, rfl, quiet⟩ := first
  obtain ⟨ys, rfl, silent⟩ := second
  refine ⟨xs ++ ys, by simp only [noting, List.append_assoc], ?_⟩
  intro event member
  obtain member | member := List.mem_append.mp member
  · exact quiet event member
  · exact silent event member

theorem one (d : DeviceState) {event : Event} (taken : event.taken = []) (freed : event.freed = []) :
    d.Notes (d.noting [event]) := by
  refine ⟨[event], rfl, ?_⟩
  intro other member
  rw [List.mem_singleton.mp member]
  exact ⟨taken, freed⟩

end DeviceState.Notes

namespace Buffer

/-- The same buffer, but for the memory that it has. -/
def Alike (b b' : Buffer) : Prop :=
  b' = { b with allocation := b'.allocation }

structure Houses (b b' : Buffer) : Prop where
  alike : b.Alike b'
  initialized : b'.isInitialized = true

structure Rewrites (b b' : Buffer) : Prop where
  alike : b.Alike b'
  memories : b'.memories = b.memories

def discarded (b : Buffer) : Buffer :=
  { b with allocation := none }

variable {h : DeviceHandle} {b b' b'' : Buffer} {d d' : DeviceState}

theorem isInitialized_iff (b : Buffer) : b.isInitialized = true ↔ b.memories ≠ [] := by
  unfold isInitialized memories
  cases b.allocation <;> simp [Memory.behind]

theorem Alike.refl (b : Buffer) : b.Alike b := rfl

theorem Alike.trans (first : b.Alike b') (second : b'.Alike b'') : b.Alike b'' := by
  unfold Alike at *
  rw [second, first]

theorem Alike.host (alike : b.Alike b') : b'.host = b.host := by
  rw [alike]

theorem Alike.element (alike : b.Alike b') : b'.element = b.element := by
  rw [alike]

theorem Alike.layout (alike : b.Alike b') : b'.layout = b.layout := by
  rw [alike]

theorem Rewrites.refl (b : Buffer) : b.Rewrites b :=
  ⟨rfl, rfl⟩

theorem Rewrites.trans (first : b.Rewrites b') (second : b'.Rewrites b'') : b.Rewrites b'' :=
  ⟨first.alike.trans second.alike, second.memories.trans first.memories⟩

theorem Rewrites.initialized (rewrites : b.Rewrites b') : b'.isInitialized = b.isInitialized := by
  rw [Bool.eq_iff_iff, isInitialized_iff, isInitialized_iff, rewrites.memories]

theorem rewrites_of_staging {f : Allocation → Allocation}
    (same : ∀ a, (f a).staging.isSome = a.staging.isSome) :
    b.Rewrites { b with allocation := b.allocation.map f } := by
  refine ⟨rfl, ?_⟩
  unfold memories
  cases b.allocation with
  | none => rfl
  | some a => exact congrArg (Memory.behind b.slot) (same a)

theorem allocate_houses (ran : allocate h b d = .ok b' d') : b.Houses b' := by
  rw [allocate_apply] at ran
  split at ran
  · cases ran
  · split at ran
    · cases ran
    · simp only at ran
      split at ran
      · cases ran
      · cases ran
        exact ⟨rfl, rfl⟩

theorem setView_staging (a : Allocation) (bytes : List UInt8) :
    (Allocation.setView a bytes).staging.isSome = a.staging.isSome := by
  obtain ⟨placement, storage, staging⟩ := a
  cases staging <;> rfl

theorem write_rewrites (ran : write h b d = .ok b' d') : b.Rewrites b' ∧ d.countMapping.Notes d' := by
  rw [write_apply] at ran
  cases held : b.allocation with
  | none => simp [held] at ran
  | some a =>
    cases data : b.host with
    | none => simp [held, data] at ran
    | some host =>
      simp only [held, data] at ran
      split at ran
      · cases ran
      · cases ran
        have rewrites := rewrites_of_staging (b := b) (f := fun a => b.written a host)
          fun a => setView_staging a _
        rw [held, data] at rewrites
        exact ⟨rewrites, .one _ rfl rfl⟩

end Buffer

def ExecutionContext.buffers (c : ExecutionContext) : List Buffer :=
  c.inputs ++ [c.output]

theorem ExecutionContext.forall_buffers {c : ExecutionContext} {P : Buffer → Prop} :
    (∀ b ∈ c.buffers, P b) ↔ (∀ b ∈ c.inputs, P b) ∧ P c.output := by
  rw [buffers, List.forall_mem_append, List.forall_mem_singleton]

namespace Engine

def withBuffers (e : Engine) (inputs : List Buffer) (output : Buffer) : Engine :=
  { e with context := { e.context with inputs := inputs, output := output } }

def piped (e : Engine) : Engine :=
  let layout : PipelineLayout := ⟨[layoutOf e.context]⟩
  { e with
    bindGroupLayout := some (layoutOf e.context)
    pipelineLayout := some layout
    shader := some e.context.shader
    pipeline := some ⟨layout, e.context.shader.entryPoint⟩ }

/-- A call on each of some buffers, with what it makes of them. -/
inductive Through (f : Buffer → DeviceM Buffer) :
    List Buffer → DeviceState → List Buffer → DeviceState → Prop where
  | nil (d : DeviceState) : Through f [] d [] d
  | cons {b b' : Buffer} {rest rest' : List Buffer} {d d₁ d₂ : DeviceState}
      (first : f b d = .ok b' d₁) (others : Through f rest d₁ rest' d₂) :
      Through f (b :: rest) d (b' :: rest') d₂

namespace Through

variable {f : Buffer → DeviceM Buffer} {bs bs' : List Buffer} {d d' : DeviceState}

theorem concat (served : Through f bs d bs' d') {b b' : Buffer} {after : DeviceState}
    (last : f b d' = .ok b' after) : Through f (bs ++ [b]) d (bs' ++ [b']) after := by
  induction served with
  | nil d => exact .cons last (.nil after)
  | cons first _ ih => exact .cons first (ih last)

theorem made (served : Through f bs d bs' d') {P : Buffer → Prop}
    (each : ∀ {b b' d d'}, f b d = .ok b' d' → P b') : ∀ b ∈ bs', P b := by
  induction served with
  | nil d => nofun
  | cons first _ ih => exact List.forall_mem_cons.mpr ⟨each first, ih⟩

theorem forall₂ (served : Through f bs d bs' d') {R : Buffer → Buffer → Prop}
    (each : ∀ {b b' d d'}, f b d = .ok b' d' → R b b') : List.Forall₂ R bs bs' := by
  induction served with
  | nil d => exact .nil
  | cons first _ ih => exact .cons (each first) ih

theorem forall₂_append (served : Through f bs d bs' d') {R : Buffer → Buffer → Prop}
    (each : ∀ {b b' d d'}, f b d = .ok b' d' → R b b') (same : ∀ b, R b b) (last : List Buffer) :
    List.Forall₂ R (bs ++ last) (bs' ++ last) :=
  List.rel_append (served.forall₂ each) (List.forall₂_same.mpr fun b _ => same b)

end Through

/-- Where a call on each input leads: the inputs come to `after made` once they are served, or to the
ones that were served with the rest as it was. -/
inductive Served (f : Buffer → DeviceM Buffer) (bs : List Buffer) (d : DeviceState)
    (after : List Buffer → Engine) : EStateM.Result ComputeError (Engine × DeviceState) Unit → Prop where
  | all {made : List Buffer} {d' : DeviceState} (served : Through f bs d made d') :
      Served f bs d after (.ok () (after made, d'))
  | stopped {first last made : List Buffer} {b : Buffer} {between d' : DeviceState} {err : ComputeError}
      (split : bs = first ++ b :: last) (served : Through f first d made between)
      (failed : f b between = .error err d') :
      Served f bs d after (.error err (after (made ++ b :: last), d'))

theorem Served.cons {f : Buffer → DeviceM Buffer} {b b' : Buffer} {rest : List Buffer}
    {d d₁ : DeviceState} {after : List Buffer → Engine}
    {result : EStateM.Result ComputeError (Engine × DeviceState) Unit} (first : f b d = .ok b' d₁)
    (later : Served f rest d₁ (fun made => after (b' :: made)) result) :
    Served f (b :: rest) d after result := by
  cases later with
  | all served => exact .all (.cons first served)
  | stopped split served failed => exact .stopped (congrArg (b :: ·) split) (.cons first served) failed

section Actions

variable {α β : Type} {e : Engine} {d : DeviceState}

theorem bind_ok {m : EngineM α} {f : α → EngineM β} {s t : Engine × DeviceState} {a : α}
    (ran : m s = .ok a t) : (m >>= f) s = f a t := by
  rw [bind_apply, ran]

theorem bind_error {m : EngineM α} {f : α → EngineM β} {s t : Engine × DeviceState}
    {err : ComputeError} (ran : m s = .error err t) : (m >>= f) s = .error err t := by
  rw [bind_apply, ran]

theorem getEngine_bind {f : Engine → EngineM β} : (getEngine >>= f) (e, d) = f e (e, d) := rfl

theorem expect_bind {step : String} {required : Stage} {f : Unit → EngineM β}
    (standing : e.stage = required) : (expect step required >>= f) (e, d) = f () (e, d) :=
  bind_ok (by rw [expect_apply, if_pos standing])

theorem orThrow_ok {f : α → EngineM β} (a : α) : (orThrow (.ok a) >>= f) (e, d) = f a (e, d) := rfl

theorem orThrow_error {f : α → EngineM β} (err : ComputeError) :
    (orThrow (.error err) >>= f) (e, d) = .error err (e, d) := rfl

theorem onDevice_ok {x : DeviceM α} {a : α} {d' : DeviceState} (ran : x d = .ok a d') :
    onDevice x (e, d) = .ok a (e, d') := by
  unfold onDevice
  simp only [ran]

theorem onDevice_error {x : DeviceM α} {err : ComputeError} {d' : DeviceState}
    (ran : x d = .error err d') : onDevice x (e, d) = .error err (e, d') := by
  unfold onDevice
  simp only [ran]

theorem eachInput_served (f : Buffer → DeviceM Buffer) (done rest : List Buffer) (output : Buffer)
    (e : Engine) (d : DeviceState) : Served f rest d (fun made => e.withBuffers (done ++ made) output)
      (eachInput f done rest (e.withBuffers (done ++ rest) output, d)) := by
  -- The inputs are always the ones that were served, and behind them the rest as it was.
  induction rest generalizing done d with
  | nil => exact .all (.nil d)
  | cons b rest ih =>
    unfold eachInput
    cases first : f b d with
    | error err d' =>
      rw [bind_error (onDevice_error first)]
      exact .stopped rfl (.nil d) first
    | ok b' d₁ =>
      rw [bind_ok (onDevice_ok first)]
      have later := ih (done ++ [b']) d₁
      simp only [List.append_assoc, List.singleton_append] at later
      exact .cons first later

/-! ## Recording -/

theorem recordTransfer_notes {b : Buffer} (initialized : b.isInitialized = true) :
    ∃ commands d', recordTransfer b (e, d) = .ok commands (e, d') ∧ d.Notes d' := by
  obtain ⟨a, held⟩ := Option.isSome_iff_exists.mp initialized
  have allocated : orThrow b.allocated (e, d) = .ok a (e, d) := by
    rw [Buffer.allocated, held]
    rfl
  unfold recordTransfer
  rw [bind_ok allocated]
  cases a.staging.isSome with
  | false => exact ⟨[], d, rfl, .refl d⟩
  | true =>
    cases b.direction with
    | hostToDevice => exact ⟨_, _, rfl, .one d rfl rfl⟩
    | deviceToHost => exact ⟨_, _, rfl, .one d rfl rfl⟩

theorem recordTransfers_notes {bs : List Buffer} (initialized : ∀ b ∈ bs, b.isInitialized = true) :
    ∃ commands d', recordTransfers bs (e, d) = .ok commands (e, d') ∧ d.Notes d' := by
  induction bs generalizing d with
  | nil => exact ⟨[], d, rfl, .refl d⟩
  | cons b rest ih =>
    obtain ⟨head, tail⟩ := List.forall_mem_cons.mp initialized
    obtain ⟨own, d₁, first, noted⟩ := recordTransfer_notes (e := e) (d := d) head
    obtain ⟨others, d₂, later, more⟩ := ih (d := d₁) tail
    refine ⟨own ++ others, d₂, ?_, noted.trans more⟩
    unfold recordTransfers
    rw [bind_ok first, bind_ok later]
    rfl

theorem binding_ok {bs : List Buffer} (initialized : ∀ b ∈ bs, b.isInitialized = true) :
    ∃ sizes, bs.mapM Buffer.binding = .ok sizes := by
  induction bs with
  | nil => exact ⟨[], rfl⟩
  | cons b rest ih =>
    obtain ⟨a, held⟩ := Option.isSome_iff_exists.mp (initialized b List.mem_cons_self)
    obtain ⟨sizes, bound⟩ := ih fun b member => initialized b (List.mem_cons_of_mem _ member)
    have own : b.binding = .ok b.boundSize := by
      rw [Buffer.binding, Buffer.allocated, held]
    refine ⟨b.boundSize :: sizes, ?_⟩
    rw [List.mapM_cons, own, bound]
    rfl

/-- Nothing is left that could go wrong while an engine with memory and a pipeline is recording. -/
theorem record_done (initialized : ∀ b ∈ e.context.buffers, b.isInitialized = true) :
    ∃ group commands d', record (e.piped, d) =
      .ok () ({ e.piped with bindGroup := some group, commands := some commands }, d') ∧ d.Notes d' := by
  obtain ⟨sizes, bound⟩ := binding_ok initialized
  obtain ⟨inputs, output⟩ := ExecutionContext.forall_buffers.mp initialized
  obtain ⟨uploads, d₁, uploaded, first⟩ := recordTransfers_notes (e := e.piped) (d := d) inputs
  obtain ⟨downloads, d₂, downloaded, last⟩ := recordTransfer_notes (e := e.piped)
    (d := d₁.noting [.dispatch e.context.workgroups e.context.bindings]) output
  have sized : orThrow ((e.piped.context.inputs ++ [e.piped.context.output]).mapM Buffer.binding)
      (e.piped, d) = .ok sizes (e.piped, d) := by
    exact congrArg (orThrow · (e.piped, d)) bound
  refine ⟨⟨layoutOf e.context, sizes⟩, uploads ++ .dispatch e.context.workgroups :: downloads, d₂, ?_,
    first.trans ((DeviceState.Notes.one d₁ rfl rfl).trans last)⟩
  -- Neither the layout nor the pipeline can be missing: both are in `e.piped` by its definition.
  unfold record
  rw [getEngine_bind, bind_ok sized]
  refine (bind_ok uploaded).trans ?_
  exact bind_ok downloaded

variable {h : DeviceHandle}

theorem buildPipeline_apply : buildPipeline h (e, d) =
    match h.device.pipelineFailure with
    | some diagnostic =>
      .error (.shaderCompile "pipeline creation rejected the kernel" diagnostic) (e.piped, d)
    | none => .ok () (e.piped, d) := by
  unfold buildPipeline
  cases h.device.pipelineFailure <;> rfl

inductive SetUp (h : DeviceHandle) (e : Engine) (d : DeviceState) :
    EStateM.Result ComputeError (Engine × DeviceState) Unit → Prop where
  | refused {err : ComputeError} (checked : checkLimits h e.context = .error err) :
      SetUp h e d (.error err (e, d))
  /-- There is no memory for one of the buffers. -/
  | starved {first last made inputs : List Buffer} {b output : Buffer} {between d' : DeviceState}
      {err : ComputeError} (checked : checkLimits h e.context = .ok ())
      (split : e.context.buffers = first ++ b :: last)
      (served : Through (Buffer.allocate h) first d made between)
      (failed : Buffer.allocate h b between = .error err d')
      (held : inputs ++ [output] = made ++ b :: last) :
      SetUp h e d (.error err (e.withBuffers inputs output, d'))
  | rejected {inputs : List Buffer} {output : Buffer} {between : DeviceState} {diagnostic : String}
      (checked : checkLimits h e.context = .ok ())
      (served : Through (Buffer.allocate h) e.context.buffers d (inputs ++ [output]) between)
      (failed : h.device.pipelineFailure = some diagnostic) :
      SetUp h e d (.error (.shaderCompile "pipeline creation rejected the kernel" diagnostic)
        ((e.withBuffers inputs output).piped, between))
  | done {inputs : List Buffer} {output : Buffer} {between d' : DeviceState} {group : BindGroup}
      {commands : List Command} (checked : checkLimits h e.context = .ok ())
      (served : Through (Buffer.allocate h) e.context.buffers d (inputs ++ [output]) between)
      (accepted : h.device.pipelineFailure = none) (noted : between.Notes d') :
      SetUp h e d (.ok () ({ (e.withBuffers inputs output).piped with
        bindGroup := some group, commands := some commands, stage := .configured }, d'))

theorem setup_outcome (standing : e.stage = .created) : SetUp h e d (setup h (e, d)) := by
  unfold setup
  rw [expect_bind standing, getEngine_bind]
  cases checked : checkLimits h e.context with
  | error err =>
    rw [orThrow_error]
    exact .refused checked
  | ok _ =>
    rw [orThrow_ok, bind_apply]
    have inputs : Served (Buffer.allocate h) e.context.inputs d
        (fun made => e.withBuffers made e.context.output)
        (eachInput (Buffer.allocate h) [] e.context.inputs (e, d)) :=
      eachInput_served (Buffer.allocate h) [] e.context.inputs e.context.output e d
    generalize eachInput (Buffer.allocate h) [] e.context.inputs (e, d) = result at inputs
    -- The inputs are served first. Where one of them fails, the output counts to those not served.
    cases inputs with
    | @stopped first last made b between d' err split served failed =>
      have later : e.context.buffers = first ++ b :: (last ++ [e.context.output]) := by
        rw [ExecutionContext.buffers, split, List.append_assoc, List.cons_append]
      refine .starved checked later served failed ?_
      rw [List.append_assoc, List.cons_append]
    | @all made d₁ served =>
      simp only
      cases last : Buffer.allocate h e.context.output d₁ with
      | error err d' =>
        rw [bind_error (onDevice_error last)]
        exact .starved checked rfl served last rfl
      | ok output d₂ =>
        rw [bind_ok (onDevice_ok last)]
        have all : Through (Buffer.allocate h) e.context.buffers d (made ++ [output]) d₂ :=
          served.concat last
        have initialized : ∀ b ∈ (e.withBuffers made output).context.buffers,
            b.isInitialized = true := all.made fun ran => (Buffer.allocate_houses ran).initialized
        -- The pipeline is kept even where the device rejects it, and only then is anything recorded.
        have built := buildPipeline_apply (h := h) (e := e.withBuffers made output) (d := d₂)
        change SetUp h e d ((buildPipeline h >>= _) (e.withBuffers made output, d₂))
        cases failing : h.device.pipelineFailure with
        | some diagnostic =>
          rw [failing] at built
          rw [bind_error built]
          exact .rejected checked all failing
        | none =>
          rw [failing] at built
          obtain ⟨group, commands, d', recorded, noted⟩ := record_done (d := d₂) initialized
          rw [bind_ok built, bind_ok recorded]
          exact .done checked all failing noted

inductive Uploaded (h : DeviceHandle) (e : Engine) (d : DeviceState) :
    EStateM.Result ComputeError (Engine × DeviceState) Unit → Prop where
  | stopped {first last made : List Buffer} {b : Buffer} {between d' : DeviceState}
      {err : ComputeError} (split : e.context.inputs = first ++ b :: last)
      (served : Through (Buffer.write h) first d made between)
      (failed : Buffer.write h b between = .error err d') :
      Uploaded h e d (.error err (e.withBuffers (made ++ b :: last) e.context.output, d'))
  | done {made : List Buffer} {d' : DeviceState}
      (served : Through (Buffer.write h) e.context.inputs d made d') :
      Uploaded h e d (.ok () ({ e.withBuffers made e.context.output with stage := .inputReady }, d'))

theorem transferInput_outcome (standing : e.stage = .configured) :
    Uploaded h e d (transferInput h (e, d)) := by
  unfold transferInput
  rw [expect_bind standing, getEngine_bind, bind_apply]
  have inputs : Served (Buffer.write h) e.context.inputs d
      (fun made => e.withBuffers made e.context.output)
      (eachInput (Buffer.write h) [] e.context.inputs (e, d)) :=
    eachInput_served (Buffer.write h) [] e.context.inputs e.context.output e d
  generalize eachInput (Buffer.write h) [] e.context.inputs (e, d) = result at inputs
  cases inputs with
  | stopped split served failed => exact .stopped split served failed
  | all served => exact .done served

def submitted (e : Engine) (device : Device) (commands : List Command) (number : Nat) : Engine :=
  { e with
    context := commands.foldl (runCommand device) e.context
    commands := none
    fence := some ⟨number⟩
    stage := .executed }

theorem execute_outcome (standing : e.stage = .inputReady) : execute h (e, d) =
    match e.commands with
    | none => .error (.usage .commandsSubmitted) (e, d)
    | some commands => match acquire d.pool with
      | .error err => .error err ({ e with commands := none }, d)
      | .ok leased => .ok () (e.submitted h.device commands (d.submissions + 1),
          { d with pool := leased.release (), submissions := d.submissions + 1 }) := by
  unfold execute
  rw [expect_bind standing, getEngine_bind]
  cases e.commands with
  | none => rfl
  | some commands =>
    -- The commands are taken before there is a lease, so they are gone even where there is none.
    cases acquired : acquire d.pool with
    | error err =>
      have failed : submit h.device commands ({ e with commands := none }, d) =
          .error err ({ e with commands := none }, d) := by
        unfold submit
        show (orThrow (acquire d.pool) >>= _) ({ e with commands := none }, d) = _
        rw [acquired, orThrow_error]
      show (submit h.device commands >>= _) ({ e with commands := none }, d) = _
      exact bind_error failed
    | ok leased =>
      have sent : submit h.device commands ({ e with commands := none }, d) = .ok ⟨d.submissions + 1⟩
          ({ e with commands := none, context := commands.foldl (runCommand h.device) e.context },
            { d with pool := leased.release (), submissions := d.submissions + 1 }) := by
        unfold submit
        show (orThrow (acquire d.pool) >>= _) ({ e with commands := none }, d) = _
        rw [acquired, orThrow_ok]
        rfl
      show (submit h.device commands >>= _) ({ e with commands := none }, d) = _
      exact bind_ok sent

theorem transferOutput_outcome (standing : e.stage = .executed) : transferOutput h (e, d) =
    match Buffer.read h e.context.output d with
    | .error err d' => .error err (e, d')
    | .ok output d' => .ok () ({ e.withBuffers e.context.inputs output with stage := .complete }, d') := by
  unfold transferOutput
  rw [expect_bind standing, getEngine_bind]
  cases ran : Buffer.read h e.context.output d with
  | error err d' => rw [bind_error (onDevice_error ran)]
  | ok output d' =>
    rw [bind_ok (onDevice_ok ran)]
    rfl

theorem releaseAll_apply (bs : List Buffer) (d : DeviceState) : releaseAll bs d =
    (bs.map Buffer.discarded, d.noting ((bs.flatMap fun b => b.memories.reverse).map .destroy)) := by
  induction bs generalizing d with
  | nil =>
    show ([], d) = ([], d.noting [])
    rw [DeviceState.noting, List.append_nil]
  | cons b rest ih =>
    unfold releaseAll
    simp only [Buffer.release_apply, ih, List.map_cons, List.flatMap_cons, List.map_append,
      DeviceState.noting, List.append_assoc]
    rfl

def bare (e : Engine) : Engine :=
  { context := { e.context with
      inputs := e.context.inputs.map Buffer.discarded
      output := e.context.output.discarded }
    stage := .disposed }

theorem buffers_bare (e : Engine) :
    e.bare.context.buffers = e.context.buffers.map Buffer.discarded := by
  unfold ExecutionContext.buffers
  rw [List.map_append]
  rfl

theorem dispose_apply (standing : e.stage ≠ .disposed) : dispose e d =
    (e.bare, d.noting ((e.context.buffers.flatMap Buffer.memories).reverse.map .destroy)) := by
  have inputs : (e.context.inputs.reverse.map Buffer.discarded).reverse =
      e.context.inputs.map Buffer.discarded := by
    rw [List.map_reverse, List.reverse_reverse]
  have order : (e.context.buffers.flatMap Buffer.memories).reverse =
      e.context.output.memories.reverse ++
        e.context.inputs.reverse.flatMap fun b => b.memories.reverse := by
    rw [ExecutionContext.buffers, List.flatMap_append, List.flatMap_singleton, List.reverse_append,
      List.reverse_flatMap]
    rfl
  unfold dispose
  rw [if_neg standing]
  simp only [Buffer.release_apply, releaseAll_apply, inputs, order, DeviceState.noting, List.map_append,
    List.append_assoc]
  rfl

end Actions

/-! ## Commands -/

structure Rewrites (c c' : ExecutionContext) : Prop where
  inputs : List.Forall₂ Buffer.Rewrites c.inputs c'.inputs
  output : c.output.Rewrites c'.output

theorem Rewrites.buffers {c c' : ExecutionContext} (rewrites : Rewrites c c') :
    List.Forall₂ Buffer.Rewrites c.buffers c'.buffers :=
  List.rel_append rewrites.inputs (.cons rewrites.output .nil)

theorem transfer_rewrites (slot : Nat) {f : Allocation → Allocation}
    (same : ∀ a, (f a).staging.isSome = a.staging.isSome) (b : Buffer) :
    b.Rewrites (transfer slot f b) := by
  unfold transfer
  split
  · exact Buffer.rewrites_of_staging same
  · exact .refl b

theorem transfers_rewrites (slot : Nat) {f : Allocation → Allocation}
    (same : ∀ a, (f a).staging.isSome = a.staging.isSome) (c : ExecutionContext) :
    Rewrites c { c with inputs := c.inputs.map (transfer slot f), output := transfer slot f c.output } := by
  refine ⟨?_, transfer_rewrites slot same c.output⟩
  rw [List.forall₂_map_right_iff]
  exact List.forall₂_same.mpr fun b _ => transfer_rewrites slot same b

theorem runCommand_rewrites (device : Device) (c : ExecutionContext) (command : Command) :
    Rewrites c (runCommand device c command) := by
  cases command with
  | upload slot =>
    refine transfers_rewrites slot ?_ c
    exact fun _ => rfl
  | download slot =>
    refine transfers_rewrites slot ?_ c
    exact fun _ => Option.isSome_map
  | dispatch _ =>
    refine ⟨List.forall₂_same.mpr fun b _ => .refl b, ?_⟩
    exact Buffer.rewrites_of_staging fun _ => rfl

theorem forall₂_rewrites_trans {xs ys zs : List Buffer} (first : List.Forall₂ Buffer.Rewrites xs ys)
    (second : List.Forall₂ Buffer.Rewrites ys zs) : List.Forall₂ Buffer.Rewrites xs zs := by
  induction first generalizing zs with
  | nil =>
    cases second
    exact .nil
  | cons own _ ih =>
    cases second with
    | cons next others => exact .cons (own.trans next) (ih others)

theorem Rewrites.trans {c c' c'' : ExecutionContext} (first : Rewrites c c') (second : Rewrites c' c'') :
    Rewrites c c'' :=
  ⟨forall₂_rewrites_trans first.inputs second.inputs, first.output.trans second.output⟩

theorem runCommands_rewrites (device : Device) (commands : List Command) (c : ExecutionContext) :
    Rewrites c (commands.foldl (runCommand device) c) := by
  induction commands generalizing c with
  | nil => exact ⟨List.forall₂_same.mpr fun b _ => .refl b, .refl c.output⟩
  | cons command rest ih => exact (runCommand_rewrites device c command).trans (ih _)

end Engine
end ArrayQuery
