import ArrayQuery.Proofs.Ledger
import ArrayQuery.Proofs.Admission
import ArrayQuery.Proofs.Prepared

/-! What an engine has at hand in each of its stages. From the context of a prepared query on, no call
that is made of an engine, in whatever order and whichever of them fail, finds anything missing that
its stage promises. -/

set_option autoImplicit false
namespace ArrayQuery

theorem forall₂_concat {α β : Type} {R : α → β → Prop} {xs : List α} {ys : List β} {x : α} {y : β}
    (each : List.Forall₂ R (xs ++ [x]) (ys ++ [y])) : List.Forall₂ R xs ys ∧ R x y := by
  rw [← List.forall₂_reverse_iff] at each
  simp only [List.reverse_append, List.reverse_cons, List.reverse_nil, List.nil_append,
    List.cons_append, List.forall₂_cons, List.forall₂_reverse_iff] at each
  exact each.symm

def ComputeError.IsForeseen : ComputeError → Prop
  | .usage m => m = .outputTaken ∨ ∃ step required current, m = .wrongStage step required current
  | .device cause => cause ≠ .queuePoolClosed
  | .shaderCompile .. => True
  | .unsupported .. | .config _ => False

def QueuePool.IsShared (p : QueuePool (Channel Unit)) : Prop :=
  ∃ (n slots : Nat) (turns : List (Fin n × Turn)), p = ((Clients.start n () slots).run turns).pool

theorem QueuePool.IsShared.lends {p : QueuePool (Channel Unit)} (shared : p.IsShared) :
    ∃ leased, p.Lends leased := by
  obtain ⟨n, slots, turns, rfl⟩ := shared
  exact ⟨_, ((Clients.start_balanced n () slots).run turns).2⟩

theorem ExecutionContext.Stocked.alike {c c' : ExecutionContext} (stocked : c.Stocked)
    (alike : List.Forall₂ Buffer.Alike c.buffers c'.buffers) :
    c'.Stocked ∧ c'.output.host = c.output.host := by
  obtain ⟨inputs, output⟩ := forall₂_concat alike
  refine ⟨⟨?_, ?_, ?_⟩, output.host⟩
  · intro b' member
    obtain ⟨b, held, same⟩ := Kernel.exists_of_forall₂ inputs member
    rw [same.host]
    exact stocked.supplied b held
  · rw [output.layout, output.element]
    exact stocked.layout
  · rw [output.element]
    exact stocked.positive

namespace Buffer

variable {h : DeviceHandle} {b : Buffer} {d d' : DeviceState} {err : ComputeError}

theorem allocate_foreseen (ran : allocate h b d = .error err d') : err.IsForeseen := by
  rw [allocate_apply] at ran
  split at ran
  · cases ran
    rintro ⟨⟩
  · split at ran
    · next e selected =>
      cases ran
      obtain ⟨_, p, found⟩ | ⟨_, missing⟩ := h.selectPlacement_cases
      · cases selected.symm.trans found
      · cases selected.symm.trans missing
        rintro ⟨⟩
    · simp only at ran
      split at ran
      · cases ran
        rintro ⟨⟩
      · cases ran

theorem write_foreseen (housed : b.isInitialized = true) (supplied : b.host.isSome = true)
    (ran : write h b d = .error err d') : err.IsForeseen := by
  obtain ⟨a, held⟩ := Option.isSome_iff_exists.mp housed
  obtain ⟨host, data⟩ := Option.isSome_iff_exists.mp supplied
  rw [write_apply] at ran
  simp only [held, data] at ran
  split at ran
  · cases ran
    rintro ⟨⟩
  · cases ran

theorem read_foreseen (housed : b.isInitialized = true) (layout : b.layout = .of b.element)
    (positive : 0 < b.element.hostStride) (ran : read h b d = .error err d') : err.IsForeseen := by
  obtain ⟨a, held⟩ := Option.isSome_iff_exists.mp housed
  obtain ⟨host, whole⟩ := readBack_whole layout positive a
  rw [read_apply] at ran
  simp only [held, whole] at ran
  split at ran
  · cases ran
    rintro ⟨⟩
  · cases ran

end Buffer

namespace Engine

def IsHoused (e : Engine) : Prop :=
  ∀ b ∈ e.context.buffers, b.isInitialized = true

theorem IsHoused.rewrites {e e' : Engine} (housed : e.IsHoused)
    (rewrites : List.Forall₂ Buffer.Rewrites e.context.buffers e'.context.buffers) : e'.IsHoused := by
  intro b' member
  obtain ⟨b, held, same⟩ := Kernel.exists_of_forall₂ rewrites member
  rw [same.initialized]
  exact housed b held

theorem IsHoused.result {e e' : Engine} (housed : e.IsHoused)
    (inputs : e'.context.inputs = e.context.inputs)
    (output : e'.context.output.allocation = e.context.output.allocation) : e'.IsHoused := by
  obtain ⟨all, last⟩ := ExecutionContext.forall_buffers.mp housed
  refine ExecutionContext.forall_buffers.mpr ⟨inputs ▸ all, ?_⟩
  rwa [Buffer.isInitialized, output]

/-- An engine whose commands wait to be submitted. -/
structure HasRecorded (e : Engine) : Prop where
  housed : e.IsHoused
  bindGroupLayout : e.bindGroupLayout.isSome = true
  pipelineLayout : e.pipelineLayout.isSome = true
  shader : e.shader.isSome = true
  pipeline : e.pipeline.isSome = true
  bindGroup : e.bindGroup.isSome = true
  commands : e.commands.isSome = true

structure HasSubmitted (e : Engine) : Prop where
  housed : e.IsHoused
  commands : e.commands = none
  fence : e.fence.isSome = true

/-- Whether an engine has what its stage promises. -/
structure IsEquipped (e : Engine) : Prop where
  recorded : e.stage = .configured ∨ e.stage = .inputReady → e.HasRecorded
  submitted : e.stage = .executed ∨ e.stage = .complete → e.HasSubmitted
  result : e.context.output.host.isSome = true → e.stage = .complete ∨ e.stage = .disposed

structure IsSound (e : Engine) : Prop where
  stocked : e.context.Stocked
  equipped : e.IsEquipped

/-- What is true before every call, and after it. -/
def Holds (s : Engine × DeviceState) : Prop :=
  s.1.IsSound ∧ ∃ leased, s.2.pool.Lends leased

/-- An action that keeps an engine sound, and fails only as can be foreseen. -/
def Keeps {α : Type} (m : EngineM α) : Prop :=
  ∀ s, Holds s → match m s with
    | .ok _ after => Holds after
    | .error err after => Holds after ∧ err.IsForeseen

section Rules

variable {α β : Type} {m : EngineM α} {f : α → EngineM β}

theorem keeps_pure (a : α) : Keeps (pure a : EngineM α) := fun _ holds => holds

theorem keeps_bind (first : Keeps m) (rest : ∀ a, Keeps (f a)) : Keeps (m >>= f) := by
  intro s holds
  have kept := first s holds
  rw [bind_apply]
  cases ran : m s with
  | ok a after =>
    rw [ran] at kept
    exact rest a after kept
  | error err after =>
    rw [ran] at kept
    exact kept

theorem keeps_expect (step : String) (required : Stage) : Keeps (expect step required) := by
  intro s holds
  rw [expect_apply]
  by_cases standing : s.1.stage = required
  · rw [if_pos standing]
    exact holds
  · rw [if_neg standing]
    exact ⟨holds, .inr ⟨_, _, _, rfl⟩⟩

/-- It is enough that the engine stays sound: the books settle what becomes of the pool. -/
theorem keeps_of_sound {m : EngineM Unit} (settled : Settled m)
    (sound : ∀ s : Engine × DeviceState, Holds s → (left m s).1.IsSound ∧
      ∀ err after, m s = .error err after → err.IsForeseen) : Keeps m := by
  intro s holds
  obtain ⟨own, foreseen⟩ := sound s holds
  obtain ⟨leased, lends⟩ := holds.2
  obtain ⟨left, _, _, still⟩ := (settled s).leases leased lends
  unfold Engine.left at own still
  cases ran : m s with
  | ok a after =>
    rw [ran] at own still
    exact ⟨own, left, still⟩
  | error err after =>
    rw [ran] at own still
    exact ⟨⟨own, left, still⟩, foreseen err after ran⟩

end Rules

section Steps

variable {h : DeviceHandle} {e e' : Engine} {d : DeviceState}

theorem checkLimits_foreseen {err : ComputeError} (checked : checkLimits h e.context = .error err) :
    err.IsForeseen := by
  obtain ⟨err', failed, objection⟩ | ⟨passed, _⟩ := checkLimits_cases h e.context
  · cases checked.symm.trans failed
    cases objection <;> rintro ⟨⟩
  · cases checked.symm.trans passed

-- Before the end there is no result: what is in the buffers need not be looked at for that.
theorem IsEquipped.resultless (equipped : e.IsEquipped) (pending : e.stage.rank < 4) :
    e.context.output.host = none := by
  by_contra held
  obtain standing | standing := equipped.result (Option.isSome_iff_ne_none.mpr held) <;>
  · rw [standing] at pending
    contradiction

theorem IsSound.pending (sound : e.IsSound) (pending : e.stage.rank < 4)
    (alike : List.Forall₂ Buffer.Alike e.context.buffers e'.context.buffers)
    (recorded : e'.stage = .configured ∨ e'.stage = .inputReady → e'.HasRecorded)
    (submitted : e'.stage = .executed ∨ e'.stage = .complete → e'.HasSubmitted) : e'.IsSound := by
  obtain ⟨stocked, same⟩ := sound.stocked.alike alike
  refine ⟨stocked, recorded, submitted, ?_⟩
  rw [same, sound.equipped.resultless pending]
  nofun

theorem IsSound.created (sound : e.IsSound) (standing : e.stage = .created)
    (alike : List.Forall₂ Buffer.Alike e.context.buffers e'.context.buffers)
    (still : e'.stage = .created) : e'.IsSound := by
  have pending : e.stage.rank < 4 := by
    rw [standing]
    decide
  refine sound.pending pending alike ?_ ?_ <;>
  · rw [still]
    rintro (later | later) <;> cases later

theorem setup_sound (sound : e.IsSound) (standing : e.stage = .created) :
    (left (setup h) (e, d)).1.IsSound ∧
      ∀ err after, setup h (e, d) = .error err after → err.IsForeseen := by
  have outcome := setup_outcome (h := h) (d := d) standing
  unfold left
  generalize setup h (e, d) = result at outcome ⊢
  cases outcome with
  | refused checked =>
    refine ⟨sound, ?_⟩
    rintro err after ⟨⟩
    exact checkLimits_foreseen checked
  | @starved first last made inputs b output between d' err _ split served failed held =>
    have alike := served.forall₂_append (fun ran => (Buffer.allocate_houses ran).alike) .refl (b :: last)
    rw [← split, ← held] at alike
    refine ⟨sound.created standing alike standing, ?_⟩
    rintro err after ⟨⟩
    exact Buffer.allocate_foreseen failed
  | rejected _ served =>
    have alike := served.forall₂ fun ran => (Buffer.allocate_houses ran).alike
    refine ⟨sound.created standing alike standing, ?_⟩
    rintro err after ⟨⟩
    trivial
  | done _ served =>
    have alike := served.forall₂ fun ran => (Buffer.allocate_houses ran).alike
    have housed := served.made fun ran => (Buffer.allocate_houses ran).initialized
    refine ⟨sound.pending (by rw [standing]; decide) alike ?_ ?_, fun _ _ failed => nomatch failed⟩
    · exact fun _ => ⟨housed, rfl, rfl, rfl, rfl, rfl, rfl⟩
    · rintro (later | later) <;> cases later

theorem transferInput_sound (sound : e.IsSound) (standing : e.stage = .configured) :
    (left (transferInput h) (e, d)).1.IsSound ∧
      ∀ err after, transferInput h (e, d) = .error err after → err.IsForeseen := by
  have ready := sound.equipped.recorded (.inl standing)
  have pending : e.stage.rank < 4 := by
    rw [standing]
    decide
  have outcome := transferInput_outcome (h := h) (d := d) standing
  unfold left
  generalize transferInput h (e, d) = result at outcome ⊢
  cases outcome with
  | @stopped first last made b between d' err split served failed =>
    -- The inputs before the failing one are rewritten, and the others are as they were.
    have inputs := served.forall₂_append (fun ran => (Buffer.write_rewrites ran).1) .refl (b :: last)
    rw [← split] at inputs
    have rewrites : List.Forall₂ Buffer.Rewrites e.context.buffers
        { e.context with inputs := made ++ b :: last }.buffers := Rewrites.buffers ⟨inputs, .refl _⟩
    have alike := rewrites.imp fun _ _ same => same.alike
    have member : b ∈ e.context.inputs := split ▸ List.mem_append_right first List.mem_cons_self
    refine ⟨sound.pending pending alike ?_ ?_, ?_⟩
    · exact fun _ => { ready with housed := ready.housed.rewrites rewrites }
    · show e.stage = _ ∨ e.stage = _ → _
      rw [standing]
      rintro (later | later) <;> cases later
    · rintro err after ⟨⟩
      exact Buffer.write_foreseen ((ExecutionContext.forall_buffers.mp ready.housed).1 b member)
        (sound.stocked.supplied b member) failed
  | @done made d' served =>
    have inputs := served.forall₂ fun ran => (Buffer.write_rewrites ran).1
    have rewrites : List.Forall₂ Buffer.Rewrites e.context.buffers
        { e.context with inputs := made }.buffers := Rewrites.buffers ⟨inputs, .refl _⟩
    have alike := rewrites.imp fun _ _ same => same.alike
    refine ⟨sound.pending pending alike ?_ ?_, fun _ _ failed => nomatch failed⟩
    · exact fun _ => { ready with housed := ready.housed.rewrites rewrites }
    · rintro (later | later) <;> cases later

theorem execute_sound (holds : Holds (e, d)) (standing : e.stage = .inputReady) :
    (left (execute h) (e, d)).1.IsSound ∧
      ∀ err after, execute h (e, d) = .error err after → err.IsForeseen := by
  obtain ⟨sound, leased, lends⟩ := holds
  have ready := sound.equipped.recorded (.inr standing)
  obtain ⟨commands, recorded⟩ := Option.isSome_iff_exists.mp ready.commands
  -- This is where a pool that others share is needed: one of a channel without senders is closed.
  obtain ⟨rest, _, acquired, _⟩ := acquire_lends lends
  have rewrites := (runCommands_rewrites h.device commands e.context).buffers
  have alike := rewrites.imp fun _ _ same => same.alike
  unfold left
  rw [execute_outcome standing, recorded]
  simp only [acquired]
  refine ⟨sound.pending (by rw [standing]; decide) alike ?_ ?_, fun _ _ failed => nomatch failed⟩
  · rintro (later | later) <;> cases later
  · exact fun _ => ⟨ready.housed.rewrites rewrites, rfl, rfl⟩

theorem transferOutput_sound (sound : e.IsSound) (standing : e.stage = .executed) :
    (left (transferOutput h) (e, d)).1.IsSound ∧
      ∀ err after, transferOutput h (e, d) = .error err after → err.IsForeseen := by
  have spent := sound.equipped.submitted (.inl standing)
  have housed := (ExecutionContext.forall_buffers.mp spent.housed).2
  unfold left
  rw [transferOutput_outcome standing]
  cases ran : Buffer.read h e.context.output d with
  | error err d' =>
    refine ⟨sound, ?_⟩
    rintro err after ⟨⟩
    exact Buffer.read_foreseen housed sound.stocked.layout sound.stocked.positive ran
  | ok output d' =>
    obtain ⟨⟨host, rfl⟩, _⟩ := Buffer.read_ok ran
    refine ⟨⟨⟨sound.stocked.supplied, sound.stocked.layout, sound.stocked.positive⟩, ?_, ?_, ?_⟩,
      fun _ _ failed => nomatch failed⟩
    · rintro (later | later) <;> cases later
    · exact fun _ => ⟨spent.housed.result rfl rfl, spent.commands, spent.fence⟩
    · exact fun _ => .inl rfl

theorem keeps_step (h : DeviceHandle) (step : Step) : Keeps (step.action h) := by
  refine keeps_of_sound (settled_step h step) ?_
  rintro ⟨e, d⟩ holds
  by_cases standing : e.stage = step.source
  · cases step with
    | setup => exact setup_sound holds.1 standing
    | transferInput => exact transferInput_sound holds.1 standing
    | execute => exact execute_sound holds standing
    | transferOutput => exact transferOutput_sound holds.1 standing
  · unfold left
    rw [action_refused h (s := (e, d)) standing]
    refine ⟨holds.1, ?_⟩
    rintro err after ⟨⟩
    exact .inr ⟨_, _, _, rfl⟩

end Steps

section Calls

variable {h : DeviceHandle} {s : Engine × DeviceState}

theorem keeps_whenAt (h : DeviceHandle) (step : Step) : Keeps (whenAt step.source (step.action h)) := by
  intro s holds
  rw [whenAt_apply]
  by_cases standing : s.1.stage = step.source
  · rw [if_pos standing]
    exact keeps_step h step s holds
  · rw [if_neg standing]
    exact holds

theorem keeps_run (h : DeviceHandle) : Keeps (run h) := by
  apply keeps_bind (keeps_whenAt h .setup)
  intro _
  apply keeps_bind (keeps_whenAt h .transferInput)
  intro _
  apply keeps_bind (keeps_whenAt h .execute)
  intro _
  apply keeps_bind (keeps_whenAt h .transferOutput)
  intro _
  exact keeps_expect _ _

theorem keeps_takeOutput : Keeps takeOutput := by
  rintro ⟨e, d⟩ holds
  by_cases standing : e.stage = .complete
  · have spent := holds.1.equipped.submitted (.inr standing)
    have sound : (emptied (e, d)).1.IsSound := by
      have stocked := holds.1.stocked
      refine ⟨⟨stocked.supplied, stocked.layout, stocked.positive⟩, ?_, ?_, nofun⟩
      · show e.stage = _ ∨ e.stage = _ → _
        rw [standing]
        rintro (later | later) <;> cases later
      · exact fun _ => ⟨spent.housed.result rfl rfl, spent.commands, spent.fence⟩
    rw [takeOutput_apply (s := (e, d)) standing]
    cases e.context.output.host with
    | some a => exact ⟨sound, holds.2⟩
    | none => exact ⟨⟨sound, holds.2⟩, .inl rfl⟩
  · rw [takeOutput_refused (s := (e, d)) standing]
    exact ⟨holds, .inr ⟨_, _, _, rfl⟩⟩

theorem dispose_holds (holds : Holds s) : Holds (dispose s.1 s.2) := by
  by_cases standing : s.1.stage = .disposed
  · unfold dispose
    rwa [if_pos standing]
  · rw [dispose_apply standing]
    have alike : List.Forall₂ Buffer.Alike s.1.context.buffers s.1.bare.context.buffers := by
      rw [buffers_bare, List.forall₂_map_right_iff]
      exact List.forall₂_same.mpr fun _ _ => rfl
    refine ⟨⟨(holds.1.stocked.alike alike).1, ?_, ?_, fun _ => .inr rfl⟩, holds.2⟩ <;>
    · rintro (later | later) <;> cases later

theorem Call.keeps (call : Call) (h : DeviceHandle) : Keeps (call.action h) := by
  cases call with
  | step step => exact keeps_bind (keeps_step h step) fun _ => keeps_pure none
  | run => exact keeps_bind (keeps_run h) fun _ => keeps_pure none
  | takeOutput => exact keeps_bind keeps_takeOutput fun a => keeps_pure (some a)
  | dispose => exact fun s holds => dispose_holds holds

structure Entry.IsSound (entry : Entry) : Prop where
  before : entry.before.1.IsEquipped
  after : entry.after.1.IsEquipped
  foreseen : ∀ err, entry.outcome = .error err → err.IsForeseen

theorem entry_sound (call : Call) (h : DeviceHandle) (holds : Holds s) :
    (call.entry h s).IsSound ∧ Holds (call.entry h s).after := by
  have kept := call.keeps h s holds
  unfold Call.entry
  cases ran : call.action h s with
  | ok a after =>
    rw [ran] at kept
    exact ⟨⟨holds.1.equipped, kept.1.equipped, fun _ failed => nomatch failed⟩, kept⟩
  | error err after =>
    rw [ran] at kept
    refine ⟨⟨holds.1.equipped, kept.1.1.equipped, ?_⟩, kept.1⟩
    rintro err' ⟨⟩
    exact kept.2

theorem history_sound {e : Engine} (calls : List (Call × DeviceHandle × DeviceState))
    (shared : ∀ made ∈ calls, made.2.2.pool.IsShared) (sound : e.IsSound) :
    ∀ entry ∈ history e calls, entry.IsSound := by
  induction calls generalizing e with
  | nil => exact fun _ member => absurd member List.not_mem_nil
  | cons made rest ih =>
    obtain ⟨call, h, d⟩ := made
    obtain ⟨pool, others⟩ := List.forall_mem_cons.mp shared
    obtain ⟨own, next⟩ := entry_sound call h (s := (e, d)) ⟨sound, pool.lends⟩
    exact List.forall_mem_cons.mpr ⟨own, ih others next.1⟩

end Calls

theorem IsSound.start {c : ExecutionContext} (untouched : c.Untouched) :
    ({ context := c } : Engine).IsSound := by
  refine ⟨untouched.stocked, ?_, ?_, ?_⟩
  · rintro (later | later) <;> cases later
  · rintro (later | later) <;> cases later
  · rw [untouched.resultless]
    nofun

/-- Whatever is asked of an engine that starts with a prepared query, in whatever order and on
whatever devices: in each stage it has what the stage promises, and it fails only where a call is
made in the wrong stage, where its result has been handed out before, where the device fails it, or
where the device has no use for the kernel. -/
theorem history_equipped {h : DeviceHandle} {compiler : ShaderCompiler} {root : Expr}
    {c : ExecutionContext} (strict : compiler.IsStrict) (prepared : h.prepare compiler root = .ok c)
    (calls : List (Call × DeviceHandle × DeviceState))
    (shared : ∀ made ∈ calls, made.2.2.pool.IsShared) :
    ∀ entry ∈ history { context := c } calls, entry.IsSound :=
  history_sound calls shared (.start (DeviceHandle.prepare_untouched strict prepared))

/-- A call out of turn, a run from the middle, and a result asked for twice. -/
theorem wordsQuery_equipped :
    let h : DeviceHandle := ⟨.echo {} true fun _ => none, {}, [.hostVisible]⟩
    let calls : List Call := [.step .execute, .step .setup, .run, .takeOutput, .takeOutput, .dispose]
    let made := calls.map fun call => (call, h, h.initial)
    ∃ c, ShaderCompiler.memberwise.IsStrict ∧ h.prepare .memberwise wordsQuery = .ok c ∧
      (∀ m ∈ made, m.2.2.pool.IsShared) ∧ ∀ entry ∈ history { context := c } made, entry.IsSound := by
  intro h calls made
  have accepted : ShaderCompiler.memberwise (.ofProgram wordsKernel) = .ok ⟨Kernel.entryPoint, 256⟩ :=
    ShaderCompiler.memberwise_accepts (by decide +kernel)
  have prepared : h.prepare .memberwise wordsQuery = .ok _ :=
    DeviceHandle.prepare_ok.mpr ⟨_, _, wordsQuery_compiled, accepted, rfl⟩
  have shared : ∀ m ∈ made, m.2.2.pool.IsShared := by
    intro m member
    obtain ⟨call, _, rfl⟩ := List.mem_map.mp member
    exact ⟨0, h.config.queueSlots, [], rfl⟩
  have strict := ShaderCompiler.memberwise_isStrict
  exact ⟨_, strict, prepared, shared, history_equipped strict prepared made shared⟩

end Engine
end ArrayQuery
