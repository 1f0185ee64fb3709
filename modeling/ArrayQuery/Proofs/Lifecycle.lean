import ArrayQuery.Device.Engine

/-! An engine only moves on: whatever calls are made of it, in whatever order, and whichever of
them fail. A call that is made out of its turn is refused and changes nothing, and the result of a
run is handed out once. -/

set_option autoImplicit false
namespace ArrayQuery

def Stage.rank : Stage → Nat
  | created => 0
  | configured => 1
  | inputReady => 2
  | executed => 3
  | complete => 4
  | disposed => 5

namespace Engine

def left {α : Type} (m : EngineM α) (s : Engine × DeviceState) : Engine × DeviceState :=
  match m s with
  | .ok _ after => after
  | .error _ after => after

/-- An action that leaves the engine in its stage. -/
def Stays {α : Type} (m : EngineM α) : Prop :=
  ∀ s, (left m s).1.stage = s.1.stage

/-- An action that ends in a stage, and leaves the engine in the stage it was in where it fails. -/
def Enters {α : Type} (stage : Stage) (m : EngineM α) : Prop :=
  ∀ s, match m s with
    | .ok _ after => after.1.stage = stage
    | .error _ after => after.1.stage = s.1.stage

def Ends {α : Type} (stage : Stage) (m : EngineM α) : Prop :=
  ∀ s a after, m s = .ok a after → after.1.stage = stage

/-- An action that moves an engine on, but does not dispose of it. -/
def Drives {α : Type} (m : EngineM α) : Prop :=
  ∀ s, s.1.stage.rank ≤ (left m s).1.stage.rank ∧
    ((left m s).1.stage = .disposed → s.1.stage = .disposed)

section Actions

variable {α β : Type} {m : EngineM α} {f : α → EngineM β} {s : Engine × DeviceState}

theorem bind_apply : (m >>= f) s = match m s with
    | .ok a after => f a after
    | .error e after => .error e after := by
  show EStateM.bind m f s = _
  unfold EStateM.bind
  cases m s <;> rfl

theorem left_bind : left (m >>= f) s = match m s with
    | .ok a after => left (f a) after
    | .error _ after => after := by
  unfold left
  rw [bind_apply]
  cases m s <;> rfl

theorem stays_pure (a : α) : Stays (pure a : EngineM α) := fun _ => rfl

theorem stays_throw (e : ComputeError) : Stays (throw e : EngineM α) := fun _ => rfl

theorem stays_bind (first : Stays m) (rest : ∀ a, Stays (f a)) : Stays (m >>= f) := by
  intro s
  have kept := first s
  rw [left_bind]
  unfold left at kept
  cases ran : m s with
  | ok a after =>
    rw [ran] at kept
    exact (rest a after).trans kept
  | error e after =>
    rw [ran] at kept
    exact kept

theorem stays_modify {g : Engine → Engine} (same : ∀ e, (g e).stage = e.stage) :
    Stays (modifyEngine g) :=
  fun s => same s.1

theorem stays_getEngine : Stays getEngine := fun _ => rfl

theorem stays_onDevice (x : DeviceM α) : Stays (onDevice x) := by
  intro s
  unfold left onDevice
  cases x s.2 <;> rfl

theorem stays_orThrow (r : Except ComputeError α) : Stays (orThrow r) := by
  cases r with
  | ok a => exact stays_pure a
  | error e => exact stays_throw e

/-- A stage is entered at the very end, after everything that can fail. -/
theorem enters_bind {stage : Stage} (first : Stays m) (rest : ∀ a, Enters stage (f a)) :
    Enters stage (m >>= f) := by
  intro s
  have kept := first s
  rw [bind_apply]
  unfold left at kept
  cases ran : m s with
  | ok a after =>
    rw [ran] at kept
    have entered := rest a after
    simp only at kept ⊢
    cases rested : f a after with
    | ok b last =>
      rw [rested] at entered
      exact entered
    | error e last =>
      rw [rested] at entered
      exact entered.trans kept
  | error e after =>
    rw [ran] at kept
    exact kept

theorem enters_enter (stage : Stage) : Enters stage (enter stage) := fun _ => rfl

theorem ends_bind {stage : Stage} (rest : ∀ a, Ends stage (f a)) : Ends stage (m >>= f) := by
  intro s b last ran
  rw [bind_apply] at ran
  cases first : m s with
  | ok a after =>
    rw [first] at ran
    exact rest a after b last ran
  | error e after =>
    rw [first] at ran
    cases ran

theorem drives_bind (first : Drives m) (rest : ∀ a, Drives (f a)) : Drives (m >>= f) := by
  intro s
  have moved := first s
  rw [left_bind]
  unfold left at moved
  cases ran : m s with
  | ok a after =>
    rw [ran] at moved
    have further := rest a after
    exact ⟨Nat.le_trans moved.1 further.1, fun disposed => moved.2 (further.2 disposed)⟩
  | error e after =>
    rw [ran] at moved
    exact moved

theorem Stays.drives (kept : Stays m) : Drives m := by
  intro s
  rw [kept s]
  exact ⟨Nat.le_refl _, id⟩

end Actions

theorem stays_eachInput (f : Buffer → DeviceM Buffer) (done rest : List Buffer) :
    Stays (eachInput f done rest) := by
  induction rest generalizing done with
  | nil => exact stays_pure ()
  | cons b rest ih =>
    apply stays_bind (stays_onDevice _)
    intro b
    exact stays_bind (stays_modify fun _ => rfl) fun _ => ih (done ++ [b])

theorem stays_recordTransfer (b : Buffer) : Stays (recordTransfer b) := by
  apply stays_bind (stays_orThrow _)
  intro a
  split
  · cases b.direction <;> exact stays_bind (stays_onDevice _) fun _ => stays_pure _
  · exact stays_pure _

theorem stays_recordTransfers (buffers : List Buffer) : Stays (recordTransfers buffers) := by
  induction buffers with
  | nil => exact stays_pure _
  | cons b rest ih =>
    apply stays_bind (stays_recordTransfer b)
    intro first
    exact stays_bind ih fun _ => stays_pure _

theorem stays_buildPipeline (h : DeviceHandle) : Stays (buildPipeline h) := by
  apply stays_bind stays_getEngine
  intro e
  refine stays_bind (stays_modify ?_) ?_
  · exact fun _ => rfl
  intro _
  cases h.device.pipelineFailure with
  | some diagnostic => exact stays_throw _
  | none => exact stays_pure _

theorem stays_record : Stays record := by
  apply stays_bind stays_getEngine
  intro e
  apply stays_bind (stays_orThrow _)
  intro sizes
  cases e.bindGroupLayout with
  | none => exact stays_throw _
  | some layout =>
    apply stays_bind (stays_recordTransfers _)
    intro uploads
    split
    · exact stays_throw _
    · apply stays_bind (stays_onDevice _)
      intro _
      apply stays_bind (stays_recordTransfer _)
      intro downloads
      exact stays_modify fun _ => rfl

theorem stays_submit (device : Device) (commands : List Command) :
    Stays (submit device commands) := by
  intro s
  have got : (get : EngineM (Engine × DeviceState)) s = .ok s s := rfl
  unfold left submit
  rw [bind_apply, got]
  cases acquired : acquire s.2.pool with
  | ok leased => simp only [bind_apply, acquired, orThrow]; rfl
  | error e => simp only [bind_apply, acquired, orThrow]; rfl

/-! ## Steps -/

inductive Step where
  | setup
  | transferInput
  | execute
  | transferOutput
  deriving DecidableEq, Repr

namespace Step

def name : Step → String
  | setup => "gpu_setup"
  | transferInput => "gpu_transfer_input"
  | execute => "gpu_execute"
  | transferOutput => "gpu_transfer_output"

def source : Step → Stage
  | setup => .created
  | transferInput => .configured
  | execute => .inputReady
  | transferOutput => .executed

def target : Step → Stage
  | setup => .configured
  | transferInput => .inputReady
  | execute => .executed
  | transferOutput => .complete

def action (h : DeviceHandle) : Step → EngineM Unit
  | setup => Engine.setup h
  | transferInput => Engine.transferInput h
  | execute => Engine.execute h
  | transferOutput => Engine.transferOutput h

theorem target_rank (step : Step) : step.target.rank = step.source.rank + 1 := by
  cases step <;> rfl

theorem target_active (step : Step) : step.target ≠ .disposed := by
  cases step <;> decide

end Step

section Calls

variable (h : DeviceHandle) {s : Engine × DeviceState}

theorem expect_apply (step : String) (required : Stage) : expect step required s =
    if s.1.stage = required then .ok () s
    else .error (.usage (.wrongStage step required s.1.stage)) s := by
  have got : getEngine s = .ok s.1 s := rfl
  unfold expect
  rw [bind_apply, got]
  by_cases standing : s.1.stage = required
  · rw [if_pos standing]
    simp only [standing, ne_eq, not_true_eq_false, if_false]
    rfl
  · rw [if_neg standing]
    simp only [standing, ne_eq, not_false_eq_true, if_true]
    rfl

theorem stays_expect (step : String) (required : Stage) : Stays (expect step required) := by
  intro s
  unfold left
  rw [expect_apply]
  by_cases standing : s.1.stage = required
  · rw [if_pos standing]
  · rw [if_neg standing]

theorem ends_expect (step : String) (required : Stage) : Ends required (expect step required) := by
  intro s a after ran
  rw [expect_apply] at ran
  by_cases standing : s.1.stage = required
  · rw [if_pos standing] at ran
    cases ran
    exact standing
  · rw [if_neg standing] at ran
    cases ran

theorem expect_refused {α : Type} {f : Unit → EngineM α} {step : String} {required : Stage}
    (standing : s.1.stage ≠ required) : (expect step required >>= f) s =
      .error (.usage (.wrongStage step required s.1.stage)) s := by
  rw [bind_apply, expect_apply, if_neg standing]

theorem enters_setup : Enters .configured (setup h) := by
  apply enters_bind (stays_expect _ _)
  intro _
  apply enters_bind stays_getEngine
  intro e
  apply enters_bind (stays_orThrow _)
  intro _
  apply enters_bind (stays_eachInput _ _ _)
  intro _
  apply enters_bind (stays_onDevice _)
  intro output
  refine enters_bind (stays_modify ?_) ?_
  · exact fun _ => rfl
  intro _
  apply enters_bind (stays_buildPipeline h)
  intro _
  exact enters_bind stays_record fun _ => enters_enter _

theorem enters_transferInput : Enters .inputReady (transferInput h) := by
  apply enters_bind (stays_expect _ _)
  intro _
  apply enters_bind stays_getEngine
  intro e
  exact enters_bind (stays_eachInput _ _ _) fun _ => enters_enter _

/-- The recorded commands are taken before they are submitted, and stay taken if that fails. -/
theorem enters_execute : Enters .executed (execute h) := by
  apply enters_bind (stays_expect _ _)
  intro _
  apply enters_bind stays_getEngine
  intro e
  have sent : ∀ commands, Enters .executed (do
      modifyEngine fun e => { e with commands := none }
      let fence ← submit h.device commands
      modifyEngine fun e => { e with fence := some fence }
      enter .executed) := by
    intro commands
    refine enters_bind (stays_modify ?_) ?_
    · exact fun _ => rfl
    intro _
    apply enters_bind (stays_submit _ _)
    intro fence
    refine enters_bind (stays_modify ?_) fun _ => enters_enter _
    exact fun _ => rfl
  cases e.commands with
  | some commands => exact enters_bind (stays_pure _) sent
  | none => exact enters_bind (stays_throw _) sent

theorem enters_transferOutput : Enters .complete (transferOutput h) := by
  apply enters_bind (stays_expect _ _)
  intro _
  apply enters_bind stays_getEngine
  intro e
  apply enters_bind (stays_onDevice _)
  intro output
  refine enters_bind (stays_modify ?_) fun _ => enters_enter _
  exact fun _ => rfl

theorem enters_action (step : Step) : Enters step.target (step.action h) := by
  cases step with
  | setup => exact enters_setup h
  | transferInput => exact enters_transferInput h
  | execute => exact enters_execute h
  | transferOutput => exact enters_transferOutput h

theorem action_refused {step : Step} (standing : s.1.stage ≠ step.source) :
    step.action h s = .error (.usage (.wrongStage step.name step.source s.1.stage)) s := by
  cases step <;> exact expect_refused standing

theorem whenAt_apply (stage : Stage) (m : EngineM Unit) : whenAt stage m s =
    if s.1.stage = stage then m s else .ok () s := by
  have got : getEngine s = .ok s.1 s := rfl
  unfold whenAt
  rw [bind_apply, got]
  by_cases standing : s.1.stage = stage
  · simp only [standing, if_true]
  · simp only [standing, if_false]
    rfl

theorem drives_whenAt (step : Step) : Drives (whenAt step.source (step.action h)) := by
  intro s
  have entered := enters_action h step s
  unfold left
  rw [whenAt_apply]
  by_cases standing : s.1.stage = step.source
  · rw [if_pos standing]
    cases ran : step.action h s with
    | ok a after =>
      rw [ran] at entered
      simp only at entered ⊢
      rw [entered, step.target_rank, standing]
      exact ⟨Nat.le_succ _, fun disposed => (step.target_active disposed).elim⟩
    | error e after =>
      rw [ran] at entered
      simp only at entered ⊢
      rw [entered]
      exact ⟨Nat.le_refl _, id⟩
  · rw [if_neg standing]
    exact ⟨Nat.le_refl _, id⟩

theorem drives_run : Drives (run h) := by
  apply drives_bind (drives_whenAt h .setup)
  intro _
  apply drives_bind (drives_whenAt h .transferInput)
  intro _
  apply drives_bind (drives_whenAt h .execute)
  intro _
  apply drives_bind (drives_whenAt h .transferOutput)
  intro _
  exact (stays_expect _ _).drives

theorem run_ok {after : Engine × DeviceState} (ran : run h s = .ok () after) :
    after.1.stage = .complete := by
  have ended : Ends .complete (run h) :=
    ends_bind fun _ => ends_bind fun _ => ends_bind fun _ => ends_bind fun _ => ends_expect _ _
  exact ended s () after ran

theorem run_idle (past : 4 ≤ s.1.stage.rank) : run h s = expect "run" .complete s := by
  have skipped : ∀ {stage : Stage} {m : EngineM Unit} {f : Unit → EngineM Unit},
      stage.rank < 4 → (whenAt stage m >>= f) s = f () s := by
    intro stage m f early
    have other : s.1.stage ≠ stage := by
      rintro rfl
      omega
    rw [bind_apply, whenAt_apply, if_neg other]
  unfold run
  rw [skipped (by decide), skipped (by decide), skipped (by decide), skipped (by decide)]

theorem run_refused (standing : s.1.stage = .disposed) :
    run h s = .error (.usage (.wrongStage "run" .complete .disposed)) s := by
  rw [run_idle h (by rw [standing]; decide), expect_apply, standing]
  rfl

theorem run_done (standing : s.1.stage = .complete) : run h s = .ok () s := by
  rw [run_idle h (by rw [standing]; decide), expect_apply, if_pos standing]

def emptied (s : Engine × DeviceState) : Engine × DeviceState :=
  ({ s.1 with context := { s.1.context with output := s.1.context.output.takeHost.2 } }, s.2)

theorem takeOutput_apply (standing : s.1.stage = .complete) : takeOutput s =
    match s.1.context.output.host with
    | some a => .ok a (emptied s)
    | none => .error (.usage .outputTaken) (emptied s) := by
  unfold takeOutput
  rw [bind_apply, expect_apply, if_pos standing]
  show (match s.1.context.output.host with
    | some a => pure a
    | none => throw (ComputeError.usage .outputTaken) : EngineM HostArray) (emptied s) = _
  cases s.1.context.output.host <;> rfl

theorem takeOutput_refused (standing : s.1.stage ≠ .complete) :
    takeOutput s = .error (.usage (.wrongStage "take_output" .complete s.1.stage)) s :=
  expect_refused standing

theorem dispose_stage (e : Engine) (d : DeviceState) : (dispose e d).1.stage = .disposed := by
  unfold dispose
  by_cases standing : e.stage = .disposed
  · rw [if_pos standing]
    exact standing
  · rw [if_neg standing]

end Calls

/-! ## Histories -/

inductive Call where
  | step (step : Step)
  | run
  | takeOutput
  | dispose
  deriving DecidableEq, Repr

namespace Call

def action (h : DeviceHandle) : Call → EngineM (Option HostArray)
  | step s => do
    s.action h
    return none
  | run => do
    Engine.run h
    return none
  | takeOutput => do
    return some (← Engine.takeOutput)
  | dispose => fun s => .ok none (Engine.dispose s.1 s.2)

/-- The error of a call that is made in another stage than the one it requires. What is left of a
disposed engine is all that a run cannot complete, and it can be disposed of at any time. -/
def refusal? : Call → Stage → Option Misuse
  | step s, stage => if stage = s.source then none else some (.wrongStage s.name s.source stage)
  | run, stage => if stage = .disposed then some (.wrongStage "run" .complete stage) else none
  | takeOutput, stage =>
    if stage = .complete then none else some (.wrongStage "take_output" .complete stage)
  | dispose, _ => none

end Call

structure Entry where
  call : Call
  before : Engine × DeviceState
  outcome : Except ComputeError (Option HostArray)
  after : Engine × DeviceState

def Call.entry (call : Call) (h : DeviceHandle) (s : Engine × DeviceState) : Entry :=
  match call.action h s with
  | .ok a after => ⟨call, s, .ok a, after⟩
  | .error e after => ⟨call, s, .error e, after⟩

/-- The calls made of an engine one after the other. Each meets its own device: what others have
done to it since the last call, and where it fails, is not for the engine to say. -/
def history : Engine → List (Call × DeviceHandle × DeviceState) → List Entry
  | _, [] => []
  | e, (call, h, d) :: rest =>
    let entry := call.entry h (e, d)
    entry :: history entry.after.1 rest

namespace Entry

def taken (entry : Entry) : Bool :=
  match entry.call, entry.outcome with
  | .takeOutput, .ok _ => true
  | _, _ => false

def ranks (entry : Entry) : List Nat :=
  [entry.before.1.stage.rank, entry.after.1.stage.rank]

/-- Where a call takes an engine: a step that succeeds by one stage, and nothing but disposing of
it out of the stages of an execution. -/
def Moves (entry : Entry) : Prop :=
  match entry.call, entry.outcome with
  | .step step, .ok _ => entry.before.1.stage = step.source ∧ entry.after.1.stage = step.target ∧
      entry.after.1.stage.rank = entry.before.1.stage.rank + 1
  | .run, .ok _ => entry.after.1.stage = .complete
  | .run, .error _ => entry.after.1.stage = .disposed → entry.before.1.stage = .disposed
  | .dispose, _ => entry.after.1.stage = .disposed
  | .step _, .error _ | .takeOutput, _ => entry.after.1.stage = entry.before.1.stage

/-- What the stage of an engine makes of a call. -/
structure IsLawful (entry : Entry) : Prop where
  refused : ∀ e, entry.call.refusal? entry.before.1.stage = some e →
    entry.outcome = .error (.usage e) ∧ entry.after = entry.before
  moves : entry.Moves
  onward : entry.before.1.stage.rank ≤ entry.after.1.stage.rank

end Entry

section Entries

variable (h : DeviceHandle) (s : Engine × DeviceState)

theorem lawful_inTurn {call : Call} {s after : Engine × DeviceState}
    {outcome : Except ComputeError (Option HostArray)} (inTurn : call.refusal? s.1.stage = none)
    (moves : Entry.Moves ⟨call, s, outcome, after⟩) (onward : s.1.stage.rank ≤ after.1.stage.rank) :
    Entry.IsLawful ⟨call, s, outcome, after⟩ := by
  refine ⟨?_, moves, onward⟩
  intro e refused
  cases inTurn.symm.trans refused

/-- Out of its turn a call changes nothing, which is what a failed one may do to the stage. -/
theorem lawful_outOfTurn {call : Call} {s : Engine × DeviceState} {e : Misuse}
    (outOfTurn : call.refusal? s.1.stage = some e) :
    Entry.IsLawful ⟨call, s, .error (.usage e), s⟩ := by
  refine ⟨?_, ?_, Nat.le_refl _⟩
  · intro other refused
    cases outOfTurn.symm.trans refused
    exact ⟨rfl, rfl⟩
  · cases call with
    | dispose => cases outOfTurn
    | step step => exact rfl
    | run => exact id
    | takeOutput => exact rfl

theorem step_lawful (step : Step) : ((Call.step step).entry h s).IsLawful := by
  have entered := enters_action h step s
  unfold Call.entry Call.action
  simp only [bind_apply]
  by_cases standing : s.1.stage = step.source
  · have inTurn : (Call.step step).refusal? s.1.stage = none := if_pos standing
    cases ran : step.action h s with
    | ok a after =>
      rw [ran] at entered
      have moved : after.1.stage.rank = s.1.stage.rank + 1 := by
        rw [show after.1.stage = step.target from entered, step.target_rank, standing]
      exact lawful_inTurn inTurn ⟨standing, entered, moved⟩ (moved ▸ Nat.le_succ _)
    | error e after =>
      rw [ran] at entered
      have same : after.1.stage = s.1.stage := entered
      exact lawful_inTurn inTurn same (same ▸ Nat.le_refl _)
  · rw [action_refused h standing]
    exact lawful_outOfTurn (if_neg standing)

theorem run_lawful : (Call.run.entry h s).IsLawful := by
  have moved := drives_run h s
  unfold Call.entry Call.action
  simp only [bind_apply]
  unfold left at moved
  by_cases standing : s.1.stage = .disposed
  · rw [run_refused h standing]
    exact lawful_outOfTurn ((if_pos standing).trans (by rw [standing]))
  · have inTurn : Call.run.refusal? s.1.stage = none := if_neg standing
    cases ran : run h s with
    | ok a after =>
      rw [ran] at moved
      exact lawful_inTurn inTurn (run_ok h ran) moved.1
    | error e after =>
      rw [ran] at moved
      exact lawful_inTurn inTurn moved.2 moved.1

theorem takeOutput_lawful : (Call.takeOutput.entry h s).IsLawful := by
  unfold Call.entry Call.action
  simp only [bind_apply]
  by_cases standing : s.1.stage = .complete
  · have inTurn : Call.takeOutput.refusal? s.1.stage = none := if_pos standing
    rw [takeOutput_apply standing]
    cases s.1.context.output.host with
    | some a => exact lawful_inTurn inTurn rfl (Nat.le_refl _)
    | none => exact lawful_inTurn inTurn rfl (Nat.le_refl _)
  · rw [takeOutput_refused standing]
    exact lawful_outOfTurn (if_neg standing)

theorem dispose_lawful : (Call.dispose.entry h s).IsLawful := by
  have ended := dispose_stage s.1 s.2
  have onward : s.1.stage.rank ≤ (dispose s.1 s.2).1.stage.rank := by
    rw [ended]
    cases s.1.stage <;> decide
  show Entry.IsLawful ⟨.dispose, s, .ok none, dispose s.1 s.2⟩
  exact lawful_inTurn rfl ended onward

theorem entry_lawful (call : Call) : (call.entry h s).IsLawful := by
  cases call with
  | step step => exact step_lawful h s step
  | run => exact run_lawful h s
  | takeOutput => exact takeOutput_lawful h s
  | dispose => exact dispose_lawful h s

def Spent (e : Engine) : Prop :=
  e.stage = .disposed ∨ e.stage = .complete ∧ e.context.output.host = none

variable {h s} {call : Call}

theorem entry_refused {e : Misuse} (refused : call.refusal? s.1.stage = some e) :
    (call.entry h s).taken = false ∧ (call.entry h s).after = s := by
  have shown : (call.entry h s).before = s ∧ (call.entry h s).call = call := by
    unfold Call.entry
    cases call.action h s <;> exact ⟨rfl, rfl⟩
  obtain ⟨answered, same⟩ :=
    (entry_lawful h s call).refused e (by rw [shown.1, shown.2]; exact refused)
  refine ⟨?_, same.trans shown.1⟩
  unfold Entry.taken
  rw [answered]
  cases (call.entry h s).call <;> rfl

theorem entry_spent (call : Call) (spent : Spent s.1) :
    (call.entry h s).taken = false ∧ Spent (call.entry h s).after.1 := by
  have refused : ∀ {e}, call.refusal? s.1.stage = some e →
      (call.entry h s).taken = false ∧ Spent (call.entry h s).after.1 := by
    intro e refused
    obtain ⟨untaken, same⟩ := entry_refused (h := h) refused
    exact ⟨untaken, by rw [same]; exact spent⟩
  cases call with
  | step step =>
    have other : s.1.stage ≠ step.source := by
      obtain standing | ⟨standing, _⟩ := spent <;> rw [standing] <;> cases step <;> decide
    exact refused (if_neg other)
  | run =>
    obtain standing | ⟨standing, empty⟩ := spent
    · exact refused (if_pos standing)
    · unfold Call.entry Call.action
      simp only [bind_apply]
      rw [run_done h standing]
      exact ⟨rfl, .inr ⟨standing, empty⟩⟩
  | takeOutput =>
    obtain standing | ⟨standing, empty⟩ := spent
    · exact refused (if_neg (by rw [standing]; decide))
    · unfold Call.entry Call.action
      simp only [bind_apply]
      rw [takeOutput_apply standing, empty]
      exact ⟨rfl, .inr ⟨standing, rfl⟩⟩
  | dispose => exact ⟨rfl, .inl (dispose_stage s.1 s.2)⟩

theorem entry_taken (taken : (call.entry h s).taken = true) : Spent (call.entry h s).after.1 := by
  cases call with
  | takeOutput =>
    by_cases standing : s.1.stage = .complete
    · unfold Call.entry Call.action
      simp only [bind_apply]
      rw [takeOutput_apply standing]
      cases s.1.context.output.host <;> exact .inr ⟨standing, rfl⟩
    · have outOfTurn : Call.takeOutput.refusal? s.1.stage = some _ := if_neg standing
      cases (entry_refused outOfTurn).1.symm.trans taken
  | step step =>
    have untaken : ((Call.step step).entry h s).taken = false := by
      unfold Call.entry
      cases (Call.step step).action h s <;> rfl
    cases untaken.symm.trans taken
  | run =>
    have untaken : (Call.run.entry h s).taken = false := by
      unfold Call.entry
      cases Call.run.action h s <;> rfl
    cases untaken.symm.trans taken
  | dispose => cases taken

end Entries

section Histories

variable {e : Engine} (calls : List (Call × DeviceHandle × DeviceState))

theorem history_lawful (e : Engine) : ∀ entry ∈ history e calls, entry.IsLawful := by
  induction calls generalizing e with
  | nil => exact fun _ member => absurd member List.not_mem_nil
  | cons made rest ih =>
    obtain ⟨call, h, d⟩ := made
    simp only [history, List.mem_cons]
    rintro entry (rfl | later)
    · exact entry_lawful h (e, d) call
    · exact ih _ entry later

theorem entry_ranks (call : Call) (h : DeviceHandle) (d : DeviceState) :
    (call.entry h (e, d)).ranks = [e.stage.rank, (call.entry h (e, d)).after.1.stage.rank] ∧
      e.stage.rank ≤ (call.entry h (e, d)).after.1.stage.rank := by
  have onward := (entry_lawful h (e, d) call).onward
  have shown : (call.entry h (e, d)).before = (e, d) := by
    unfold Call.entry
    cases call.action h (e, d) <;> rfl
  unfold Entry.ranks
  rw [shown] at onward ⊢
  exact ⟨rfl, onward⟩

theorem history_least (e : Engine) :
    ∀ rank ∈ (history e calls).flatMap Entry.ranks, e.stage.rank ≤ rank := by
  induction calls generalizing e with
  | nil => nofun
  | cons made rest ih =>
    obtain ⟨call, h, d⟩ := made
    obtain ⟨shown, onward⟩ := entry_ranks (e := e) call h d
    intro rank member
    simp only [history, List.flatMap_cons, shown, List.cons_append, List.nil_append,
      List.mem_cons] at member
    obtain rfl | rfl | later := member
    · exact Nat.le_refl _
    · exact onward
    · exact Nat.le_trans onward (ih _ rank later)

theorem history_sorted (e : Engine) :
    ((history e calls).flatMap Entry.ranks).Pairwise (· ≤ ·) := by
  induction calls generalizing e with
  | nil => exact .nil
  | cons made rest ih =>
    obtain ⟨call, h, d⟩ := made
    obtain ⟨shown, onward⟩ := entry_ranks (e := e) call h d
    have least := history_least rest (call.entry h (e, d)).after.1
    simp only [history, List.flatMap_cons, shown, List.cons_append, List.nil_append]
    refine .cons ?_ (.cons least (ih _))
    intro rank member
    obtain rfl | later := List.mem_cons.mp member
    · exact onward
    · exact Nat.le_trans onward (least rank later)

theorem history_spent (spent : Spent e) : (history e calls).countP Entry.taken = 0 := by
  induction calls generalizing e with
  | nil => rfl
  | cons made rest ih =>
    obtain ⟨call, h, d⟩ := made
    obtain ⟨untaken, still⟩ := entry_spent (h := h) (s := (e, d)) call spent
    simp [history, untaken, ih still]

theorem history_taken (e : Engine) : (history e calls).countP Entry.taken ≤ 1 := by
  induction calls generalizing e with
  | nil => exact Nat.zero_le 1
  | cons made rest ih =>
    obtain ⟨call, h, d⟩ := made
    simp only [history, List.countP_cons]
    by_cases taken : (call.entry h (e, d)).taken = true
    · simp [history_spent rest (entry_taken taken), taken]
    · rw [if_neg taken]
      exact ih _

/-- From its creation on an engine moves through its stages in their order and never back, one
stage for a step that succeeds and none for one that fails; what is asked of it out of turn is
refused and changes nothing at all; and its result is handed out at most once. -/
theorem history_onward (c : ExecutionContext) :
    (∀ entry ∈ history { context := c } calls, entry.IsLawful) ∧
      ((history { context := c } calls).flatMap Entry.ranks).Pairwise (· ≤ ·) ∧
      (history { context := c } calls).countP Entry.taken ≤ 1 :=
  ⟨history_lawful calls _, history_sorted calls _, history_taken calls _⟩

-- Calls out of turn, a run from the middle, a result asked for twice, and one call too many.
example :
    let context : ExecutionContext :=
      ⟨[], ⟨0, .leaf .i32, 1, .deviceToHost, ⟨4, 4, [⟨0, 0, 4⟩]⟩, none, none⟩, ⟨"main", 64⟩, 64⟩
    let h : DeviceHandle := ⟨.echo {} true fun _ => none, {}, [.hostVisible]⟩
    let calls : List Call := [.takeOutput, .step .setup, .step .execute, .run, .takeOutput,
      .takeOutput, .dispose, .run]
    (history { context } (calls.map fun call => (call, h, h.initial))).map
        (fun entry => (entry.outcome.isOk, entry.after.1.stage)) =
      [(false, .created), (true, .configured), (false, .configured), (true, .complete),
        (true, .complete), (false, .complete), (true, .disposed), (false, .disposed)] := by
  rfl

end Histories

end Engine
end ArrayQuery
