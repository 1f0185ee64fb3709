import ArrayQuery.Proofs.Lifecycle

/-! A run is the steps that are left, called one after the other until one fails. It goes through all four
steps and skips those whose stage has passed, so that a step which failed to move the engine on, or moved
it too far, would be left out or made twice. -/

set_option autoImplicit false
namespace ArrayQuery

namespace Engine

def remaining : Stage → List Step
  | .created => [.setup, .transferInput, .execute, .transferOutput]
  | .configured => [.transferInput, .execute, .transferOutput]
  | .inputReady => [.execute, .transferOutput]
  | .executed => [.transferOutput]
  | .complete | .disposed => []

theorem remaining_cons {stage : Stage} {step : Step} {rest : List Step}
    (left : remaining stage = step :: rest) : stage = step.source ∧ rest = remaining step.target := by
  cases stage <;> cases left <;> exact ⟨rfl, rfl⟩

theorem remaining_nil {stage : Stage} (left : remaining stage = []) :
    stage = .complete ∨ stage = .disposed := by
  cases stage <;> simp [remaining] at left ⊢

variable (h : DeviceHandle)

def callAll : List Step → EngineM Unit
  | [] => pure ()
  | step :: rest => do
    step.action h
    callAll rest

/-- Steps that succeed up to one, which fails and is the last to be called. -/
inductive Stops : Engine × DeviceState → List Step → Step → ComputeError → Engine × DeviceState → Prop where
  | here {s after : Engine × DeviceState} {step : Step} {rest : List Step} {e : ComputeError}
      (failed : step.action h s = .error e after) : Stops s (step :: rest) step e after
  | later {s next after : Engine × DeviceState} {first step : Step} {rest : List Step}
      {e : ComputeError} (done : first.action h s = .ok () next) (stops : Stops next rest step e after) :
      Stops s (first :: rest) step e after

variable {h} {s after : Engine × DeviceState}

theorem stops_of_callAll {steps : List Step} {e : ComputeError}
    (failed : callAll h steps s = .error e after) : ∃ step, Stops h s steps step e after := by
  induction steps generalizing s with
  | nil => cases failed
  | cons first rest ih =>
    rw [callAll, bind_apply] at failed
    cases done : first.action h s with
    | ok _ next =>
      rw [done] at failed
      obtain ⟨step, stops⟩ := ih failed
      exact ⟨step, .later done stops⟩
    | error _ _ =>
      rw [done] at failed
      cases failed
      exact ⟨first, .here done⟩

/-- What fails is called in its own stage, and the engine stays there. -/
theorem Stops.stage {steps : List Step} {step : Step} {e : ComputeError}
    (stops : Stops h s steps step e after) (left : remaining s.1.stage = steps) :
    after.1.stage = step.source := by
  induction stops with
  | @here s after step rest e failed =>
    have entered := enters_action h step s
    rw [failed] at entered
    exact entered.trans (remaining_cons left).1
  | @later s next after first step rest e done _ ih =>
    have entered := enters_action h first s
    rw [done] at entered
    exact ih ((congrArg remaining entered).trans (remaining_cons left).2.symm)

variable (h) in
/-- Goes through steps and makes those whose stage the engine is in. At the end it has to be complete. -/
def visitAll : List Step → EngineM Unit
  | [] => expect "run" .complete
  | step :: rest => do
    whenAt step.source (step.action h)
    visitAll rest

theorem run_eq_visitAll : run h = visitAll h (remaining .created) := rfl

theorem visitAll_append {earlier : List Step} (others : ∀ step ∈ earlier, s.1.stage ≠ step.source)
    (rest : List Step) : visitAll h (earlier ++ rest) s = visitAll h rest s := by
  induction earlier with
  | nil => rfl
  | cons step earlier ih =>
    obtain ⟨other, others⟩ := List.forall_mem_cons.mp others
    rw [List.cons_append, visitAll, bind_apply, whenAt_apply, if_neg other]
    exact ih others

theorem remaining_created (stage : Stage) : ∃ earlier, remaining .created = earlier ++ remaining stage ∧
    ∀ step ∈ earlier, stage ≠ step.source := by
  refine ⟨(remaining .created).take (4 - (remaining stage).length), ?_⟩
  cases stage <;> decide

/-- What is left at a stage is made in full: a step that succeeds leaves the engine in the stage of the
next one, or complete. -/
theorem visitAll_remaining (active : s.1.stage ≠ .disposed) :
    visitAll h (remaining s.1.stage) s = callAll h (remaining s.1.stage) s := by
  generalize left : remaining s.1.stage = steps
  induction steps generalizing s with
  | nil =>
    have standing := (remaining_nil left).resolve_right active
    rw [visitAll, expect_apply, if_pos standing]
    rfl
  | cons step rest ih =>
    obtain ⟨standing, rfl⟩ := remaining_cons left
    rw [visitAll, callAll, bind_apply, bind_apply, whenAt_apply, if_pos standing]
    -- The stage that a step leaves is the one the next step asks for.
    have entered := enters_action h step s
    cases ran : step.action h s with
    | error e after => rfl
    | ok _ next =>
      rw [ran] at entered
      have stage : next.1.stage = step.target := entered
      exact ih (stage ▸ step.target_active) (congrArg remaining stage)

theorem run_callAll (active : s.1.stage ≠ .disposed) :
    run h s = callAll h (remaining s.1.stage) s := by
  obtain ⟨earlier, split, others⟩ := remaining_created s.1.stage
  rw [run_eq_visitAll, split, visitAll_append others, visitAll_remaining active]

/-- A run of an engine in any state, on any device, has the result of the steps that are left, called one
by one until one fails, and leaves the engine and the device as these calls do. A run that succeeds
leaves the engine complete; one that fails has the error of a step, and leaves the engine in the stage
of that step. A complete engine is left as it is, and so is a disposed one, with an error. -/
theorem run_remaining (h : DeviceHandle) (s : Engine × DeviceState) :
    (s.1.stage ≠ .disposed → run h s = callAll h (remaining s.1.stage) s) ∧
      (∀ after, run h s = .ok () after → after.1.stage = .complete) ∧
      (∀ e after, run h s = .error e after → s.1.stage ≠ .disposed →
        ∃ step, Stops h s (remaining s.1.stage) step e after ∧ after.1.stage = step.source) ∧
      (s.1.stage = .complete → run h s = .ok () s) ∧
      (s.1.stage = .disposed → run h s = .error (.usage (.wrongStage "run" .complete .disposed)) s) := by
  refine ⟨run_callAll, fun after => run_ok h, fun e after failed active => ?_, run_done h, run_refused h⟩
  rw [run_callAll active] at failed
  obtain ⟨step, stops⟩ := stops_of_callAll failed
  exact ⟨step, stops, stops.stage rfl⟩

def forgetful : DeviceHandle :=
  ⟨.echo {} true fun n => if n = 2 then some "lost" else none, {}, [.hostVisible]⟩

def prepared : Engine × DeviceState :=
  let context : ExecutionContext :=
    ⟨[.input 0 (.ofList [(7 : Int32), 8])], .output 1 .i32 2, ⟨"main", 64⟩, 64⟩
  left (setup forgetful) ({ context }, forgetful.initial)

/-- The input is uploaded and the kernel runs, but the output cannot be mapped. -/
theorem run_remaining_lost : prepared.1.stage = .configured ∧
    ∃ after, run forgetful prepared = .error (.device (.mapFailed "lost")) after ∧
      Stops forgetful prepared [.transferInput, .execute, .transferOutput] .transferOutput
        (.device (.mapFailed "lost")) after := by
  have standing : prepared.1.stage = .configured := by decide +kernel
  -- The error and the stage are enough to tell the step that failed.
  have outcome : (match run forgetful prepared with
      | .ok .. => none
      | .error e after => some (e, after.1.stage)) =
        some (.device (.mapFailed "lost"), .executed) := by decide +kernel
  obtain ⟨_, _, fails, _⟩ := run_remaining forgetful prepared
  cases failed : run forgetful prepared with
  | ok _ after => simp [failed] at outcome
  | error e after =>
    simp only [failed, Option.some.injEq, Prod.mk.injEq] at outcome
    obtain ⟨rfl, stage⟩ := outcome
    obtain ⟨step, stops, own⟩ := fails _ after failed (by simp [standing])
    obtain rfl : step = .transferOutput := by cases step <;> simp_all [Step.source]
    rw [standing] at stops
    exact ⟨standing, after, rfl, stops⟩

end Engine
end ArrayQuery
