import ArrayQuery.Proofs.Ledger
import ArrayQuery.Proofs.Prepared

/-! The end of an engine. From any state that it can get into, disposing of an engine gives back all
that it holds, and nothing can be done with it afterwards. A query that is run on a device leaves no
memory and no lease behind, however the run ends. -/

set_option autoImplicit false
namespace ArrayQuery

namespace Engine

/-- An engine that holds nothing any more. -/
structure IsReleased (e : Engine) : Prop where
  disposed : e.stage = .disposed
  empty : ∀ b ∈ e.context.buffers, b.isInitialized = false
  bindGroupLayout : e.bindGroupLayout = none
  pipelineLayout : e.pipelineLayout = none
  shader : e.shader = none
  pipeline : e.pipeline = none
  bindGroup : e.bindGroup = none
  commands : e.commands = none
  fence : e.fence = none

theorem bare_released (e : Engine) : e.bare.IsReleased := by
  refine ⟨rfl, ?_, rfl, rfl, rfl, rfl, rfl, rfl, rfl⟩
  rw [buffers_bare]
  exact List.forall_mem_map.mpr fun _ _ => rfl

section Calls

variable {h : DeviceHandle} {s : Engine × DeviceState} {call : Call}

theorem entry_shown (call : Call) (h : DeviceHandle) (s : Engine × DeviceState) :
    (call.entry h s).call = call ∧ (call.entry h s).before = s := by
  unfold Call.entry
  cases call.action h s <;> exact ⟨rfl, rfl⟩

theorem entry_disposed (standing : s.1.stage = .disposed) (other : call ≠ .dispose) :
    ∃ m, call.entry h s = ⟨call, s, .error (.usage m), s⟩ := by
  obtain ⟨m, refused⟩ : ∃ m, call.refusal? .disposed = some m := by
    cases call with
    | step step => exact ⟨_, if_neg (by cases step <;> decide)⟩
    | run => exact ⟨_, rfl⟩
    | takeOutput => exact ⟨_, rfl⟩
    | dispose => exact absurd rfl other
  obtain ⟨own, before⟩ := entry_shown call h s
  obtain ⟨answered, same⟩ := (entry_lawful h s call).refused m (by rw [own, before, standing, refused])
  refine ⟨m, ?_⟩
  -- An entry is no more than its four parts, and all of them are known.
  generalize call.entry h s = entry at own before answered same
  cases entry
  simp only at own before answered same
  rw [own, answered, same, before]

theorem entry_active (other : call ≠ .dispose) (ended : (call.entry h s).after.1.stage = .disposed) :
    s.1.stage = .disposed := by
  obtain ⟨own, before⟩ := entry_shown call h s
  have moves := (entry_lawful h s call).moves
  generalize call.entry h s = entry at own before moves ended
  obtain ⟨call', s', outcome, after⟩ := entry
  obtain rfl : call' = call := own
  obtain rfl : s' = s := before
  cases call' with
  | step step =>
    cases outcome with
    | ok a => exact absurd (moves.2.1.symm.trans ended) step.target_active
    | error err => exact Eq.trans (Eq.symm moves) ended
  | run =>
    cases outcome with
    | ok a => cases Eq.trans (Eq.symm ended) moves
    | error err => exact moves ended
  | takeOutput => exact Eq.trans (Eq.symm moves) ended
  | dispose => exact absurd rfl other

theorem dispose_released (standing : s.1.stage = .disposed → s.1.IsReleased) :
    (dispose s.1 s.2).1.IsReleased := by
  by_cases ended : s.1.stage = .disposed
  · unfold dispose
    rw [if_pos ended]
    exact standing ended
  · rw [dispose_apply ended]
    exact bare_released s.1

theorem entry_released (call : Call) (h : DeviceHandle) (standing : s.1.stage = .disposed → s.1.IsReleased)
    (ended : (call.entry h s).after.1.stage = .disposed) : (call.entry h s).after.1.IsReleased := by
  by_cases last : call = .dispose
  · subst last
    exact dispose_released standing
  · have before := entry_active last ended
    obtain ⟨m, same⟩ := entry_disposed (h := h) before last
    rw [same]
    exact standing before

/-- Where the calls made of an engine lead, one after the other, each on a device of its own. -/
def reached (e : Engine) (calls : List (Call × DeviceHandle × DeviceState)) : Engine :=
  calls.foldl (fun e made => (made.1.entry made.2.1 (e, made.2.2)).after.1) e

theorem reached_released {e : Engine} (calls : List (Call × DeviceHandle × DeviceState))
    (standing : e.stage = .disposed → e.IsReleased) :
    (reached e calls).stage = .disposed → (reached e calls).IsReleased := by
  induction calls generalizing e with
  | nil => exact standing
  | cons made rest ih => exact ih (entry_released made.1 made.2.1 standing)

theorem dispose_settles (standing : s.1.stage = .disposed → s.1.IsReleased) :
    s.2.Settles (dispose s.1 s.2).2 s.1.memories [] := by
  by_cases ended : s.1.stage = .disposed
  · unfold dispose
    rw [if_pos ended, memories_eq_nil (standing ended).empty]
    exact .refl s.2 []
  · rw [dispose_apply ended]
    refine .of_books rfl rfl fun m => ?_
    rw [taken_destroy, freed_destroy, List.count_reverse]
    exact Nat.add_comm _ _

theorem drives_action (h : DeviceHandle) (step : Step) : Drives (step.action h) := by
  intro s
  by_cases standing : s.1.stage = step.source
  · have moved := drives_whenAt h step s
    unfold left at moved ⊢
    rw [whenAt_apply, if_pos standing] at moved
    exact moved
  · unfold left
    rw [action_refused h standing]
    exact ⟨Nat.le_refl _, id⟩

theorem stays_takeOutput : Stays takeOutput := by
  intro s
  unfold left
  by_cases standing : s.1.stage = .complete
  · rw [takeOutput_apply standing]
    cases s.1.context.output.host <;> rfl
  · rw [takeOutput_refused standing]

end Calls

end Engine

/-! ## Whole runs -/

def DeviceM.after {α : Type} (m : DeviceM α) (d : DeviceState) : DeviceState :=
  match m d with
  | .ok _ d' => d'
  | .error _ d' => d'

namespace DeviceHandle

open Engine

variable (h : DeviceHandle)

theorem settled_steps : Settled h.steps := by
  apply settled_bind (settled_step h .setup)
  intro _
  apply settled_bind (settled_step h .transferInput)
  intro _
  apply settled_bind (settled_step h .execute)
  intro _
  apply settled_bind (settled_step h .transferOutput)
  intro _
  exact settled_takeOutput

theorem drives_steps : Drives h.steps := by
  apply drives_bind (drives_action h .setup)
  intro _
  apply drives_bind (drives_action h .transferInput)
  intro _
  apply drives_bind (drives_action h .execute)
  intro _
  apply drives_bind (drives_action h .transferOutput)
  intro _
  exact stays_takeOutput.drives

def finished (c : ExecutionContext) (d : DeviceState) : Engine × DeviceState :=
  let s := left h.steps (({ context := c } : Engine), d)
  s.1.dispose s.2

theorem runContext_after (c : ExecutionContext) (d : DeviceState) :
    (h.runContext c).after d = (h.finished c d).2 := by
  unfold DeviceM.after runContext finished left
  cases h.steps (({ context := c } : Engine), d) <;> rfl

theorem finished_settled (c : ExecutionContext) (d : DeviceState) :
    (h.finished c d).1.IsReleased ∧
      d.Settles (h.finished c d).2 ({ context := c } : Engine).memories [] := by
  -- No step disposes of the engine, so that the disposal at the end is the first.
  have active : (left h.steps (({ context := c } : Engine), d)).1.stage = .disposed →
      (left h.steps (({ context := c } : Engine), d)).1.IsReleased :=
    fun ended => nomatch (drives_steps h ({ context := c }, d)).2 ended
  exact ⟨dispose_released active, (settled_steps h ({ context := c }, d)).trans (dispose_settles active)⟩

theorem executeWith_after (compiler : ShaderCompiler) (root : Expr) (d : DeviceState) :
    (h.executeWith compiler root).after d = match h.prepare compiler root with
      | .error _ => d
      | .ok c => if c.output.count = 0 then d else (h.finished c d).2 := by
  unfold executeWith DeviceM.after
  cases prepared : h.prepare compiler root with
  | error e => rfl
  | ok c =>
    simp only [DeviceM.bind_apply, DeviceM.pure_apply]
    by_cases none : c.output.count = 0
    · simp only [if_pos none]
      cases HostArray.ofBytes c.output.element [] <;> rfl
    · simp only [if_neg none]
      exact h.runContext_after c d

theorem executeWith_settles (compiler : ShaderCompiler) (root : Expr) (d : DeviceState) :
    d.Settles ((h.executeWith compiler root).after d) [] [] := by
  rw [executeWith_after]
  cases prepared : h.prepare compiler root with
  | error e => exact .refl d []
  | ok c =>
    by_cases none : c.output.count = 0
    · simp only [if_pos none]
      exact .refl d []
    · have settles := (h.finished_settled c d).2
      rw [memories_eq_nil (prepare_fresh prepared)] at settles
      simp only [if_neg none]
      exact settles

end DeviceHandle

namespace Engine

/-- From any state that calls can lead to, whichever of them have failed, disposing of an engine gives
back all of its memory and leaves it with nothing; doing so again changes nothing, and whatever else is
asked of it from then on is refused and changes nothing. A query that is run on a device disposes of its
engine however the run ends: the memory that it took is given back, and so are the slots. -/
theorem disposal_complete :
    (∀ (c : ExecutionContext) (calls : List (Call × DeviceHandle × DeviceState)) (d : DeviceState),
      let e := reached { context := c } calls
      let s := e.dispose d
      s.1.IsReleased ∧ d.Settles s.2 e.memories [] ∧ (∀ d', s.1.dispose d' = (s.1, d')) ∧
        ∀ call : Call, call ≠ .dispose → ∀ h d', ∃ m,
          call.entry h (s.1, d') = ⟨call, (s.1, d'), .error (.usage m), (s.1, d')⟩) ∧
    ∀ (h : DeviceHandle) (compiler : ShaderCompiler) (root : Expr) (d : DeviceState),
      d.Settles ((h.executeWith compiler root).after d) [] [] ∧
        ∀ c, h.prepare compiler root = .ok c → c.output.count ≠ 0 →
          (h.executeWith compiler root).after d = (h.finished c d).2 ∧
            (h.finished c d).1.IsReleased := by
  refine ⟨fun c calls d => ?_, fun h compiler root d => ⟨h.executeWith_settles compiler root d, ?_⟩⟩
  · have standing := reached_released (e := { context := c }) calls nofun
    have released := dispose_released (s := (reached { context := c } calls, d)) standing
    refine ⟨released, dispose_settles (s := (reached { context := c } calls, d)) standing, ?_, ?_⟩
    · exact fun d' => if_pos released.disposed
    · intro call other h d'
      exact entry_disposed (s := (_, d')) released.disposed other
  · intro c prepared some
    rw [h.executeWith_after, prepared]
    exact ⟨if_neg some, (h.finished_settled c d).1⟩

/-- An engine whose set-up has stopped at the second of three buffers, and a run on a device that loses
what the host maps. -/
theorem disposal_complete_starved :
    let layout : Layout := ⟨4, 4, [⟨0, 0, 4⟩]⟩
    let buffer (slot count : Nat) : Buffer :=
      ⟨slot, .leaf .i32, count, .hostToDevice, layout, none, none⟩
    let c : ExecutionContext := ⟨[buffer 0 2, buffer 1 9], buffer 2 2, ⟨"main", 64⟩, 64⟩
    let h : DeviceHandle := ⟨.echo { bufferSize := 32 } true fun _ => none, {}, [.hostVisible]⟩
    let e := reached { context := c } [(.step .setup, h, h.initial)]
    let s := e.dispose h.initial
    let lossy : DeviceHandle := ⟨.echo {} true fun _ => some "lost", {}, [.hostVisible]⟩
    e.memories = [.storage 0, .staging 0] ∧ s.1.IsReleased ∧ Call.run ≠ .dispose ∧
      (∃ m, Call.run.entry h s = ⟨.run, s, .error (.usage m), s⟩) ∧
      ∃ c', lossy.prepare .accepting wordsQuery = .ok c' ∧ c'.output.count ≠ 0 ∧
        (lossy.finished c' lossy.initial).1.IsReleased := by
  intro layout buffer c h e s lossy
  obtain ⟨ends, runs⟩ := disposal_complete
  obtain ⟨released, _, _, refused⟩ := ends c [(.step .setup, h, h.initial)] h.initial
  have prepared : lossy.prepare .accepting wordsQuery = .ok _ :=
    DeviceHandle.prepare_ok.mpr ⟨_, _, wordsQuery_compiled, rfl, rfl⟩
  have some : wordsKernel.count ≠ 0 := by decide
  obtain ⟨_, finished⟩ := runs lossy .accepting wordsQuery lossy.initial
  exact ⟨by decide, released, nofun, refused .run nofun h s.2, _, prepared, some,
    (finished _ prepared some).2⟩

end Engine
end ArrayQuery
