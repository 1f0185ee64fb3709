import ArrayQuery.Proofs.Outcomes
import ArrayQuery.Proofs.Slots

/-! The books of a device. Whatever a step comes to, the memory that was held before it and the
memory that it took are the memory that it gave back and the memory that is held after it; and a
slot of the queue pool that it took is free again. -/

set_option autoImplicit false
namespace ArrayQuery

theorem taken_create (made : List Memory) (size : Nat) :
    (made.map (Event.create · size)).flatMap Event.taken = made := by
  induction made with
  | nil => rfl
  | cons m rest ih => exact congrArg (m :: ·) ih

theorem freed_create (made : List Memory) (size : Nat) :
    (made.map (Event.create · size)).flatMap Event.freed = [] := by
  induction made with
  | nil => rfl
  | cons m rest ih => exact ih

theorem taken_destroy (ms : List Memory) : (ms.map Event.destroy).flatMap Event.taken = [] := by
  induction ms with
  | nil => rfl
  | cons m rest ih => exact ih

theorem freed_destroy (ms : List Memory) : (ms.map Event.destroy).flatMap Event.freed = ms := by
  induction ms with
  | nil => rfl
  | cons m rest ih => exact congrArg (m :: ·) ih

/-- What is taken and given back by some events, on top of what was held before them, leaves what is
held after them. -/
def Balances (events : List Event) (before after : List Memory) : Prop :=
  ∀ m, (events.flatMap Event.taken).count m + before.count m =
    (events.flatMap Event.freed).count m + after.count m

/-- How a device gets from one state to another while the memory that is held changes. -/
structure DeviceState.Settles (d d' : DeviceState) (before after : List Memory) : Prop where
  /-- No more slots are leased than before. -/
  leases : ∀ leased, d.pool.Lends leased →
    ∃ left ≤ leased, d'.pool.slots = d.pool.slots ∧ d'.pool.Lends left
  books : ∃ events, d'.events = d.events ++ events ∧ Balances events before after

namespace DeviceState.Settles

variable {d d₁ d₂ : DeviceState} {xs ys zs : List Memory}

theorem of_books {events : List Event} (pool : d₁.pool = d.pool)
    (noted : d₁.events = d.events ++ events) (balances : Balances events xs ys) :
    d.Settles d₁ xs ys where
  leases leased lends := ⟨leased, Nat.le_refl _, by rw [pool], pool ▸ lends⟩
  books := ⟨events, noted, balances⟩

theorem refl (d : DeviceState) (xs : List Memory) : d.Settles d xs xs :=
  .of_books rfl (List.append_nil _).symm fun _ => rfl

theorem append {us vs : List Memory} (first : d.Settles d₁ xs ys) (second : d₁.Settles d₂ us vs) :
    d.Settles d₂ (xs ++ us) (ys ++ vs) where
  leases leased lends := by
    obtain ⟨left, fewer, slots, lends⟩ := first.leases leased lends
    obtain ⟨last, least, slots', lends⟩ := second.leases left lends
    exact ⟨last, least.trans fewer, slots'.trans slots, lends⟩
  books := by
    obtain ⟨es, noted, balances⟩ := first.books
    obtain ⟨fs, noted', balances'⟩ := second.books
    refine ⟨es ++ fs, by rw [noted', noted, List.append_assoc], fun m => ?_⟩
    have own := balances m
    have next := balances' m
    simp only [List.flatMap_append, List.count_append]
    omega

theorem trans (first : d.Settles d₁ xs ys) (second : d₁.Settles d₂ ys zs) : d.Settles d₂ xs zs where
  leases := (first.append second).leases
  books := by
    obtain ⟨es, noted, balances⟩ := (first.append second).books
    refine ⟨es, noted, fun m => ?_⟩
    have own := balances m
    simp only [List.count_append] at own
    omega

theorem of_notes (notes : d.Notes d₁) (xs : List Memory) : d.Settles d₁ xs xs := by
  obtain ⟨events, rfl, quiet⟩ := notes
  refine .of_books rfl (rfl : _ = d.events ++ events) fun m => ?_
  have taken : events.flatMap Event.taken = [] :=
    List.flatMap_eq_nil_iff.mpr fun event member => (quiet event member).1
  have freed : events.flatMap Event.freed = [] :=
    List.flatMap_eq_nil_iff.mpr fun event member => (quiet event member).2
  rw [taken, freed]

end DeviceState.Settles

namespace Buffer

variable {h : DeviceHandle} {b b' : Buffer} {d d' : DeviceState} {err : ComputeError}

theorem allocate_settles (ran : allocate h b d = .ok b' d') : d.Settles d' b.memories b'.memories := by
  rw [allocate_apply] at ran
  split at ran
  · cases ran
  · split at ran
    · cases ran
    · next p _ =>
      simp only at ran
      split at ran
      · cases ran
      · cases ran
        have staged : (Allocation.new p b.alignedSize).staging.isSome = (p == .hostVisible) := by
          cases p <;> rfl
        refine .of_books rfl rfl fun m => ?_
        show _ = _ + (Memory.behind b.slot (Allocation.new p b.alignedSize).staging.isSome).count m
        rw [staged]
        simp only [List.flatMap_append, taken_create, freed_create, taken_destroy, freed_destroy,
          List.nil_append, List.append_nil]
        omega

/-- What was taken in vain is given back at once. -/
theorem allocate_failed (ran : allocate h b d = .error err d') (held : List Memory) :
    d.Settles d' held held := by
  rw [allocate_apply] at ran
  split at ran
  · cases ran
    exact .refl d held
  · split at ran
    · cases ran
      exact .refl d held
    · simp only at ran
      split at ran
      · cases ran
        refine .of_books rfl rfl fun m => ?_
        simp only [List.flatMap_append, taken_create, freed_create, taken_destroy, freed_destroy,
          List.nil_append, List.append_nil]
      · cases ran

theorem countMapping_settles (d : DeviceState) (held : List Memory) :
    d.Settles d.countMapping held held :=
  .of_books rfl (List.append_nil _).symm fun _ => rfl

theorem write_settles (ran : write h b d = .ok b' d') : d.Settles d' b.memories b'.memories := by
  obtain ⟨rewrites, notes⟩ := write_rewrites ran
  rw [rewrites.memories]
  exact (countMapping_settles d _).trans (.of_notes notes _)

theorem write_failed (ran : write h b d = .error err d') (held : List Memory) :
    d.Settles d' held held := by
  rw [write_apply] at ran
  split at ran
  · cases ran
    exact .refl d held
  · split at ran
    · cases ran
      exact .refl d held
    · split at ran
      · cases ran
        exact countMapping_settles d held
      · cases ran

theorem read_ok (ran : read h b d = .ok b' d') : (∃ host, b' = { b with host := some host }) ∧
    b'.memories = b.memories ∧ ∀ held, d.Settles d' held held := by
  rw [read_apply] at ran
  split at ran
  · cases ran
  · split at ran
    · cases ran
    · simp only at ran
      split at ran
      · cases ran
        refine ⟨⟨_, rfl⟩, rfl, fun held => ?_⟩
        exact (countMapping_settles d held).trans (.of_notes (.one _ rfl rfl) held)
      · cases ran

theorem read_failed (ran : read h b d = .error err d') (held : List Memory) :
    d.Settles d' held held := by
  rw [read_apply] at ran
  split at ran
  · cases ran
    exact .refl d held
  · split at ran
    · cases ran
      exact countMapping_settles d held
    · simp only at ran
      split at ran
      · cases ran
      · cases ran
        exact (countMapping_settles d held).trans (.of_notes (.one _ rfl rfl) held)

end Buffer

namespace Engine

def memories (e : Engine) : List Memory :=
  e.context.buffers.flatMap Buffer.memories

theorem memories_eq_nil {e : Engine} (empty : ∀ b ∈ e.context.buffers, b.isInitialized = false) :
    e.memories = [] := by
  refine List.flatMap_eq_nil_iff.mpr fun b member => ?_
  by_contra held
  cases (b.isInitialized_iff.mpr held).symm.trans (empty b member)

theorem memories_withBuffers (e : Engine) (inputs : List Buffer) (output : Buffer) :
    (e.withBuffers inputs output).memories = inputs.flatMap Buffer.memories ++ output.memories := by
  show (inputs ++ [output]).flatMap Buffer.memories = _
  rw [List.flatMap_append, List.flatMap_singleton]

/-! ## Steps -/

theorem Through.settles {f : Buffer → DeviceM Buffer} {bs bs' : List Buffer} {d d' : DeviceState}
    (served : Through f bs d bs' d')
    (each : ∀ {b b' d d'}, f b d = .ok b' d' → d.Settles d' b.memories b'.memories) :
    d.Settles d' (bs.flatMap Buffer.memories) (bs'.flatMap Buffer.memories) := by
  induction served with
  | nil d => exact .refl d []
  | cons first _ ih => exact (each first).append ih

/-- The buffers before the one that a call failed on have been served, the others have not. -/
theorem Through.settles_failed {f : Buffer → DeviceM Buffer} {first made : List Buffer}
    {d between d' : DeviceState} (served : Through f first d made between)
    (each : ∀ {b b' d d'}, f b d = .ok b' d' → d.Settles d' b.memories b'.memories)
    (failed : ∀ held, between.Settles d' held held) (last : List Buffer) :
    d.Settles d' ((first ++ last).flatMap Buffer.memories) ((made ++ last).flatMap Buffer.memories) := by
  rw [List.flatMap_append, List.flatMap_append]
  exact (served.settles each).append (failed _)

theorem Rewrites.memories {c c' : ExecutionContext} (rewrites : Rewrites c c') :
    c'.buffers.flatMap Buffer.memories = c.buffers.flatMap Buffer.memories := by
  have each := rewrites.buffers
  generalize c.buffers = xs at each
  generalize c'.buffers = ys at each
  induction each with
  | nil => rfl
  | cons first _ ih => rw [List.flatMap_cons, List.flatMap_cons, first.memories, ih]

/-- A slot of the pool is taken in the end, be it one that somebody else returns. -/
theorem acquire_lends {pool : QueuePool (Channel Unit)} {leased : Nat} (lends : pool.Lends leased) :
    ∃ rest left, acquire pool = .ok rest ∧ left ≤ leased ∧ rest.slots = pool.slots ∧
      rest.Lends (left + 1) := by
  unfold acquire
  obtain ⟨busy, _, all⟩ | ⟨queue, rest, found, _, slots, more⟩ := lends.attempt_cases
  · -- All slots are leased, and there is at least one: it is one of those that is returned meanwhile.
    obtain ⟨left, rfl⟩ := Nat.exists_eq_add_of_lt (all ▸ lends.nonempty : 0 < leased)
    rw [busy]
    exact ⟨pool, left, rfl, by omega, rfl, by rwa [Nat.zero_add] at lends⟩
  · rw [found]
    exact ⟨rest, leased, rfl, Nat.le_refl _, slots, more⟩

/-- An action that leaves the books of the device in order, whether it succeeds or fails. -/
def Settled {α : Type} (m : EngineM α) : Prop :=
  ∀ s : Engine × DeviceState, s.2.Settles (left m s).2 s.1.memories (left m s).1.memories

theorem settled_bind {α β : Type} {m : EngineM α} {f : α → EngineM β} (first : Settled m)
    (rest : ∀ a, Settled (f a)) : Settled (m >>= f) := by
  intro s
  have own := first s
  rw [left_bind]
  unfold left at own
  cases ran : m s with
  | ok a after =>
    rw [ran] at own
    exact own.trans (rest a after)
  | error e after =>
    rw [ran] at own
    exact own

section Steps

variable (h : DeviceHandle) {e : Engine} {d : DeviceState}

theorem setup_settles (standing : e.stage = .created) :
    d.Settles (left (setup h) (e, d)).2 e.memories (left (setup h) (e, d)).1.memories := by
  have outcome := setup_outcome (h := h) (d := d) standing
  unfold left
  generalize setup h (e, d) = result at outcome ⊢
  cases outcome with
  | refused => exact .refl d _
  | @starved first last made inputs b output between d' err _ split served failed held =>
    have settles := served.settles_failed Buffer.allocate_settles (Buffer.allocate_failed failed) (b :: last)
    rw [← split, ← held] at settles
    exact settles
  | rejected _ served => exact served.settles Buffer.allocate_settles
  | done _ served _ noted => exact (served.settles Buffer.allocate_settles).trans (.of_notes noted _)

theorem transferInput_settles (standing : e.stage = .configured) :
    d.Settles (left (transferInput h) (e, d)).2 e.memories
      (left (transferInput h) (e, d)).1.memories := by
  have outcome := transferInput_outcome (h := h) (d := d) standing
  -- The output stands after the inputs, and is left alone.
  have behind := e.memories_withBuffers e.context.inputs e.context.output
  change e.memories = _ at behind
  rw [behind]
  unfold left
  generalize transferInput h (e, d) = result at outcome ⊢
  cases outcome with
  | @stopped first last made b between d' err split served failed =>
    have settles := served.settles_failed Buffer.write_settles (Buffer.write_failed failed) (b :: last)
    rw [← split] at settles
    simp only [memories_withBuffers]
    exact settles.append (.refl _ _)
  | @done made d' served =>
    have settles := (served.settles Buffer.write_settles).append (.refl _ e.context.output.memories)
    rw [← e.memories_withBuffers made] at settles
    exact settles

theorem execute_settles (standing : e.stage = .inputReady) :
    d.Settles (left (execute h) (e, d)).2 e.memories (left (execute h) (e, d)).1.memories := by
  unfold left
  rw [execute_outcome standing]
  cases e.commands with
  | none => exact .refl d _
  | some commands =>
    cases acquired : acquire d.pool with
    | error err => exact .refl d _
    | ok rest =>
      -- The lease is returned before the step ends; the commands only move bytes.
      refine ⟨?_, [], (List.append_nil _).symm, fun m => ?_⟩
      · intro leased lends
        obtain ⟨pool, left, found, fewer, slots, more⟩ := acquire_lends lends
        cases acquired.symm.trans found
        exact ⟨left, fewer, (more.release ()).1.trans slots, (more.release ()).2⟩
      · have same := (runCommands_rewrites h.device commands e.context).memories
        show _ = _ + ((commands.foldl (runCommand h.device) e.context).buffers.flatMap
          Buffer.memories).count m
        rw [same]
        rfl

theorem transferOutput_settles (standing : e.stage = .executed) :
    d.Settles (left (transferOutput h) (e, d)).2 e.memories
      (left (transferOutput h) (e, d)).1.memories := by
  unfold left
  rw [transferOutput_outcome standing]
  cases ran : Buffer.read h e.context.output d with
  | error err d' => exact Buffer.read_failed ran _
  | ok output d' =>
    obtain ⟨_, same, settles⟩ := Buffer.read_ok ran
    have after := e.memories_withBuffers e.context.inputs output
    rw [same, ← memories_withBuffers] at after
    show d.Settles d' e.memories (e.withBuffers e.context.inputs output).memories
    rw [after]
    exact settles _

theorem settled_step (step : Step) : Settled (step.action h) := by
  rintro ⟨e, d⟩
  by_cases standing : e.stage = step.source
  · cases step with
    | setup => exact setup_settles h standing
    | transferInput => exact transferInput_settles h standing
    | execute => exact execute_settles h standing
    | transferOutput => exact transferOutput_settles h standing
  · unfold left
    rw [action_refused h (s := (e, d)) standing]
    exact .refl d _

theorem settled_takeOutput : Settled takeOutput := by
  rintro ⟨e, d⟩
  unfold left
  by_cases standing : e.stage = .complete
  · rw [takeOutput_apply (s := (e, d)) standing]
    have same : (emptied (e, d)).1.memories = e.memories := by
      show (e.context.inputs ++ [_]).flatMap Buffer.memories = e.memories
      rw [memories, ExecutionContext.buffers, List.flatMap_append, List.flatMap_append]
      rfl
    cases e.context.output.host <;>
    · show d.Settles d e.memories (emptied (e, d)).1.memories
      rw [same]
      exact .refl d _
  · rw [takeOutput_refused (s := (e, d)) standing]
    exact .refl d _

end Steps

end Engine
end ArrayQuery
