import ArrayQuery.Proofs.Outcomes
import Mathlib.Algebra.Order.Floor.Div

/-! What a device admits. What it has against an execution is settled by its limits and by the sizes
of the buffers alone: the number of bindings comes first, then the size of the dispatch, both before
any memory is taken; then the buffers one by one. -/

set_option autoImplicit false
namespace ArrayQuery

namespace DeviceHandle

variable {h : DeviceHandle}

def Places (h : DeviceHandle) : Prop :=
  ∃ p ∈ h.config.memoryPreference, p ∈ h.placements

def Fits (h : DeviceHandle) (b : Buffer) : Prop :=
  b.alignedSize ≤ min h.device.limits.bufferSize h.device.limits.bindingSize

def Dispatches (h : DeviceHandle) (c : ExecutionContext) : Prop :=
  c.output.count ⌈/⌉ max c.workgroupSize 1 ≤ h.device.limits.workgroups

def Binds (h : DeviceHandle) (c : ExecutionContext) : Prop :=
  c.inputs.length + 1 ≤ h.device.limits.bindings

instance (h : DeviceHandle) : Decidable h.Places :=
  inferInstanceAs (Decidable (∃ p ∈ h.config.memoryPreference, p ∈ h.placements))

instance (h : DeviceHandle) (b : Buffer) : Decidable (h.Fits b) :=
  inferInstanceAs (Decidable (_ ≤ _))

instance (h : DeviceHandle) (c : ExecutionContext) : Decidable (h.Dispatches c) :=
  inferInstanceAs (Decidable (_ ≤ _))

instance (h : DeviceHandle) (c : ExecutionContext) : Decidable (h.Binds c) :=
  inferInstanceAs (Decidable (_ ≤ _))

theorem selectPlacement_cases (h : DeviceHandle) :
    (h.Places ∧ ∃ p, h.selectPlacement = .ok p) ∨
      (¬h.Places ∧ h.selectPlacement = .error (.device .noSuitableMemoryType)) := by
  unfold selectPlacement
  cases found : h.config.memoryPreference.find? h.placements.contains with
  | some p =>
    have available := List.find?_some found
    exact .inl ⟨⟨p, List.mem_of_find?_eq_some found, List.contains_iff_mem.mp available⟩, p, rfl⟩
  | none =>
    refine .inr ⟨?_, rfl⟩
    rintro ⟨p, preferred, available⟩
    exact List.find?_eq_none.mp found p preferred (List.contains_iff_mem.mpr available)

end DeviceHandle

/-- What a device has against an execution, and the number of the buffer that it is about. -/
inductive Objection (h : DeviceHandle) (c : ExecutionContext) : Nat → ComputeError → Prop where
  | bindings (many : ¬h.Binds c) : Objection h c 0
      (.device (.tooManyBindings (c.inputs.length + 1) h.device.limits.bindings))
  | workgroups (binds : h.Binds c) (wide : ¬h.Dispatches c) : Objection h c 0
      (.device (.dispatchTooLarge (c.output.count ⌈/⌉ max c.workgroupSize 1)
        h.device.limits.workgroups))
  /-- Where no placement is available this shows at the first buffer, unless that is too large. -/
  | placement (binds : h.Binds c) (dispatches : h.Dispatches c) {b : Buffer}
      (first : c.buffers[0]? = some b) (fits : h.Fits b) (unplaced : ¬h.Places) :
      Objection h c 0 (.device .noSuitableMemoryType)
  | size (binds : h.Binds c) (dispatches : h.Dispatches c) {k : Nat} {b : Buffer}
      (here : c.buffers[k]? = some b) (large : ¬h.Fits b)
      (earlier : ∀ i < k, ∀ b', c.buffers[i]? = some b' → h.Fits b') (placed : k = 0 ∨ h.Places) :
      Objection h c k (.device (.allocationTooLarge b.alignedSize
        (min h.device.limits.bufferSize h.device.limits.bindingSize)))

theorem Objection.unique {h : DeviceHandle} {c : ExecutionContext} {k k' : Nat}
    {err err' : ComputeError} (objection : Objection h c k err) (other : Objection h c k' err') :
    k = k' ∧ err = err' := by
  -- An objection assumes the opposite of the ones that come before it.
  cases objection with
  | bindings many =>
    cases other with
    | bindings => exact ⟨rfl, rfl⟩
    | workgroups binds | placement binds | size binds => exact absurd binds many
  | workgroups binds wide =>
    cases other with
    | bindings many => exact absurd binds many
    | workgroups => exact ⟨rfl, rfl⟩
    | placement _ dispatches | size _ dispatches => exact absurd dispatches wide
  | placement binds dispatches first fits unplaced =>
    cases other with
    | bindings many => exact absurd binds many
    | workgroups _ wide => exact absurd dispatches wide
    | placement => exact ⟨rfl, rfl⟩
    | size _ _ here large _ placed =>
      obtain rfl | placed := placed
      · cases first.symm.trans here
        exact absurd fits large
      · exact absurd placed unplaced
  | size binds dispatches here large earlier placed =>
    cases other with
    | bindings many => exact absurd binds many
    | workgroups _ wide => exact absurd dispatches wide
    | placement _ _ first fits unplaced =>
      obtain rfl | placed := placed
      · cases here.symm.trans first
        exact absurd fits large
      · exact absurd placed unplaced
    | size _ _ here' large' earlier' _ =>
      obtain before | rfl | after := lt_trichotomy k k'
      · exact absurd (earlier' k before _ here) large
      · cases here.symm.trans here'
        exact ⟨rfl, rfl⟩
      · exact absurd (earlier k' after _ here') large'

theorem Objection.within {h : DeviceHandle} {c : ExecutionContext} {k : Nat} {err : ComputeError}
    (objection : Objection h c k err) : k < c.buffers.length := by
  have some : 0 < c.buffers.length := by
    rw [ExecutionContext.buffers, List.length_append]
    exact Nat.succ_pos _
  cases objection with
  | bindings | workgroups | placement => exact some
  | size _ _ here => exact (List.getElem?_eq_some_iff.mp here).1

namespace Buffer

variable {h : DeviceHandle} {b : Buffer} {d : DeviceState}

/-- A buffer is given memory where it fits and there is a placement for it, as long as the device
has memory left. -/
theorem allocate_decided (memory : ∀ n, h.device.allocationFailure n = none) :
    (h.Fits b ∧ h.Places ∧ ∃ b' d', allocate h b d = .ok b' d') ∨
      (h.Fits b ∧ ¬h.Places ∧ allocate h b d = .error (.device .noSuitableMemoryType) d) ∨
      (¬h.Fits b ∧ allocate h b d =
        .error (.device (.allocationTooLarge b.alignedSize h.maxAllocation)) d) := by
  rw [allocate_apply]
  by_cases large : h.maxAllocation < b.alignedSize
  · rw [if_pos large]
    exact .inr (.inr ⟨Nat.not_le.mpr large, rfl⟩)
  · have fits : h.Fits b := Nat.not_lt.mp large
    rw [if_neg large]
    obtain ⟨placed, p, selected⟩ | ⟨unplaced, selected⟩ := h.selectPlacement_cases
    · simp only [selected, memory]
      exact .inl ⟨fits, placed, _, _, rfl⟩
    · simp only [selected]
      exact .inr (.inl ⟨fits, unplaced, trivial⟩)

end Buffer

namespace Engine

variable {h : DeviceHandle} {c : ExecutionContext}

/-- An engine whose set-up has stopped at one of the buffers of a context. -/
structure StoppedAt (c : ExecutionContext) (k : Nat) (e : Engine) : Prop where
  created : e.stage = .created
  alike : List.Forall₂ Buffer.Alike c.buffers e.context.buffers
  earlier : ∀ i b, e.context.buffers[i]? = some b → (b.isInitialized = true ↔ i < k)

theorem StoppedAt.unique {k k' : Nat} {e : Engine} (stopped : StoppedAt c k e)
    (other : StoppedAt c k' e) (within : k' < c.buffers.length) : k = k' := by
  have shown : ∀ i, i < c.buffers.length → (i < k ↔ i < k') := by
    intro i inside
    rw [stopped.alike.length_eq] at inside
    have found := List.getElem?_eq_getElem inside
    exact (stopped.earlier i _ found).symm.trans (other.earlier i _ found)
  obtain before | same | after := lt_trichotomy k k'
  · exact absurd ((shown k (before.trans within)).mpr before) (Nat.lt_irrefl k)
  · exact same
  · exact absurd ((shown k' within).mp after) (Nat.lt_irrefl k')

theorem checkLimits_cases (h : DeviceHandle) (c : ExecutionContext) :
    (∃ err, checkLimits h c = .error err ∧ Objection h c 0 err) ∨
      (checkLimits h c = .ok () ∧ h.Binds c ∧ h.Dispatches c) := by
  have groups : c.workgroups = c.output.count ⌈/⌉ max c.workgroupSize 1 := rfl
  unfold checkLimits
  by_cases many : h.device.limits.bindings < c.bindings
  · simp only [if_pos many]
    exact .inl ⟨_, rfl, .bindings (Nat.not_le.mpr many)⟩
  · have binds : h.Binds c := Nat.not_lt.mp many
    simp only [if_neg many]
    by_cases wide : h.device.limits.workgroups < c.workgroups
    · simp only [if_pos wide]
      exact .inl ⟨_, rfl, .workgroups binds (Nat.not_le.mpr wide)⟩
    · simp only [if_neg wide]
      exact .inr ⟨trivial, binds, Nat.not_lt.mp wide⟩

theorem Through.admitted {bs bs' : List Buffer} {d d' : DeviceState}
    (memory : ∀ n, h.device.allocationFailure n = none)
    (served : Through (Buffer.allocate h) bs d bs' d') : ∀ b ∈ bs, h.Fits b ∧ h.Places := by
  induction served with
  | nil d => nofun
  | @cons b b' rest rest' d d₁ d₂ first _ ih =>
    refine List.forall_mem_cons.mpr ⟨?_, ih⟩
    obtain ⟨fits, placed, _⟩ | ⟨_, _, failed⟩ | ⟨_, failed⟩ :=
      Buffer.allocate_decided (b := b) (d := d) memory
    · exact ⟨fits, placed⟩
    · cases failed.symm.trans first
    · cases failed.symm.trans first

/-- Where memory runs out, it is the device's word on the buffers that decides where. -/
theorem starved_objection {first last made : List Buffer} {b : Buffer} {d between d' : DeviceState}
    {err : ComputeError} (memory : ∀ n, h.device.allocationFailure n = none) (binds : h.Binds c)
    (dispatches : h.Dispatches c) (split : c.buffers = first ++ b :: last)
    (served : Through (Buffer.allocate h) first d made between)
    (failed : Buffer.allocate h b between = .error err d') : Objection h c first.length err := by
  have admitted := served.admitted memory
  have here : c.buffers[first.length]? = some b := by
    rw [split, List.getElem?_append_right (Nat.le_refl _), Nat.sub_self]
    rfl
  -- Behind the first buffer there is a placement, since the first one has got memory.
  have placed : first.length = 0 ∨ h.Places := by
    cases first with
    | nil => exact .inl rfl
    | cons b _ => exact .inr (admitted b List.mem_cons_self).2
  obtain ⟨_, _, _, _, ran⟩ | ⟨fits, unplaced, ran⟩ | ⟨large, ran⟩ :=
    Buffer.allocate_decided (b := b) (d := between) memory
  · cases ran.symm.trans failed
  · cases ran.symm.trans failed
    have none := placed.resolve_right unplaced
    rw [none] at here ⊢
    exact .placement binds dispatches here fits unplaced
  · cases ran.symm.trans failed
    refine .size binds dispatches here large ?_ placed
    intro i before b' found
    rw [split, List.getElem?_append_left before] at found
    exact (admitted b' (List.mem_of_getElem? found)).1

theorem starved_stoppedAt {first last made inputs : List Buffer} {b output : Buffer}
    {d between : DeviceState} (fresh : ∀ b ∈ c.buffers, b.isInitialized = false)
    (split : c.buffers = first ++ b :: last)
    (served : Through (Buffer.allocate h) first d made between)
    (held : inputs ++ [output] = made ++ b :: last) :
    StoppedAt c first.length (({ context := c } : Engine).withBuffers inputs output) := by
  have length : first.length = made.length :=
    (served.forall₂ fun ran => Buffer.allocate_houses ran).length_eq
  have buffers : (({ context := c } : Engine).withBuffers inputs output).context.buffers =
      made ++ b :: last := held
  refine ⟨rfl, ?_, ?_⟩
  · rw [buffers, split]
    exact served.forall₂_append (fun ran => (Buffer.allocate_houses ran).alike) .refl _
  · intro i b' found
    rw [buffers] at found
    by_cases before : i < first.length
    · rw [List.getElem?_append_left (length ▸ before)] at found
      have initialized : ∀ b ∈ made, b.isInitialized = true :=
        served.made fun ran => (Buffer.allocate_houses ran).initialized
      exact iff_of_true (initialized b' (List.mem_of_getElem? found)) before
    · rw [List.getElem?_append_right (length ▸ Nat.not_lt.mp before)] at found
      have untouched : b' ∈ c.buffers :=
        split ▸ List.mem_append_right first (List.mem_of_getElem? found)
      rw [fresh b' untouched]
      exact iff_of_false Bool.false_ne_true before

/-- What comes of the set-up of a new engine. -/
theorem setup_decided (d : DeviceState) (fresh : ∀ b ∈ c.buffers, b.isInitialized = false)
    (memory : ∀ n, h.device.allocationFailure n = none) (accepted : h.device.pipelineFailure = none) :
    (∃ k err e d', setup h ({ context := c }, d) = .error err (e, d') ∧ Objection h c k err ∧
        StoppedAt c k e) ∨
      ((∀ k err, ¬Objection h c k err) ∧ ∃ e d', setup h ({ context := c }, d) = .ok () (e, d') ∧
        e.stage = .configured ∧ List.Forall₂ Buffer.Houses c.buffers e.context.buffers) := by
  have outcome := setup_outcome (h := h) (e := { context := c }) (d := d) rfl
  generalize setup h ({ context := c }, d) = result at outcome
  -- The limits are checked before anything is allocated, and decide which ends are possible.
  obtain ⟨err, checked, objection⟩ | ⟨checked, binds, dispatches⟩ := checkLimits_cases h c
  · cases outcome with
    | refused failed =>
      cases checked.symm.trans failed
      refine .inl ⟨0, _, _, _, rfl, objection, rfl, List.forall₂_same.mpr fun b _ => .refl b, ?_⟩
      intro i b found
      rw [fresh b (List.mem_of_getElem? found)]
      exact iff_of_false Bool.false_ne_true (Nat.not_lt_zero i)
    | starved passed => cases checked.symm.trans passed
    | rejected passed => cases checked.symm.trans passed
    | done passed => cases checked.symm.trans passed
  · cases outcome with
    | refused failed => cases checked.symm.trans failed
    | starved _ split served failed held =>
      exact .inl ⟨_, _, _, _, rfl, starved_objection memory binds dispatches split served failed,
        starved_stoppedAt fresh split served held⟩
    | rejected _ _ failed => cases accepted.symm.trans failed
    | done _ served =>
      have admitted := served.admitted memory
      refine .inr ⟨?_, _, _, rfl, rfl, served.forall₂ fun ran => Buffer.allocate_houses ran⟩
      rintro k err (many | ⟨_, wide⟩ | ⟨_, _, first, _, unplaced⟩ | ⟨_, _, here, large, _, _⟩)
      · exact many binds
      · exact wide dispatches
      · exact unplaced (admitted _ (List.mem_of_getElem? first)).2
      · exact large (admitted _ (List.mem_of_getElem? here)).1

/-- The set-up of a new engine fails exactly where the device has an objection, with the error that
the objection says, and stops at the buffer that it is about: the buffers before that one have memory
and the others have none. Where there is no objection every buffer is given memory. -/
theorem setup_admission (d : DeviceState) (fresh : ∀ b ∈ c.buffers, b.isInitialized = false)
    (memory : ∀ n, h.device.allocationFailure n = none) (accepted : h.device.pipelineFailure = none) :
    (∀ k err, Objection h c k err ↔
        ∃ e d', setup h ({ context := c }, d) = .error err (e, d') ∧ StoppedAt c k e) ∧
      ((∀ k err, ¬Objection h c k err) ↔ ∃ e d', setup h ({ context := c }, d) = .ok () (e, d') ∧
        e.stage = .configured ∧ List.Forall₂ Buffer.Houses c.buffers e.context.buffers) := by
  obtain ⟨k, err, e, d', failed, objection, stopped⟩ | ⟨none, e, d', ran, configured, housed⟩ :=
    setup_decided d fresh memory accepted
  · refine ⟨fun k' err' => ⟨?_, ?_⟩, ?_, ?_⟩
    · intro other
      obtain ⟨rfl, rfl⟩ := objection.unique other
      exact ⟨e, d', failed, stopped⟩
    · rintro ⟨e', d'', failed', stopped'⟩
      cases failed.symm.trans failed'
      rw [stopped'.unique stopped objection.within]
      exact objection
    · exact fun none => absurd objection (none k err)
    · rintro ⟨e', d'', ran, _⟩
      cases failed.symm.trans ran
  · refine ⟨fun k' err' => ⟨?_, ?_⟩, ?_, fun _ => none⟩
    · exact fun objection => absurd objection (none k' err')
    · rintro ⟨e', d'', failed, _⟩
      cases ran.symm.trans failed
    · exact fun _ => ⟨e, d', ran, configured, housed⟩

theorem setup_admission_second :
    let layout : Layout := ⟨4, 4, [⟨0, 0, 4⟩]⟩
    let buffer (slot count : Nat) : Buffer :=
      ⟨slot, .leaf .i32, count, .hostToDevice, layout, none, none⟩
    let c : ExecutionContext := ⟨[buffer 0 2, buffer 1 9], buffer 2 2, ⟨"main", 64⟩, 64⟩
    let h : DeviceHandle := ⟨.echo { bufferSize := 32 } true fun _ => none, {}, [.hostVisible]⟩
    (∀ b ∈ c.buffers, b.isInitialized = false) ∧
      (∀ n, h.device.allocationFailure n = none) ∧ h.device.pipelineFailure = none ∧
      ∃ e d', setup h ({ context := c }, h.initial) =
          .error (.device (.allocationTooLarge 40 32)) (e, d') ∧ StoppedAt c 1 e := by
  intro layout buffer c h
  have fresh : ∀ b ∈ c.buffers, b.isInitialized = false := by decide
  have first : ∀ i < 1, ∀ b, c.buffers[i]? = some b → h.Fits b := by
    rintro i before b found
    obtain rfl := Nat.lt_one_iff.mp before
    cases found
    decide
  have second : c.buffers[1]? = some (buffer 1 9) := rfl
  have objection : Objection h c 1 _ :=
    .size (by decide) (by decide) second (by decide) first (.inr (by decide))
  have size : (buffer 1 9).alignedSize = 40 := by decide
  have limit : min h.device.limits.bufferSize h.device.limits.bindingSize = 32 := by decide
  rw [size, limit] at objection
  obtain ⟨stops, _⟩ := setup_admission (h := h) h.initial fresh (fun _ => rfl) rfl
  exact ⟨fresh, fun _ => rfl, rfl, (stops 1 _).mp objection⟩

end Engine
end ArrayQuery
