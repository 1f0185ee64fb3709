import ArrayQuery.Element.Layout

/-! Segments of an element type: which bytes they carry, whether they lie in order and without overlap
on both sides, and that merging changes neither. -/

set_option autoImplicit false
namespace ArrayQuery

theorem le_alignUp (value alignment : Nat) : value ≤ alignUp value alignment := by
  unfold alignUp
  split
  · exact Nat.le_refl _
  · split <;> omega

namespace Segment

/-- Whether byte `i` of a host element is byte `j` of the device element. -/
def Carries (segments : List Segment) (i j : Nat) : Prop :=
  ∃ s ∈ segments, ∃ k < s.length, i = s.host + k ∧ j = s.device + k

/-- Both sides of a segment end before the other segment starts. -/
def Before (s r : Segment) : Prop :=
  s.host + s.length ≤ r.host ∧ s.device + s.length ≤ r.device

/-- Both sides of a segment end within the given sizes. -/
def Within (host device : Nat) (s : Segment) : Prop :=
  s.host + s.length ≤ host ∧ s.device + s.length ≤ device

/-- Segments in order, which end within the given sizes. -/
structure Placed (host device : Nat) (segments : List Segment) : Prop where
  ordered : segments.Pairwise Before
  within : ∀ s ∈ segments, s.Within host device

theorem carries_nil (i j : Nat) : ¬Carries [] i j := by
  simp [Carries]

theorem carries_cons (s : Segment) (rest : List Segment) (i j : Nat) :
    Carries (s :: rest) i j ↔
      (∃ k < s.length, i = s.host + k ∧ j = s.device + k) ∨ Carries rest i j := by
  simp [Carries]

theorem carries_append (first rest : List Segment) (i j : Nat) :
    Carries (first ++ rest) i j ↔ Carries first i j ∨ Carries rest i j := by
  simp only [Carries, List.mem_append, or_and_right, exists_or]

theorem carries_swap (segments : List Segment) (i j : Nat) :
    Carries (segments.map swap) j i ↔ Carries segments i j := by
  constructor
  · rintro ⟨_, swapped, k, hk, hj, hi⟩
    obtain ⟨s, member, rfl⟩ := List.mem_map.mp swapped
    exact ⟨s, member, k, hk, hi, hj⟩
  · rintro ⟨s, member, k, hk, hi, hj⟩
    exact ⟨s.swap, List.mem_map_of_mem member, k, hk, hj, hi⟩

theorem Placed.swap {host device : Nat} {segments : List Segment}
    (placed : Placed host device segments) : Placed device host (segments.map swap) where
  ordered := List.pairwise_map.mpr (placed.ordered.imp fun before => ⟨before.2, before.1⟩)
  within := by
    intro s swapped
    obtain ⟨r, member, rfl⟩ := List.mem_map.mp swapped
    exact ⟨(placed.within r member).2, (placed.within r member).1⟩

theorem Placed.carries_bound {host device i j : Nat} {segments : List Segment}
    (placed : Placed host device segments) (carried : Carries segments i j) :
    i < host ∧ j < device := by
  obtain ⟨s, member, k, hk, rfl, rfl⟩ := carried
  have within := placed.within s member
  unfold Within at within
  omega

theorem not_carries_of_before {s : Segment} {rest : List Segment}
    (first : ∀ r ∈ rest, Before s r) {i k : Nat} (inside : k < s.length) :
    ¬Carries rest i (s.device + k) := by
  rintro ⟨r, member, l, -, -, same⟩
  have := (first r member).2
  omega

theorem mergeFrom_start (last : Segment) (rest : List Segment) :
    ∀ r ∈ mergeFrom last rest, ∃ s ∈ last :: rest, r.host = s.host ∧ r.device = s.device := by
  induction rest generalizing last with
  | nil => simp [mergeFrom]
  | cons s rest ih =>
    intro r member
    simp only [mergeFrom] at member
    split at member
    · obtain ⟨q, hq, same⟩ := ih _ r member
      rcases List.mem_cons.mp hq with rfl | hq
      · exact ⟨last, by simp, same⟩
      · exact ⟨q, by simp [hq], same⟩
    · rcases List.mem_cons.mp member with rfl | member
      · exact ⟨r, by simp, rfl, rfl⟩
      · obtain ⟨q, hq, same⟩ := ih s r member
        exact ⟨q, List.mem_cons_of_mem _ hq, same⟩

theorem merge_start (segments : List Segment) :
    ∀ r ∈ merge segments, ∃ s ∈ segments, r.host = s.host ∧ r.device = s.device := by
  cases segments with
  | nil => exact fun _ member => absurd member List.not_mem_nil
  | cons s rest => exact mergeFrom_start s rest

theorem mergeFrom_placed {host device : Nat} (last : Segment) (rest : List Segment)
    (placed : Placed host device (last :: rest)) :
    Placed host device (mergeFrom last rest) := by
  induction rest generalizing last with
  | nil => exact placed
  | cons s rest ih =>
    obtain ⟨ordered, within⟩ := placed
    obtain ⟨first, ordered⟩ := List.pairwise_cons.mp ordered
    have tail : Placed host device (s :: rest) :=
      ⟨ordered, fun r member => within r (List.mem_cons_of_mem _ member)⟩
    simp only [mergeFrom]
    split
    · next joined =>
      -- The joined segment ends where the second one did, and so comes before the same segments.
      apply ih
      have ends := within s (by simp)
      have after := (List.pairwise_cons.mp ordered).1
      refine ⟨List.pairwise_cons.mpr ⟨?_, (List.pairwise_cons.mp ordered).2⟩, ?_⟩
      · intro r member
        have := after r member
        simp only [Before] at this ⊢
        omega
      · intro r member
        rcases List.mem_cons.mp member with rfl | member
        · simp only [Within] at ends ⊢
          omega
        · exact within r (by simp [member])
    · refine ⟨List.pairwise_cons.mpr ⟨?_, (ih s tail).ordered⟩, ?_⟩
      · intro r member
        -- A merged segment starts where one of its parts did, and no part is before `s`.
        obtain ⟨q, hq, sameHost, sameDevice⟩ := mergeFrom_start s rest r member
        have := first q hq
        simp only [Before] at this ⊢
        omega
      · intro r member
        rcases List.mem_cons.mp member with rfl | member
        · exact within r (by simp)
        · exact (ih s tail).within r member

theorem merge_placed {host device : Nat} {segments : List Segment}
    (placed : Placed host device segments) : Placed host device (merge segments) := by
  cases segments with
  | nil => exact placed
  | cons s rest => exact mergeFrom_placed s rest placed

theorem mergeFrom_carries (last : Segment) (rest : List Segment) (i j : Nat) :
    Carries (mergeFrom last rest) i j ↔ Carries (last :: rest) i j := by
  induction rest generalizing last with
  | nil => rfl
  | cons s rest ih =>
    simp only [mergeFrom]
    split
    · next joined =>
      rw [ih, carries_cons, carries_cons last, carries_cons s, ← or_assoc]
      refine or_congr ⟨?_, ?_⟩ Iff.rfl
      · rintro ⟨k, hk, hi, hj⟩
        by_cases early : k < last.length
        · exact .inl ⟨k, early, hi, hj⟩
        · refine .inr ⟨k - last.length, ?_, ?_, ?_⟩ <;> simp only at * <;> omega
      · rintro (⟨k, hk, hi, hj⟩ | ⟨k, hk, hi, hj⟩)
        · refine ⟨k, ?_, hi, hj⟩
          simp only
          omega
        · refine ⟨last.length + k, ?_, ?_, ?_⟩ <;> simp only <;> omega
    · rw [carries_cons, carries_cons last, ih]

theorem merge_carries (segments : List Segment) (i j : Nat) :
    Carries (merge segments) i j ↔ Carries segments i j := by
  cases segments with
  | nil => rfl
  | cons s rest => exact mergeFrom_carries s rest i j

end Segment

namespace ElementType

mutual
/-- Whether a byte of a host element belongs to a leaf, and not to the padding between fields. -/
def ownsByte : ElementType → Nat → Bool
  | .leaf l, i => decide (i < (l.extent .host).size)
  | .record _ fields, i => fieldsOwnByte ⟨0, 1⟩ fields i

def fieldsOwnByte (sofar : Extent) : List (String × ElementType) → Nat → Bool
  | [], _ => false
  | (_, t) :: rest, i =>
    let start := alignUp sofar.size (t.extent .host).align
    (decide (start ≤ i) && t.ownsByte (i - start)) ||
      fieldsOwnByte (sofar.push (t.extent .host)) rest i
end

theorem size_le_extentFrom (side : Side) (sofar : Extent) (fields : List (String × ElementType)) :
    sofar.size ≤ (extentFrom side sofar fields).size := by
  induction fields generalizing sofar with
  | nil => exact Nat.le_refl _
  | cons field rest ih =>
    have aligned := le_alignUp sofar.size (field.2.extent side).align
    have pushed := ih (sofar.push (field.2.extent side))
    simp only [Extent.push] at pushed
    simp only [extentFrom, Extent.push]
    omega

theorem device_size_le_stride (t : ElementType) : (t.extent .device).size ≤ t.deviceStride := by
  cases t with
  | leaf l => cases l <;> decide +kernel
  | record name fields => exact Nat.le_refl _

mutual
theorem leafSegments_carry (host device i : Nat) : (t : ElementType) →
    ((∃ j, Segment.Carries (leafSegments host device t) i j) ↔
      host ≤ i ∧ t.ownsByte (i - host) = true)
  | .leaf l => by
    simp only [leafSegments, Segment.Carries, List.mem_singleton, exists_eq_left, ownsByte,
      decide_eq_true_eq]
    constructor
    · rintro ⟨j, k, hk, rfl, -⟩
      omega
    · rintro ⟨start, owned⟩
      exact ⟨_, i - host, owned, by omega, rfl⟩
  | .record _ fields => fieldSegments_carry host device ⟨0, 1⟩ ⟨0, 1⟩ i fields

theorem fieldSegments_carry (host device : Nat) (atHost atDevice : Extent) (i : Nat) :
    (fields : List (String × ElementType)) →
    ((∃ j, Segment.Carries (fieldSegments host device atHost atDevice fields) i j) ↔
      host ≤ i ∧ fieldsOwnByte atHost fields (i - host) = true)
  | [] => by simp [fieldSegments, Segment.Carries, fieldsOwnByte]
  | (_, t) :: rest => by
    have first := leafSegments_carry (host + alignUp atHost.size (t.extent .host).align)
      (device + alignUp atDevice.size (t.extent .device).align) i t
    have others := fieldSegments_carry host device (atHost.push (t.extent .host))
      (atDevice.push (t.extent .device)) i rest
    simp only [fieldSegments, Segment.carries_append, exists_or, first, others, fieldsOwnByte,
      Bool.or_eq_true, Bool.and_eq_true, decide_eq_true_eq, Nat.sub_add_eq]
    constructor
    · rintro (⟨start, owned⟩ | ⟨start, owned⟩)
      · exact ⟨by omega, .inl ⟨by omega, owned⟩⟩
      · exact ⟨start, .inr owned⟩
    · rintro ⟨start, ⟨aligned, owned⟩ | owned⟩
      · exact .inl ⟨by omega, owned⟩
      · exact .inr ⟨start, owned⟩
end

/-- The segments of a type carry the bytes of its leaves, and no padding. -/
theorem segments_carry (t : ElementType) (i : Nat) :
    (∃ j, Segment.Carries (Layout.of t).segments i j) ↔ t.ownsByte i = true := by
  have leaves := leafSegments_carry 0 0 i t
  simpa only [Layout.of, Segment.merge_carries, Nat.zero_le, true_and, Nat.sub_zero] using leaves

end ElementType
end ArrayQuery
