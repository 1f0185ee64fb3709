import ArrayQuery.Proofs.Blocks

/-! When copies complete, and what they do. The bytes up to the end of the last segment of the last
element are needed on both sides, and enough; whatever is no byte of a segment stays as it was. -/

set_option autoImplicit false
namespace ArrayQuery

open Segment (Carries Placed)

section

variable {segments : List Segment} {sourceStride targetStride : Nat}

/-- Whether both sides have the bytes up to the end of the last segment of the last element. -/
def Segment.FitLast (segments : List Segment) (sourceStride targetStride count : Nat)
    (source target : List UInt8) : Prop :=
  count = 0 ∨ segments = [] ∨ ∃ last, segments.getLast? = some last ∧
    (count - 1) * sourceStride + (last.host + last.length) ≤ source.length ∧
    (count - 1) * targetStride + (last.device + last.length) ≤ target.length

theorem fit_iff_fitLast (ordered : segments.Pairwise Segment.Before) {count : Nat}
    {source target : List UInt8} :
    Segment.Fit segments sourceStride targetStride count source target ↔
      Segment.FitLast segments sourceStride targetStride count source target := by
  constructor
  · intro fit
    by_cases none : count = 0
    · exact .inl none
    by_cases empty : segments = []
    · exact .inr (.inl empty)
    have member := List.getLast_mem empty
    have ends := fit (count - 1) (by omega) _ member
    exact .inr (.inr ⟨_, List.getLast?_eq_some_getLast empty, by omega, by omega⟩)
  · rintro (rfl | rfl | ⟨last, found, readable, writable⟩) e bound s member
    · exact absurd bound (Nat.not_lt_zero e)
    · exact absurd member List.not_mem_nil
    · obtain ⟨before, rfl⟩ := List.getLast?_eq_some_iff.mp found
      have sourceBound := Nat.mul_le_mul_right sourceStride (Nat.le_pred_of_lt bound)
      have targetBound := Nat.mul_le_mul_right targetStride (Nat.le_pred_of_lt bound)
      rw [Nat.pred_eq_sub_one] at sourceBound targetBound
      obtain member | member := List.mem_append.mp member
      · have first := (List.pairwise_append.mp ordered).2.2 s member last List.mem_cons_self
        unfold Segment.Before at first
        omega
      · obtain rfl := List.mem_singleton.mp member
        omega

end

/-! ## What a copy does -/

structure Moved (segments : List Segment) (sourceStride targetStride count : Nat)
    (source target result : List UInt8) : Prop where
  length : result.length = target.length
  moved : ∀ e < count, ∀ s ∈ segments, ∀ i < s.length, ∃ b,
    source[e * sourceStride + s.host + i]? = some b ∧
    result[e * targetStride + s.device + i]? = some b
  kept : ∀ k, (∀ e < count, ∀ s ∈ segments, ∀ i < s.length, k ≠ e * targetStride + s.device + i) →
    result[k]? = target[k]?

theorem Copied.toMoved {segments : List Segment} {sourceStride targetStride count : Nat}
    {source target result : List UInt8}
    (copied : Copied segments sourceStride targetStride count source target result)
    (fit : Segment.Fit segments sourceStride targetStride count source target) :
    Moved segments sourceStride targetStride count source target result where
  length := copied.length
  moved e bound s member i inside := by
    have reached := fit e bound s member
    have found := copied.carried e bound _ _ ⟨s, member, i, inside, rfl, rfl⟩
    rw [← Nat.add_assoc, ← Nat.add_assoc] at found
    have present : e * sourceStride + s.host + i < source.length := by omega
    exact ⟨_, List.getElem?_eq_getElem present, found.trans (List.getElem?_eq_getElem present)⟩
  kept k apart := by
    by_cases outside : count * targetStride ≤ k
    · exact copied.beyond k outside
    · obtain ⟨inner, bound, place⟩ := place_in_array (Nat.lt_of_not_le outside)
      rw [← place]
      refine copied.kept _ inner _ bound ?_
      rintro i ⟨s, member, l, inside, -, same⟩
      exact apart _ inner s member l inside (by rw [Nat.add_assoc, ← same, place])

/-- Whether the outcome of a copy is the one that its segments ask for: it completes exactly if they fit,
and then moves their bytes and no others. -/
def Segment.Follows (segments : List Segment) (sourceStride targetStride count : Nat)
    (source target : List UInt8) : Option (List UInt8) → Prop
  | none => ¬Segment.FitLast segments sourceStride targetStride count source target
  | some result => Segment.FitLast segments sourceStride targetStride count source target ∧
    Moved segments sourceStride targetStride count source target result

theorem follows {segments : List Segment} {sourceStride targetStride count : Nat}
    {source target : List UInt8} {outcome : Option (List UInt8)}
    (placed : Placed sourceStride targetStride segments)
    (needs : ∀ result, outcome = some result →
      Segment.Fit segments sourceStride targetStride count source target)
    (does : Segment.Fit segments sourceStride targetStride count source target →
      ∃ result, outcome = some result ∧
        Copied segments sourceStride targetStride count source target result) :
    Segment.Follows segments sourceStride targetStride count source target outcome := by
  have same : Segment.Fit segments sourceStride targetStride count source target ↔
      Segment.FitLast segments sourceStride targetStride count source target :=
    fit_iff_fitLast placed.ordered
  cases outcome with
  | none =>
    intro last
    obtain ⟨_, impossible, _⟩ := does (same.mpr last)
    exact nomatch impossible
  | some result =>
    have fit := needs result rfl
    obtain ⟨_, ⟨⟩, copied⟩ := does fit
    exact ⟨same.mp fit, copied.toMoved fit⟩

namespace Layout

variable (t : ElementType) (count : Nat)

-- The device buffer ends with the second vector, four bytes short of its stride.
example : ((Layout.of .vector3).hostToDevice 2 (List.replicate 24 1)
    (List.replicate 28 0)).isSome = true := by decide +kernel

-- So many words that 64 bits count none of their bytes are there in any buffer.
example : (Layout.of .i32).hostToDevice 4611686018427387904 [] [] = some [] := by decide +kernel

end Layout
end ArrayQuery
