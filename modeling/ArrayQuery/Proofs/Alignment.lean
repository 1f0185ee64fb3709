import ArrayQuery.Proofs.Leaves
import ArrayQuery.Proofs.Strides

/-! Alignment. All alignments are powers of two, so that of two of them the greater one is a multiple of
the other: whatever a record holds is aligned wherever the record is, in every element of an array. -/

set_option autoImplicit false
namespace ArrayQuery

open Kernel (roundUp)

theorem dvd_alignUp (n : Nat) {k : Nat} (positive : 0 < k) : k ∣ alignUp n k := by
  rw [alignUp_eq_roundUp n positive]
  exact Nat.dvd_mul_left k _

section Powers

variable {a b : Nat} (first : a.isPowerOfTwo) (second : b.isPowerOfTwo)
include first second

theorem max_power : (max a b).isPowerOfTwo := by
  rcases le_total a b with below | above
  · rwa [max_eq_right below]
  · rwa [max_eq_left above]

theorem dvd_max : a ∣ max a b ∧ b ∣ max a b := by
  obtain ⟨k, rfl⟩ := first
  obtain ⟨m, rfl⟩ := second
  rcases le_total k m with below | above
  · rw [max_eq_right (Nat.pow_le_pow_right Nat.two_pos below)]
    exact ⟨Nat.pow_dvd_pow 2 below, Nat.dvd_refl _⟩
  · rw [max_eq_left (Nat.pow_le_pow_right Nat.two_pos above)]
    exact ⟨Nat.dvd_refl _, Nat.pow_dvd_pow 2 above⟩

end Powers

theorem Leaf.align_power (side : Side) (l : Leaf) : (l.extent side).align.isPowerOfTwo := by
  refine ⟨Nat.log2 (l.extent side).align, ?_⟩
  cases side <;> cases l <;> decide +kernel

namespace ElementType

variable (side : Side)

mutual
theorem align_power : ∀ t : ElementType, (t.extent side).align.isPowerOfTwo
  | .leaf l => l.align_power side
  | .record _ fields => alignFrom_power ⟨0, 1⟩ ⟨0, rfl⟩ fields

theorem alignFrom_power (sofar : Extent) (power : sofar.align.isPowerOfTwo) :
    ∀ fields : List (String × ElementType), (extentFrom side sofar fields).align.isPowerOfTwo
  | [] => power
  | (_, t) :: fields => alignFrom_power _ (max_power power (align_power t)) fields
end

theorem align_dvd_extentFrom (fields : List (String × ElementType)) (sofar : Extent)
    (power : sofar.align.isPowerOfTwo) : sofar.align ∣ (extentFrom side sofar fields).align := by
  induction fields generalizing sofar with
  | nil => exact Nat.dvd_refl _
  | cons field fields ih =>
    have other := align_power side field.2
    exact Nat.dvd_trans (dvd_max power other).1 (ih _ (max_power power other))

mutual
theorem leaf_align_dvd : ∀ t : ElementType, ∀ p ∈ t.leafWays,
    (p.2.extent side).align ∣ (t.extent side).align ∧ (p.2.extent side).align ∣ t.offset side p.1
  | .leaf l, p, member => by
    obtain rfl := List.mem_singleton.mp member
    exact ⟨Nat.dvd_refl _, Nat.dvd_zero _⟩
  | .record _ fields, p, member => leafIn_align_dvd fields ⟨0, 1⟩ ⟨0, rfl⟩ p member

theorem leafIn_align_dvd : ∀ (fields : List (String × ElementType)) (sofar : Extent),
    sofar.align.isPowerOfTwo → ∀ p ∈ leafWaysIn fields,
    (p.2.extent side).align ∣ (extentFrom side sofar fields).align ∧
      (p.2.extent side).align ∣ offsetFrom side sofar fields p.1
  | [], _, _, _, member => absurd member List.not_mem_nil
  | (name, t) :: fields, sofar, power, p, member => by
    have other := align_power side t
    have pushed : (sofar.push (t.extent side)).align.isPowerOfTwo := max_power power other
    rw [leafWaysIn] at member
    obtain member | member := List.mem_append.mp member
    · obtain ⟨q, inner, rfl⟩ := List.mem_map.mp member
      obtain ⟨divides, placed⟩ := leaf_align_dvd t q inner
      have outer := Nat.dvd_trans (dvd_max power other).2 (align_dvd_extentFrom side fields _ pushed)
      have start := dvd_alignUp sofar.size (align_pos side t)
      exact ⟨Nat.dvd_trans divides outer, Nat.dvd_add (Nat.dvd_trans divides start) placed⟩
    · obtain ⟨q, inner, rfl⟩ := List.mem_map.mp member
      rw [offsetFrom_further, extentFrom]
      exact leafIn_align_dvd fields _ pushed q inner
end

def stride (t : ElementType) : Side → Nat
  | .host => t.hostStride
  | .device => t.deviceStride

theorem size_le_stride (t : ElementType) : (t.extent side).size ≤ t.stride side := by
  cases side with
  | host => exact le_rfl
  | device => exact device_size_le_stride t

theorem align_dvd_stride (t : ElementType) : (t.extent side).align ∣ t.stride side := by
  cases side with
  | host =>
    cases t with
    | leaf l => cases l <;> decide
    | record name fields =>
      rw [stride, hostStride, extent_record]
      exact Nat.dvd_mul_left _ _
  | device =>
    rw [stride, deviceStride_eq]
    exact Nat.dvd_mul_left _ _

structure IsAligned (t : ElementType) : Prop where
  /-- Before they are merged, the segments are the leaves. -/
  listed : t.leafSegments 0 0 = t.leafWays.map fun p =>
    ⟨t.offset .host p.1, t.offset .device p.1, (p.2.extent .host).size⟩
  complete : ∀ way l, (way, l) ∈ t.leafWays ↔ t.part? way = some (.leaf l)
  ordered : t.leafWays.Pairwise fun p q => p.1 < q.1
  /-- A truth value takes a word on the device. -/
  apart : ∀ side, t.leafWays.Pairwise fun p q =>
    t.offset side p.1 + (p.2.extent side).size ≤ t.offset side q.1
  within : ∀ side, ∀ p ∈ t.leafWays, t.offset side p.1 + (p.2.extent side).size ≤ t.stride side
  aligned : ∀ side, ∀ p ∈ t.leafWays, (p.2.extent side).align ∣ t.offset side p.1
  divides : ∀ side, ∀ p ∈ t.leafWays, (p.2.extent side).align ∣ (t.extent side).align
  deviceStride : t.deviceStride = roundUp (t.extent .device).align (t.extent .device).size
  hostStride : (t.extent .host).align ∣ t.hostStride
  everywhere : ∀ side, ∀ p ∈ t.leafWays, ∀ e : Nat,
    (p.2.extent side).align ∣ e * t.stride side + t.offset side p.1

/-- The leaves of every type are laid out as their alignments ask for. -/
theorem leaves_aligned (t : ElementType) : t.IsAligned where
  listed := by
    rw [leafSegments_eq]
    refine List.map_congr_left fun p _ => ?_
    rw [leafSegment, Nat.zero_add, Nat.zero_add]
  complete := mem_leafWays t
  ordered := leafWays_ordered t
  apart side := (leafWays_apart side t).1
  within side p member := ((leafWays_apart side t).2 p member).trans (size_le_stride side t)
  aligned side p member := (leaf_align_dvd side t p member).2
  divides side p member := (leaf_align_dvd side t p member).1
  deviceStride := deviceStride_eq t
  hostStride := align_dvd_stride .host t
  everywhere side p member e := by
    obtain ⟨divides, placed⟩ := leaf_align_dvd side t p member
    have stride := Nat.dvd_trans divides (align_dvd_stride side t)
    exact Nat.dvd_add (Nat.dvd_mul_left_of_dvd stride e) placed

end ElementType
end ArrayQuery
