import ArrayQuery.Device.Buffer
import ArrayQuery.Proofs.Alignment
import Mathlib.Order.Bounds.Defs

/-! Device images beside host data. All that is placed on the device has alignments that are multiples of
those on the host, so that through the roundings at every level it lies no earlier and takes no less. The
images are whole words, of which the padding after them is at most one unless there is no image. -/

set_option autoImplicit false
namespace ArrayQuery

theorem alignUp_le {n m k : Nat} (multiple : k ∣ m) (above : n ≤ m) : alignUp n k ≤ m := by
  obtain ⟨q, rfl⟩ := multiple
  unfold alignUp
  split
  · exact above
  · next nonzero =>
    split
    · exact above
    · next odd =>
      -- Between the value and the next multiple there is no other one.
      have whole := Nat.div_add_mod n k
      have rest := Nat.mod_lt n (Nat.pos_of_ne_zero nonzero)
      have below : n / k < q := by
        by_contra reached
        have least := Nat.mul_le_mul_left k (not_lt.mp reached)
        omega
      have next := Nat.mul_le_mul_left k (Nat.succ_le_of_lt below)
      rw [Nat.mul_succ] at next
      omega

theorem alignUp_isLeast (n : Nat) {k : Nat} (positive : 0 < k) :
    IsLeast {m | k ∣ m ∧ n ≤ m} (alignUp n k) :=
  ⟨⟨dvd_alignUp n positive, le_alignUp n k⟩, fun _ held => alignUp_le held.1 held.2⟩

theorem alignUp_le_alignUp {n m k l : Nat} (ordered : n ≤ m) (divides : k ∣ l) (positive : 0 < l) :
    alignUp n k ≤ alignUp m l :=
  alignUp_le (Nat.dvd_trans divides (dvd_alignUp m positive)) (ordered.trans (le_alignUp m l))

theorem alignUp_of_dvd {n k : Nat} (multiple : k ∣ n) : alignUp n k = n :=
  le_antisymm (alignUp_le multiple le_rfl) (le_alignUp n k)

theorem dvd_alignUp_of_dvd {n k a : Nat} (multiple : k ∣ n) (first : k.isPowerOfTwo)
    (second : a.isPowerOfTwo) : k ∣ alignUp n a := by
  obtain ⟨left, right⟩ := dvd_max first second
  rcases le_total a k with below | above
  · rw [max_eq_left below] at right
    rwa [alignUp_of_dvd (Nat.dvd_trans right multiple)]
  · rw [max_eq_right above] at left
    exact Nat.dvd_trans left (dvd_alignUp n (Nat.pos_of_isPowerOfTwo second))

/-- Whether an extent on the device has room for one on the host, wherever both are placed. -/
structure Extent.Houses (device host : Extent) : Prop where
  size : host.size ≤ device.size
  align : host.align ∣ device.align

namespace Extent.Houses

variable {device host d h : Extent} (sofar : device.Houses host) (member : d.Houses h)

include member in
theorem start (ordered : host.size ≤ device.size) (power : d.align.isPowerOfTwo) :
    alignUp host.size h.align ≤ alignUp device.size d.align :=
  alignUp_le_alignUp ordered member.align (Nat.pos_of_isPowerOfTwo power)

include sofar member in
theorem push (power : device.align.isPowerOfTwo) (power' : d.align.isPowerOfTwo) :
    (device.push d).Houses (host.push h) := by
  refine ⟨Nat.add_le_add (member.start sofar.size power') member.size, ?_⟩
  obtain ⟨first, second⟩ := dvd_max power power'
  show max host.align h.align ∣ max device.align d.align
  rcases le_total h.align host.align with below | above
  · rw [max_eq_left below]
    exact Nat.dvd_trans sofar.align first
  · rw [max_eq_right above]
    exact Nat.dvd_trans member.align second

include sofar in
theorem close (power : device.align.isPowerOfTwo) : device.close.Houses host.close :=
  ⟨alignUp_le_alignUp sofar.size sofar.align (Nat.pos_of_isPowerOfTwo power), sofar.align⟩

end Extent.Houses

theorem Leaf.device_houses (l : Leaf) : (l.extent .device).Houses (l.extent .host) := by
  constructor <;> cases l <;> decide

namespace ElementType

mutual
theorem device_houses : ∀ t : ElementType, (t.extent .device).Houses (t.extent .host)
  | .leaf l => l.device_houses
  | .record _ fields => by
    have power : (Extent.mk 0 1).align.isPowerOfTwo := ⟨0, rfl⟩
    exact (device_housesFrom fields ⟨le_rfl, Nat.dvd_refl 1⟩ power).close (alignFrom_power _ _ power fields)

theorem device_housesFrom : ∀ (fields : List (String × ElementType)) {device host : Extent},
    device.Houses host → device.align.isPowerOfTwo →
    (extentFrom .device device fields).Houses (extentFrom .host host fields)
  | [], _, _, sofar, _ => sofar
  | (_, t) :: fields, _, _, sofar, power => by
    have power' := align_power .device t
    exact device_housesFrom fields (sofar.push (device_houses t) power power') (max_power power power')
end

mutual
theorem offset_le : ∀ (t : ElementType) (way : List Nat), t.offset .host way ≤ t.offset .device way
  | .leaf _, _ => le_rfl
  | .record _ fields, way => offsetFrom_le fields way ⟨le_rfl, Nat.dvd_refl 1⟩ ⟨0, rfl⟩

theorem offsetFrom_le : ∀ (fields : List (String × ElementType)) (way : List Nat)
    {device host : Extent}, device.Houses host → device.align.isPowerOfTwo →
    offsetFrom .host host fields way ≤ offsetFrom .device device fields way
  | [], _, _, _, _, _ => by rw [offsetFrom, offsetFrom] <;> simp
  | _ :: _, [], _, _, _, _ => le_rfl
  | (_, t) :: _, 0 :: way, _, _, sofar, _ =>
    Nat.add_le_add ((device_houses t).start sofar.size (align_power .device t)) (offset_le t way)
  | (_, t) :: fields, (k + 1) :: way, _, _, sofar, power => by
    have power' := align_power .device t
    exact offsetFrom_le fields (k :: way) (sofar.push (device_houses t) power power')
      (max_power power power')
end

theorem deviceWord_power : deviceWord.isPowerOfTwo := ⟨2, rfl⟩

mutual
theorem word_dvd_size : ∀ t : ElementType, deviceWord ∣ (t.extent .device).size
  | .leaf l => by cases l <;> decide
  | .record _ fields => by
    have power : (Extent.mk 0 1).align.isPowerOfTwo := ⟨0, rfl⟩
    exact dvd_alignUp_of_dvd (word_dvd_sizeFrom fields (Nat.dvd_zero _)) deviceWord_power
      (alignFrom_power _ _ power fields)

theorem word_dvd_sizeFrom : ∀ (fields : List (String × ElementType)) {sofar : Extent},
    deviceWord ∣ sofar.size → deviceWord ∣ (extentFrom .device sofar fields).size
  | [], _, words => words
  | (_, t) :: fields, _, words => by
    have start := dvd_alignUp_of_dvd words deviceWord_power (align_power .device t)
    exact word_dvd_sizeFrom fields (Nat.dvd_add start (word_dvd_size t))
end

structure HasRoom (t : ElementType) : Prop where
  stride : t.hostStride ≤ t.deviceStride
  words : 4 ∣ t.deviceStride
  further : ∀ s ∈ (Layout.of t).segments, s.host ≤ s.device

theorem hasRoom (t : ElementType) : t.HasRoom where
  stride := (device_houses t).size.trans (device_size_le_stride t)
  words := by
    rw [deviceStride_eq, ← alignUp_eq_roundUp _ (align_pos .device t)]
    exact dvd_alignUp_of_dvd (word_dvd_size t) deviceWord_power (align_power .device t)
  further := by
    intro s member
    obtain ⟨r, leaf, host, device⟩ := Segment.merge_start _ s member
    rw [leafSegments_eq] at leaf
    obtain ⟨p, _, rfl⟩ := List.mem_map.mp leaf
    rw [host, device]
    exact Nat.add_le_add_left (offset_le t p.1) 0

end ElementType

/-! ## Allocations -/

/-- Whether a buffer takes the least memory that may be mapped, and how much of it is padding. -/
structure Buffer.IsPadded (b : Buffer) : Prop where
  least : IsLeast {size | 8 ∣ size ∧ max b.deviceSize 4 ≤ size} b.alignedSize
  /-- The size is one of 64 bits as long as the image leaves eight bytes of what these can count. -/
  fits : b.alignedSize < UInt64.size ↔ b.deviceSize ≤ UInt64.size - 8
  /-- What the layout gives is the size of the image exactly where 64 bits count it, and then also that of
  the data on the host. -/
  sized : b.layout.deviceSize b.count = b.deviceSize ↔ b.deviceSize < UInt64.size
  housed : b.deviceSize < UInt64.size → b.layout.hostSize b.count = b.hostSize
  /-- The padding is what is left of the allocation after the image, which is no longer than it. -/
  rest : b.deviceSize + b.padding = b.alignedSize
  padding : if b.deviceSize = 0 then b.padding = 8 else b.padding = 0 ∨ b.padding = 4

theorem Buffer.isPadded {b : Buffer} (layout : b.layout = .of b.element) : b.IsPadded := by
  have room := b.element.hasRoom
  have words : 4 ∣ b.deviceSize := by
    rw [Buffer.deviceSize, layout]
    exact Nat.dvd_mul_left_of_dvd room.words b.count
  have housed : b.hostSize ≤ b.deviceSize := by
    rw [Buffer.hostSize, Buffer.deviceSize, layout]
    exact Nat.mul_le_mul_left b.count room.stride
  have least : IsLeast {size | 8 ∣ size ∧ max b.deviceSize 4 ≤ size} b.alignedSize :=
    alignUp_isLeast _ (by decide)
  have above : max b.deviceSize 4 ≤ b.alignedSize := least.1.2
  have whole : 8 ∣ b.alignedSize := least.1.1
  -- The next multiple is less than eight bytes away.
  have near : b.alignedSize ≤ (max b.deviceSize 4 + 7) / 8 * 8 :=
    least.2 ⟨Nat.dvd_mul_left 8 _, by omega⟩
  have left : b.padding = b.alignedSize - b.deviceSize := rfl
  have counted : UInt64.size = 18446744073709551616 := rfl
  refine ⟨least, ?_, wordSize_eq_iff, fun counted => wordSize_eq_iff.mpr (housed.trans_lt counted), ?_, ?_⟩
  · omega
  · omega
  · split <;> omega

/-- Images on the device are never smaller than the data on the host: neither the strides of any type
nor the offsets in it. They are whole words, so that the memory of a buffer, which is the least that may
be mapped, has no padding, one word of it, or eight bytes if there is no image. -/
theorem images_padded : (∀ t : ElementType, t.HasRoom) ∧
    ∀ b : Buffer, b.layout = .of b.element → b.IsPadded :=
  ⟨ElementType.hasRoom, fun _ => Buffer.isPadded⟩

theorem images_padded_words : let b := Buffer.output 1 .i32 3
    b.layout = .of b.element ∧ b.IsPadded ∧ b.deviceSize = 12 ∧ b.alignedSize = 16 ∧ b.padding = 4 :=
  ⟨rfl, images_padded.2 (Buffer.output 1 .i32 3) rfl, by decide +kernel, by decide +kernel,
    by decide +kernel⟩

end ArrayQuery
