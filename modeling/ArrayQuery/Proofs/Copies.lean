import ArrayQuery.Proofs.Leaves

/-! Copies of whole arrays between host and device: which byte comes from where, whether the copy
goes in one block or by segments, and what a round trip through the device brings back. -/

set_option autoImplicit false
namespace ArrayQuery

open Segment (Carries Placed)

/-- Bytes in memory. There are no more of them than a signed word of 64 bits counts. -/
structure Slice where
  bytes : List UInt8
  addressable : 2 * bytes.length < UInt64.size

theorem Slice.counted {s : Slice} {size : Nat} (long : size ≤ s.bytes.length) : size < UInt64.size := by
  have bound := s.addressable
  omega

theorem copyBytes_eq_some (source target : List UInt8) (start goal length : Nat)
    (readable : start + length ≤ source.length) (writable : goal + length ≤ target.length) :
    ∃ result, copyBytes source start target goal length = some result ∧
      result.length = target.length ∧
      (∀ k < length, result[goal + k]? = source[start + k]?) ∧
      ∀ j, j < goal ∨ goal + length ≤ j → result[j]? = target[j]? := by
  refine ⟨_, if_pos ⟨readable, writable⟩, ?_, ?_, ?_⟩
  · simp only [List.length_append, List.length_take, List.length_drop]
    omega
  · intro k hk
    rw [List.append_assoc, List.getElem?_append_right (by simp only [List.length_take]; omega),
      List.getElem?_append_left (by simp only [List.length_take, List.length_drop]; omega),
      List.getElem?_take_of_lt (by simp only [List.length_take]; omega), List.getElem?_drop]
    congr 1
    simp only [List.length_take]
    omega
  · rintro j (before | after)
    · rw [List.append_assoc, List.getElem?_append_left (by simp only [List.length_take]; omega),
        List.getElem?_take_of_lt before]
    · rw [List.getElem?_append_right
        (by simp only [List.length_append, List.length_take, List.length_drop]; omega),
        List.getElem?_drop]
      congr 1
      simp only [List.length_append, List.length_take, List.length_drop]
      omega

/-- One element: carried bytes come from the source, all others stay. -/
theorem copyElement_eq_some {segments : List Segment} (source target : List UInt8)
    (placed : Placed source.length target.length segments) :
    ∃ result, copyElement source target segments = some result ∧
      result.length = target.length ∧
      (∀ i j, Carries segments i j → result[j]? = source[i]?) ∧
      ∀ j, (∀ i, ¬Carries segments i j) → result[j]? = target[j]? := by
  induction segments generalizing target with
  | nil => exact ⟨target, rfl, rfl, fun i j carried => absurd carried (Segment.carries_nil i j),
      fun _ _ => rfl⟩
  | cons s rest ih =>
    obtain ⟨first, ordered⟩ := List.pairwise_cons.mp placed.ordered
    have ends := placed.within s (by simp)
    obtain ⟨middle, copied, middleLength, written, untouched⟩ :=
      copyBytes_eq_some source target s.host s.device s.length ends.1 ends.2
    obtain ⟨result, rest_copied, resultLength, carried, kept⟩ :=
      ih middle ⟨ordered, fun r member => middleLength ▸ placed.within r (by simp [member])⟩
    refine ⟨result, by simp only [copyElement, copied, rest_copied], by omega, ?_, ?_⟩
    · intro i j found
      rcases (Segment.carries_cons s rest i j).mp found with ⟨k, hk, rfl, rfl⟩ | found
      · rw [kept _ fun i => Segment.not_carries_of_before first hk, written k hk]
      · exact carried i j found
    · intro j none_found
      have outside : j < s.device ∨ s.device + s.length ≤ j :=
        Decidable.byContradiction fun inside =>
          none_found (s.host + (j - s.device)) ((Segment.carries_cons s rest _ j).mpr
            (.inl ⟨j - s.device, by omega, rfl, by omega⟩))
      rw [kept j fun i found => none_found i ((Segment.carries_cons s rest i j).mpr (.inr found)),
        untouched j outside]

/-- Whether each of `count` elements has the bytes of all segments, on both sides. -/
def Segment.Fit (segments : List Segment) (sourceStride targetStride count : Nat)
    (source target : List UInt8) : Prop :=
  ∀ e < count, ∀ s ∈ segments,
    e * sourceStride + s.host + s.length ≤ source.length ∧
      e * targetStride + s.device + s.length ≤ target.length

/-- What a copy of `count` elements does to the target, byte by byte. -/
structure Copied (segments : List Segment) (sourceStride targetStride count : Nat)
    (source target result : List UInt8) : Prop where
  length : result.length = target.length
  carried : ∀ e < count, ∀ i j, Carries segments i j →
    result[e * targetStride + j]? = source[e * sourceStride + i]?
  kept : ∀ e < count, ∀ j < targetStride, (∀ i, ¬Carries segments i j) →
    result[e * targetStride + j]? = target[e * targetStride + j]?
  beyond : ∀ k, count * targetStride ≤ k → result[k]? = target[k]?

theorem copyElements_done (segments : List Segment) (sourceStride targetStride count : Nat)
    (done source target : List UInt8) :
    copyElements segments sourceStride targetStride done source target count =
      (copyElements segments sourceStride targetStride [] source target count).map
        (done.reverse ++ ·) := by
  induction count generalizing done source target with
  | zero => simp [copyElements]
  | succ count ih =>
    simp only [copyElements]
    split
    · rfl
    · next t _ =>
      rw [ih (t.reverse ++ done), ih (t.reverse ++ []), Option.map_map]
      congr 1
      funext rest
      simp

section
variable {segments : List Segment} {sourceStride targetStride : Nat}

theorem fit_of_strides (placed : Placed sourceStride targetStride segments) {count : Nat}
    {source target : List UInt8} (readable : count * sourceStride ≤ source.length)
    (writable : count * targetStride ≤ target.length) :
    Segment.Fit segments sourceStride targetStride count source target := by
  intro e bound s member
  have ends := placed.within s member
  have sourceBound := Nat.mul_le_mul_right sourceStride bound
  have targetBound := Nat.mul_le_mul_right targetStride bound
  rw [Nat.succ_mul] at sourceBound targetBound
  unfold Segment.Within at ends
  omega

theorem fit_succ (placed : Placed sourceStride targetStride segments) {count : Nat}
    {source target : List UInt8}
    (fit : Segment.Fit segments sourceStride targetStride (count + 1) source target) :
    Placed (source.take sourceStride).length (target.take targetStride).length segments ∧
      Segment.Fit segments sourceStride targetStride count (source.drop sourceStride)
        (target.drop targetStride) := by
  refine ⟨⟨placed.ordered, fun s member => ?_⟩, fun e bound s member => ?_⟩
  · have ends := placed.within s member
    have first := fit 0 (Nat.succ_pos count) s member
    simp only [Segment.Within, List.length_take] at ends ⊢
    omega
  · have next := fit (e + 1) (Nat.succ_lt_succ bound) s member
    rw [Nat.succ_mul, Nat.succ_mul] at next
    simp only [List.length_drop]
    omega

theorem copyElements_copied (placed : Placed sourceStride targetStride segments) (count : Nat)
    (source target : List UInt8)
    (fit : Segment.Fit segments sourceStride targetStride count source target) :
    ∃ result, copyElements segments sourceStride targetStride [] source target count = some result ∧
      Copied segments sourceStride targetStride count source target result := by
  induction count generalizing source target with
  | zero => exact ⟨target, rfl, rfl, by simp, by simp, fun _ _ => rfl⟩
  | succ count ih =>
    obtain ⟨first, others⟩ := fit_succ placed fit
    obtain ⟨head, headCopied, headLength, headCarried, headKept⟩ := copyElement_eq_some
      (source.take sourceStride) (target.take targetStride) first
    obtain ⟨tail, tailCopied, tailSpec⟩ :=
      ih (source.drop sourceStride) (target.drop targetStride) others
    have tailLength := tailSpec.length
    rw [List.length_take] at headLength
    rw [List.length_drop] at tailLength
    -- The last element may be shorter than the stride, and then nothing comes after it.
    have inHead : ∀ j < targetStride, (head ++ tail)[j]? = head[j]? := by
      intro j bound
      rw [List.getElem?_append]
      split
      · rfl
      · rw [List.getElem?_eq_none, List.getElem?_eq_none] <;> omega
    have inTail : ∀ k, (head ++ tail)[targetStride + k]? = tail[k]? := by
      intro k
      rw [List.getElem?_append_right (by omega)]
      by_cases whole : head.length = targetStride
      · rw [whole, Nat.add_sub_cancel_left]
      · rw [List.getElem?_eq_none, List.getElem?_eq_none] <;> omega
    refine ⟨head ++ tail, ?_, ?_, ?_, ?_, ?_⟩
    · simp only [copyElements, headCopied]
      rw [copyElements_done, tailCopied]
      simp
    · rw [List.length_append]
      omega
    · rintro (_ | e) bound i j found
      · obtain ⟨hi, hj⟩ := placed.carries_bound found
        rw [Nat.zero_mul, Nat.zero_mul, Nat.zero_add, Nat.zero_add, inHead j hj,
          headCarried i j found, List.getElem?_take_of_lt hi]
      · rw [Nat.succ_mul, Nat.succ_mul, Nat.add_right_comm, Nat.add_comm _ targetStride, inTail,
          tailSpec.carried e (by omega) i j found, List.getElem?_drop, Nat.add_right_comm,
          Nat.add_comm _ sourceStride]
    · rintro (_ | e) bound j hj none_found
      · rw [Nat.zero_mul, Nat.zero_add, inHead j hj, headKept j none_found,
          List.getElem?_take_of_lt hj]
      · rw [Nat.succ_mul, Nat.add_right_comm, Nat.add_comm _ targetStride, inTail,
          tailSpec.kept e (by omega) j hj none_found, List.getElem?_drop]
    · intro k outside
      rw [Nat.succ_mul] at outside
      obtain ⟨k, rfl⟩ : ∃ l, k = targetStride + l := ⟨k - targetStride, by omega⟩
      rw [inTail, tailSpec.beyond k (by omega), List.getElem?_drop]

theorem copyAll_copied (placed : Placed sourceStride targetStride segments) (count : Nat)
    (source target : List UInt8)
    (fit : Segment.Fit segments sourceStride targetStride count source target) :
    ∃ result, copyAll segments sourceStride targetStride count source target = some result ∧
      Copied segments sourceStride targetStride count source target result := by
  unfold copyAll
  split
  · next empty =>
    obtain rfl := List.isEmpty_iff.mp empty
    exact ⟨target, rfl, rfl, fun _ _ i j found => absurd found (Segment.carries_nil i j),
      fun _ _ _ _ _ => rfl, fun _ _ => rfl⟩
  · exact copyElements_copied placed count source target fit

/-- A block is the copy by one segment that fills the whole stride. -/
theorem copyBytes_copied (stride count : Nat) (source target : List UInt8)
    (readable : count * stride ≤ source.length) (writable : count * stride ≤ target.length) :
    ∃ result, copyBytes source 0 target 0 (count * stride) = some result ∧
      Copied [⟨0, 0, stride⟩] stride stride count source target result := by
  obtain ⟨result, copied, length, written, untouched⟩ :=
    copyBytes_eq_some source target 0 0 (count * stride) (by omega) (by omega)
  have whole : ∀ {i j}, Carries [⟨0, 0, stride⟩] i j ↔ i = j ∧ j < stride := by
    intro i j
    simp only [Carries, List.mem_singleton, exists_eq_left, Nat.zero_add]
    grind
  refine ⟨result, copied, length, ?_, ?_, ?_⟩
  · intro e bound i j found
    obtain ⟨rfl, inside⟩ := whole.mp found
    have element : e * stride + stride ≤ count * stride := by
      rw [← Nat.succ_mul]
      exact Nat.mul_le_mul_right stride bound
    simpa using written (e * stride + i) (by omega)
  · intro e _ j inside none_found
    exact absurd (whole.mpr ⟨rfl, inside⟩) (none_found j)
  · intro k outside
    exact untouched k (.inr (by omega))

end

namespace Layout

theorem isContiguous_iff (l : Layout) : l.isContiguous = true ↔
    l.hostStride = l.deviceStride ∧ l.segments = [⟨0, 0, l.hostStride⟩] := by
  simp [isContiguous]

theorem of_contiguous (t : ElementType) (contiguous : (Layout.of t).isContiguous = true) :
    t.hostStride = t.deviceStride ∧ (Layout.of t).segments = [⟨0, 0, t.hostStride⟩] :=
  (isContiguous_iff _).mp contiguous

theorem of_hostSize {t : ElementType} {count : Nat} (counted : count * t.hostStride < UInt64.size) :
    (Layout.of t).hostSize count = count * t.hostStride :=
  wordSize_eq_iff.mpr counted

variable (t : ElementType) (count : Nat)

theorem hostToDevice_copied (counted : count * t.hostStride < UInt64.size)
    (host device : List UInt8) (readable : count * t.hostStride ≤ host.length)
    (writable : count * t.deviceStride ≤ device.length) :
    ∃ image, (Layout.of t).hostToDevice count host device = some image ∧
      Copied (Layout.of t).segments t.hostStride t.deviceStride count host device image := by
  unfold hostToDevice
  split
  · next contiguous =>
    obtain ⟨strides, segments⟩ := of_contiguous t contiguous
    rw [segments, ← strides, of_hostSize counted]
    exact copyBytes_copied t.hostStride count host device readable (strides ▸ writable)
  · exact copyAll_copied t.segments_placed count host device
      (fit_of_strides t.segments_placed readable writable)

theorem deviceToHost_copied (counted : count * t.hostStride < UInt64.size)
    (device host : List UInt8) (readable : count * t.deviceStride ≤ device.length)
    (writable : count * t.hostStride ≤ host.length) :
    ∃ result, (Layout.of t).deviceToHost count device host = some result ∧
      Copied ((Layout.of t).segments.map Segment.swap) t.deviceStride t.hostStride count
        device host result := by
  unfold deviceToHost
  split
  · next contiguous =>
    obtain ⟨strides, segments⟩ := of_contiguous t contiguous
    rw [segments, ← strides, of_hostSize counted]
    exact copyBytes_copied t.hostStride count device host (strides ▸ readable) writable
  · exact copyAll_copied t.segments_placed.swap count device host
      (fit_of_strides t.segments_placed.swap readable writable)

-- A block whose size wraps around is shorter than the elements, and so fits where they do.
theorem deviceToHost_completes (device host : List UInt8)
    (readable : count * t.deviceStride ≤ device.length)
    (writable : count * t.hostStride ≤ host.length) :
    ∃ result, (Layout.of t).deviceToHost count device host = some result ∧
      result.length = host.length := by
  unfold deviceToHost
  split
  · next contiguous =>
    have strides := (of_contiguous t contiguous).1
    have shorter : (Layout.of t).hostSize count ≤ count * t.hostStride := wordSize_le _ _
    rw [← strides] at readable
    obtain ⟨result, copied, length, -⟩ := copyBytes_eq_some device host 0 0
      ((Layout.of t).hostSize count) (by omega) (by omega)
    exact ⟨result, copied, length⟩
  · obtain ⟨result, copied, spec⟩ := copyAll_copied t.segments_placed.swap count device host
      (fit_of_strides t.segments_placed.swap readable writable)
    exact ⟨result, copied, spec.length⟩

/-- Through the device and back, the bytes of leaves are those of the first buffer, and all others
are those that the second one had. -/
theorem device_round_trip (host device back : Slice)
    (hostLong : count * t.hostStride ≤ host.bytes.length)
    (deviceLong : count * t.deviceStride ≤ device.bytes.length)
    (backLong : count * t.hostStride ≤ back.bytes.length) :
    ∃ image result, (Layout.of t).hostToDevice count host.bytes device.bytes = some image ∧
      (Layout.of t).deviceToHost count image back.bytes = some result ∧
      image.length = device.bytes.length ∧ result.length = back.bytes.length ∧
      (∀ e < count, ∀ i < t.hostStride,
        result[e * t.hostStride + i]? =
          if t.ownsByte i then host.bytes[e * t.hostStride + i]?
          else back.bytes[e * t.hostStride + i]?) ∧
      ∀ k, count * t.hostStride ≤ k → result[k]? = back.bytes[k]? := by
  have counted := Slice.counted hostLong
  obtain ⟨image, there, imageSpec⟩ :=
    hostToDevice_copied t count counted host.bytes device.bytes hostLong deviceLong
  obtain ⟨result, returned, resultSpec⟩ :=
    deviceToHost_copied t count counted image back.bytes (imageSpec.length ▸ deviceLong) backLong
  refine ⟨image, result, there, returned, imageSpec.length, resultSpec.length, ?_,
    resultSpec.beyond⟩
  intro e bound i inside
  split
  · next owned =>
    obtain ⟨j, found⟩ := (t.segments_carry i).mpr owned
    calc result[e * t.hostStride + i]?
      _ = image[e * t.deviceStride + j]? :=
        resultSpec.carried e bound j i ((Segment.carries_swap _ i j).mpr found)
      _ = host.bytes[e * t.hostStride + i]? := imageSpec.carried e bound i j found
  · next padding =>
    apply resultSpec.kept e bound i inside
    intro j found
    exact padding ((t.segments_carry i).mp ⟨j, (Segment.carries_swap _ i j).mp found⟩)

/-- A truth value, three bytes of padding, and a vector that starts a new row on the device. -/
def flagged : ElementType :=
  .record "Flagged" [("flag", .bool), ("place", .vector3)]

theorem device_round_trip_flagged :
    1 * flagged.hostStride ≤ (List.replicate 16 (1 : UInt8)).length ∧
    1 * flagged.deviceStride ≤ (List.replicate 32 (7 : UInt8)).length ∧
    1 * flagged.hostStride ≤ (List.replicate 18 (9 : UInt8)).length ∧
    ∃ image result,
      (Layout.of flagged).hostToDevice 1 (List.replicate 16 1) (List.replicate 32 7) = some image ∧
      (Layout.of flagged).deviceToHost 1 image (List.replicate 18 9) = some result ∧
      result[0]? = some 1 ∧ result[1]? = some 9 ∧ result[15]? = some 1 ∧ result[17]? = some 9 := by
  obtain ⟨image, result, there, returned, -, -, inside, beyond⟩ :=
    device_round_trip flagged 1 ⟨List.replicate 16 1, by decide⟩ ⟨List.replicate 32 7, by decide⟩
      ⟨List.replicate 18 9, by decide⟩ (by decide) (by decide) (by decide)
  exact ⟨by decide, by decide, by decide, image, result, there, returned,
    inside 0 (by decide) 0 (by decide), inside 0 (by decide) 1 (by decide),
    inside 0 (by decide) 15 (by decide), beyond 17 (by decide)⟩

end Layout
end ArrayQuery
