import ArrayQuery.Element.Array
import Mathlib.Algebra.Group.Nat.Defs

/-! Elements in host memory. Values are read back from their bytes as they were, bit by bit, and bytes that
are a whole number of elements are written back as they were, but for the truth values, which are any byte
and are written as zero or one. -/

set_option autoImplicit false
namespace ArrayQuery

namespace Binary

theorem ofBytes_toBytes (n k : Nat) : ofBytes (toBytes n k) = n % 256 ^ k := by
  induction k generalizing n with
  | zero => rw [Nat.pow_zero, Nat.mod_one]; rfl
  | succ k ih =>
    have low : (UInt8.ofNat n).toNat = n % 256 := UInt8.toNat_ofNat'
    rw [toBytes, ofBytes, ih, low, Nat.pow_succ', Nat.mod_mul]

theorem toBytes_ofBytes (bytes : List UInt8) : toBytes (ofBytes bytes) bytes.length = bytes := by
  induction bytes with
  | nil => rfl
  | cons b bytes ih =>
    have below := b.toNat_lt
    have first : UInt8.ofNat (b.toNat + 256 * ofBytes bytes) = b := by
      apply UInt8.toNat_inj.mp
      rw [UInt8.toNat_ofNat']
      omega
    have others : (b.toNat + 256 * ofBytes bytes) / 256 = ofBytes bytes := by omega
    rw [List.length_cons, ofBytes, toBytes, first, others, ih]

theorem ofBytes_lt (bytes : List UInt8) : ofBytes bytes < 256 ^ bytes.length := by
  induction bytes with
  | nil => exact Nat.one_pos
  | cons b bytes ih =>
    have below := b.toNat_lt
    rw [ofBytes, List.length_cons, Nat.pow_succ]
    omega

theorem flatten_chunks (n k : Nat) (bytes : List UInt8) :
    (chunks n k bytes).flatten = bytes.take (n * k) := by
  induction k generalizing bytes with
  | zero => rw [Nat.mul_zero, List.take_zero]; rfl
  | succ k ih => rw [chunks, List.flatten_cons, ih, Nat.mul_succ, Nat.add_comm, List.take_add]

theorem length_of_mem_chunks {n k : Nat} {bytes piece : List UInt8} (enough : n * k ≤ bytes.length)
    (member : piece ∈ chunks n k bytes) : piece.length = n := by
  induction k generalizing bytes with
  | zero => exact nomatch member
  | succ k ih =>
    rw [Nat.mul_succ] at enough
    rcases List.mem_cons.mp member with rfl | later
    · rw [List.length_take]
      omega
    · exact ih (by rw [List.length_drop]; omega) later

end Binary

/-- The byte that is written for one that has been read: of a truth value every byte but zero is true. -/
def Leaf.canonical : Leaf → UInt8 → UInt8
  | .bool, b => if b = 0 then 0 else 1
  | _, b => b

namespace Element

/-- Values of a type and the bytes of one element stand for each other: values are read back as they were,
and bytes are written back, each in its canonical form. -/
structure Mirrors (α : Type) [Element α] (canonical : UInt8 → UInt8) : Prop where
  decode_encode : ∀ v : α, decode (encode v) = v
  encode_decode : ∀ bytes : List UInt8, bytes.length = (type α).hostStride →
    encode (decode bytes : α) = bytes.map canonical

theorem mirrors_bool : Mirrors Bool (Leaf.canonical .bool) where
  decode_encode b := by cases b <;> rfl
  encode_decode bytes one := by
    obtain ⟨b, rfl⟩ := List.length_eq_one_iff.mp one
    by_cases zero : b = 0 <;> simp [encode, decode, Leaf.canonical, zero]

section

variable {α : Type} [Element α]

theorem mirrors_bits (bits : α → Nat) (ofBits : Nat → α)
    (encodes : ∀ v : α, encode v = Binary.toBytes (bits v) (type α).hostStride)
    (decodes : ∀ bytes, (decode bytes : α) = ofBits (Binary.ofBytes bytes))
    (below : ∀ v, bits v < 256 ^ (type α).hostStride) (read : ∀ v, ofBits (bits v) = v)
    (written : ∀ n < 256 ^ (type α).hostStride, bits (ofBits n) = n) : Mirrors α id where
  decode_encode v := by
    rw [encodes, decodes, Binary.ofBytes_toBytes, Nat.mod_eq_of_lt (below v), read]
  encode_decode bytes length := by
    have bound := Binary.ofBytes_lt bytes
    have back := Binary.toBytes_ofBytes bytes
    rw [length] at bound back
    rw [encodes, decodes, written _ bound, back, List.map_id]

theorem mirrors_single : Mirrors Single id :=
  mirrors_bits (fun x => x.bits.toNat) (fun n => ⟨UInt32.ofNat n⟩) (fun _ => rfl) (fun _ => rfl)
    (fun x => x.bits.toNat_lt) (fun _ => congrArg Single.mk UInt32.ofNat_toNat)
    fun _ below => UInt32.toNat_ofNat_of_lt' below

theorem at_packed (xs : List Single) (i : Nat) (bound : i < xs.length) :
    Single.at (packed xs) i = xs[i] := by
  induction xs generalizing i with
  | nil => exact absurd bound (Nat.not_lt_zero i)
  | cons x xs ih =>
    have four : x.bytes.length = 4 := Binary.length_toBytes _ _
    have parts : packed (x :: xs) = x.bytes ++ packed xs := List.flatMap_cons
    rw [parts, Single.at]
    cases i with
    | zero =>
      rw [Nat.mul_zero, List.drop_zero, List.take_left' four]
      exact mirrors_single.decode_encode x
    | succ i =>
      have beyond : 4 * (i + 1) = x.bytes.length + 4 * i := by rw [four]; omega
      rw [beyond, List.drop_length_add_append]
      exact ih i (Nat.lt_of_succ_lt_succ bound)

theorem packed_at {n : Nat} {bytes : List UInt8} (length : bytes.length = 4 * n) :
    packed ((List.range n).map (Single.at bytes)) = bytes := by
  induction n generalizing bytes with
  | zero => exact (List.eq_nil_of_length_eq_zero length).symm
  | succ n ih =>
    have later (i : Nat) : Single.at bytes (i + 1) = Single.at (bytes.drop 4) i := by
      rw [Single.at, Single.at, List.drop_drop, Nat.mul_succ, Nat.add_comm]
    have first : (Single.at bytes 0).bytes = bytes.take 4 := by
      have four : (bytes.take 4).length = 4 := by rw [List.length_take]; omega
      exact (mirrors_single.encode_decode _ four).trans (List.map_id _)
    have others : packed ((List.range n).map fun i => Single.at bytes (i + 1)) = bytes.drop 4 := by
      simp only [later]
      exact ih (by rw [List.length_drop]; omega)
    rw [List.range_succ_eq_map, List.map_cons, List.map_map]
    calc packed (Single.at bytes 0 :: (List.range n).map fun i => Single.at bytes (i + 1))
        = (Single.at bytes 0).bytes ++ packed ((List.range n).map fun i => Single.at bytes (i + 1)) :=
          List.flatMap_cons
      _ = bytes.take 4 ++ bytes.drop 4 := by rw [first, others]
      _ = bytes := List.take_append_drop 4 bytes

theorem mirrors_packed {n : Nat} {parts : α → List Single} (stride : (type α).hostStride = 4 * n)
    (encodes : ∀ v : α, encode v = packed (parts v))
    (decodes : ∀ bytes, parts (decode bytes) = (List.range n).map (Single.at bytes))
    (counted : ∀ v : α, (parts v).length = n) (determined : ∀ v w : α, parts v = parts w → v = w) :
    Mirrors α id where
  decode_encode v := by
    refine determined _ _ ?_
    rw [decodes, encodes]
    refine List.ext_getElem (by simp [counted]) fun i bound bound' => ?_
    rw [List.getElem_map, List.getElem_range, at_packed _ _ bound']
  encode_decode bytes length := by
    rw [encodes, decodes, packed_at (length.trans stride), List.map_id]

end

theorem mirrors_host : ∀ l : Leaf, Mirrors l.Host l.canonical
  | .bool => mirrors_bool
  | .i32 => mirrors_bits (fun n : Int32 => n.toUInt32.toNat) (fun n => (UInt32.ofNat n).toInt32)
      (fun _ => rfl) (fun _ => rfl) (fun n => n.toUInt32.toNat_lt) (fun n => by simp)
      fun _ below => UInt32.toNat_ofNat_of_lt' below
  | .u32 => mirrors_bits UInt32.toNat UInt32.ofNat (fun _ => rfl) (fun _ => rfl)
      (fun n => n.toNat_lt) (fun _ => UInt32.ofNat_toNat) fun _ below => UInt32.toNat_ofNat_of_lt' below
  | .f32 => mirrors_single
  | .f64 => mirrors_bits (fun x : Double => x.bits.toNat) (fun n => ⟨UInt64.ofNat n⟩)
      (fun _ => rfl) (fun _ => rfl) (fun x => x.bits.toNat_lt)
      (fun _ => congrArg Double.mk UInt64.ofNat_toNat) fun _ below => UInt64.toNat_ofNat_of_lt' below
  | .vector2 => mirrors_packed (n := 2) rfl (fun _ => rfl) (fun _ => rfl) (fun _ => rfl)
      fun ⟨_, _⟩ ⟨_, _⟩ same => by simpa [Vector2.toList] using same
  | .vector3 => mirrors_packed (n := 3) rfl (fun _ => rfl) (fun _ => rfl) (fun _ => rfl)
      fun ⟨_, _, _⟩ ⟨_, _, _⟩ same => by simpa [Vector3.toList] using same
  | .vector4 => mirrors_packed (n := 4) rfl (fun _ => rfl) (fun _ => rfl) (fun _ => rfl)
      fun ⟨_, _, _, _⟩ ⟨_, _, _, _⟩ same => by simpa [Vector4.toList] using same
  | .matrix4x4 => mirrors_packed (n := 16) rfl (fun _ => rfl) (fun _ => rfl) (fun _ => rfl)
      fun ⟨⟨_, _, _, _⟩, ⟨_, _, _, _⟩, ⟨_, _, _, _⟩, ⟨_, _, _, _⟩⟩
        ⟨⟨_, _, _, _⟩, ⟨_, _, _, _⟩, ⟨_, _, _, _⟩, ⟨_, _, _, _⟩⟩ same => by
        simpa [Matrix4x4.toList, Matrix4x4.rows, Vector4.toList, and_assoc] using same
  | .matrix3x2 => mirrors_packed (n := 6) rfl (fun _ => rfl) (fun _ => rfl) (fun _ => rfl)
      fun ⟨⟨_, _⟩, ⟨_, _⟩, ⟨_, _⟩⟩ ⟨⟨_, _⟩, ⟨_, _⟩, ⟨_, _⟩⟩ same => by
        simpa [Matrix3x2.toList, Matrix3x2.rows, Vector2.toList, and_assoc] using same

/-! ## Many elements -/

section

variable {α : Type} [Element α] {canonical : UInt8 → UInt8}

theorem encodeAll_append (vs ws : List α) : encodeAll (vs ++ ws) = encodeAll vs ++ encodeAll ws :=
  List.flatMap_append

theorem Mirrors.decodeAll_encodeAll (mirrors : Mirrors α canonical) (vs : List α) (rest : List UInt8)
    (less : rest.length < (type α).hostStride) : decodeAll α (encodeAll vs ++ rest) = vs := by
  have count : (encodeAll vs ++ rest).length / (type α).hostStride = vs.length := by
    rw [List.length_append, length_encodeAll, Nat.mul_comm, Nat.mul_add_div stride_pos,
      Nat.div_eq_of_lt less, Nat.add_zero]
  rw [decodeAll, count]
  clear count
  induction vs with
  | nil => rfl
  | cons v vs ih =>
    have parts : encodeAll (v :: vs) ++ rest = encode v ++ (encodeAll vs ++ rest) := by
      rw [encodeAll, List.flatMap_cons, List.append_assoc]
      rfl
    rw [parts, List.length_cons, Binary.chunks, ← encode_length v, List.take_left, List.drop_left,
      encode_length v, List.map_cons, mirrors.decode_encode, ih]

theorem Mirrors.encodeAll_decodeAll (mirrors : Mirrors α canonical) {bytes : List UInt8}
    (whole : (type α).hostStride ∣ bytes.length) :
    encodeAll (decodeAll α bytes) = bytes.map canonical := by
  have count := Nat.mul_div_cancel' whole
  rw [decodeAll, encodeAll, List.flatMap_map, List.flatMap_def]
  generalize bytes.length / (type α).hostStride = k at count
  have each : ∀ piece ∈ Binary.chunks (type α).hostStride k bytes,
      encode (decode piece : α) = piece.map canonical := fun piece member =>
    mirrors.encode_decode piece (Binary.length_of_mem_chunks (Nat.le_of_eq count) member)
  rw [List.map_congr_left each, ← List.map_flatten, Binary.flatten_chunks, count, List.take_length]

end

end Element

namespace HostArray

theorem ofBytes_accepts {t : ElementType} {bytes : List UInt8} :
    (∃ a, ofBytes t bytes = .ok a) ↔ 0 < t.hostStride ∧ t.hostStride ∣ bytes.length := by
  unfold ofBytes
  split
  · next fits => exact iff_of_true ⟨_, rfl⟩ fits
  · next other => exact iff_of_false (fun ⟨_, made⟩ => nomatch made) other

theorem ofBytes_ok {t : ElementType} {bytes : List UInt8} {a : HostArray}
    (made : ofBytes t bytes = .ok a) : a.element = t ∧ a.bytes = bytes := by
  unfold ofBytes at made
  split at made
  · obtain rfl := Except.ok.inj made
    exact ⟨rfl, rfl⟩
  · exact nomatch made

theorem count_mul_stride (a : HostArray) : a.count * a.element.hostStride = a.bytes.length :=
  Nat.div_mul_cancel a.whole

theorem length_decodeAll {α : Type} [Element α] {a : HostArray} (same : Element.type α = a.element) :
    (Element.decodeAll α a.bytes).length = a.count := by
  rw [Element.decodeAll, List.length_map, Binary.length_chunks, same, count]

theorem toList_leaf {a : HostArray} {l : Leaf} (held : a.element = .leaf l) :
    ∃ vs, a.toList l.Host = .ok vs ∧ vs.length = a.count ∧ Element.encodeAll vs = a.bytes.map l.canonical := by
  have same : Element.type l.Host = a.element := (Element.type_host l).trans held.symm
  exact ⟨Element.decodeAll l.Host a.bytes, if_pos same, length_decodeAll same,
    (Element.mirrors_host l).encodeAll_decodeAll (same ▸ a.whole)⟩

theorem toList_ofList {l : Leaf} (vs : List l.Host) : (ofList vs).toList l.Host = .ok vs := by
  have read := (Element.mirrors_host l).decodeAll_encodeAll vs [] Element.stride_pos
  rw [List.append_nil] at read
  exact (if_pos rfl).trans (congrArg Except.ok read)

/-- Values of a leaf type are read back from their bytes as they were, whatever less than one element
stands behind them, and from an array that holds them; the bytes of two lists are those of one and then
those of the other, and each value takes as many as the stride says. Bytes are taken for an array of any
type exactly if its stride is positive and divides their number; the array has as many elements as that
makes, and where they are leaves they are values that have the same bytes, but that a truth value is
written as zero or one. -/
theorem elements_mirrored :
    (∀ (l : Leaf) (vs ws : List l.Host),
      (∀ rest : List UInt8, rest.length < (ElementType.leaf l).hostStride →
        Element.decodeAll l.Host (Element.encodeAll vs ++ rest) = vs) ∧
      Element.encodeAll (vs ++ ws) = Element.encodeAll vs ++ Element.encodeAll ws ∧
      (Element.encodeAll vs).length = vs.length * (ElementType.leaf l).hostStride ∧
      (ofList vs).count = vs.length ∧ (ofList vs).toList l.Host = .ok vs) ∧
    ∀ (t : ElementType) (bytes : List UInt8),
      ((∃ a, ofBytes t bytes = .ok a) ↔ 0 < t.hostStride ∧ t.hostStride ∣ bytes.length) ∧
      ∀ a, ofBytes t bytes = .ok a → a.count * t.hostStride = bytes.length ∧
        ∀ l, t = .leaf l → ∃ vs, a.toList l.Host = .ok vs ∧ vs.length = a.count ∧
          Element.encodeAll vs = bytes.map l.canonical := by
  refine ⟨fun l vs ws => ?_, fun t bytes => ⟨ofBytes_accepts, fun a made => ?_⟩⟩
  · have stride : (ElementType.leaf l).hostStride = (Element.type l.Host).hostStride := by
      rw [Element.type_host]
    have length := Element.length_encodeAll vs
    rw [← stride] at length
    refine ⟨fun rest less => ?_, Element.encodeAll_append vs ws, length, ?_, toList_ofList vs⟩
    · exact (Element.mirrors_host l).decodeAll_encodeAll vs rest (stride ▸ less)
    · exact Nat.div_eq_of_eq_mul_left Element.stride_pos (Element.length_encodeAll vs)
  · obtain ⟨rfl, rfl⟩ := ofBytes_ok made
    exact ⟨a.count_mul_stride, fun l leaf => toList_leaf leaf⟩

/-- Three truth values, of which one is written differently, and a vector with part of another. -/
theorem elements_mirrored_flags :
    (∃ a, ofBytes .bool [0, 7, 1] = .ok a ∧ ∃ vs : List Bool, a.toList Bool = .ok vs ∧ vs.length = a.count ∧
      Element.encodeAll vs = [0, 1, 1]) ∧
    Element.decodeAll (Vector2 Single) (Element.encodeAll [(⟨.one, .nan⟩ : Vector2 Single)] ++ [1, 2, 3]) =
      [⟨.one, .nan⟩] := by
  obtain ⟨values, bytes⟩ := elements_mirrored
  obtain ⟨accepts, holds⟩ := bytes .bool [0, 7, 1]
  obtain ⟨a, made⟩ := accepts.mpr (by decide)
  exact ⟨⟨a, made, (holds a made).2 .bool rfl⟩, (values .vector2 [⟨.one, .nan⟩] []).1 [1, 2, 3] (by decide)⟩

end HostArray
end ArrayQuery
