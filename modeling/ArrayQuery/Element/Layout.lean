import ArrayQuery.Element.Extent

/-! Where the bytes of an element lie on the host and on the device, and the copies between them. -/

set_option autoImplicit false
namespace ArrayQuery

/-- `length` bytes that are adjacent on both sides. -/
structure Segment where
  host : Nat
  device : Nat
  length : Nat
  deriving DecidableEq, Repr

namespace ElementType

mutual
def leafSegments (host device : Nat) : ElementType → List Segment
  | .leaf l => [⟨host, device, (l.extent .host).size⟩]
  | .record _ fields => fieldSegments host device ⟨0, 1⟩ ⟨0, 1⟩ fields

/-- The leaves of the fields of a record that starts at the given offsets; `atHost` and `atDevice`
are the extents of the fields before. -/
def fieldSegments (host device : Nat) (atHost atDevice : Extent) :
    List (String × ElementType) → List Segment
  | [] => []
  | (_, t) :: rest =>
    let h := t.extent .host
    let d := t.extent .device
    leafSegments (host + alignUp atHost.size h.align) (device + alignUp atDevice.size d.align) t ++
      fieldSegments host device (atHost.push h) (atDevice.push d) rest
end

end ElementType

/-- Joins a segment with those after it as long as they continue it on both sides. -/
def Segment.mergeFrom (last : Segment) : List Segment → List Segment
  | [] => [last]
  | s :: rest =>
    if last.host + last.length = s.host ∧ last.device + last.length = s.device then
      mergeFrom ⟨last.host, last.device, last.length + s.length⟩ rest
    else last :: mergeFrom s rest

def Segment.merge : List Segment → List Segment
  | [] => []
  | s :: rest => mergeFrom s rest

def Segment.swap (s : Segment) : Segment :=
  ⟨s.device, s.host, s.length⟩

structure Layout where
  hostStride : Nat
  deviceStride : Nat
  segments : List Segment
  deriving DecidableEq, Repr

def copyBytes (source : List UInt8) (start : Nat) (target : List UInt8) (goal length : Nat) :
    Option (List UInt8) :=
  if start + length ≤ source.length ∧ goal + length ≤ target.length then
    some (target.take goal ++ (source.drop start).take length ++ target.drop (goal + length))
  else none

def copyElement (source target : List UInt8) : List Segment → Option (List UInt8)
  | [] => some target
  | s :: rest =>
    match copyBytes source s.host target s.device s.length with
    | none => none
    | some t => copyElement source t rest

/-- Copies `count` elements, host to device, each within the bytes of a stride that it has on either
side. `done` holds the bytes of the elements before them, the last byte first. -/
def copyElements (segments : List Segment) (sourceStride targetStride : Nat)
    (done source target : List UInt8) : Nat → Option (List UInt8)
  | 0 => some (done.reverse ++ target)
  | count + 1 =>
    match copyElement (source.take sourceStride) (target.take targetStride) segments with
    | none => none
    | some t => copyElements segments sourceStride targetStride (t.reverse ++ done)
        (source.drop sourceStride) (target.drop targetStride) count

/-- Copies `count` elements, host to device; without segments nothing is copied. -/
def copyAll (segments : List Segment) (sourceStride targetStride count : Nat)
    (source target : List UInt8) : Option (List UInt8) :=
  if segments.isEmpty then some target
  else copyElements segments sourceStride targetStride [] source target count

/-- The size of `count` elements in 64 bits, which wraps around where they cannot count it. -/
def wordSize (count stride : Nat) : Nat :=
  (UInt64.ofNat count * UInt64.ofNat stride).toNat

theorem wordSize_eq (count stride : Nat) : wordSize count stride = count * stride % UInt64.size := by
  rw [wordSize, UInt64.toNat_mul, UInt64.toNat_ofNat', UInt64.toNat_ofNat', ← Nat.mul_mod]

theorem wordSize_le (count stride : Nat) : wordSize count stride ≤ count * stride := by
  rw [wordSize_eq]
  exact Nat.mod_le _ _

theorem wordSize_eq_iff {count stride : Nat} :
    wordSize count stride = count * stride ↔ count * stride < UInt64.size := by
  rw [wordSize_eq, Nat.mod_eq_iff_lt (by decide)]

namespace Layout

def of (t : ElementType) : Layout :=
  ⟨t.hostStride, t.deviceStride, Segment.merge (t.leafSegments 0 0)⟩

/-- Whether a whole array can move as one block. -/
def isContiguous (l : Layout) : Bool :=
  l.hostStride == l.deviceStride && l.segments == [⟨0, 0, l.hostStride⟩]

def hostSize (l : Layout) (count : Nat) : Nat := wordSize count l.hostStride
def deviceSize (l : Layout) (count : Nat) : Nat := wordSize count l.deviceStride

/-- The device image after `count` elements of the host have been written to it; there is none
where one of the sides is too short. -/
def hostToDevice (l : Layout) (count : Nat) (host device : List UInt8) : Option (List UInt8) :=
  if l.isContiguous then copyBytes host 0 device 0 (l.hostSize count)
  else copyAll l.segments l.hostStride l.deviceStride count host device

def deviceToHost (l : Layout) (count : Nat) (device host : List UInt8) : Option (List UInt8) :=
  if l.isContiguous then copyBytes device 0 host 0 (l.hostSize count)
  else copyAll (l.segments.map Segment.swap) l.deviceStride l.hostStride count device host

end Layout
end ArrayQuery
