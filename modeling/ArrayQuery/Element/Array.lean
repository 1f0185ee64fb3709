import ArrayQuery.Element.Codec
import ArrayQuery.Error

/-! Arrays in host memory, and their identity where queries share them. -/

set_option autoImplicit false
namespace ArrayQuery

/-- A whole number of elements, in host layout. -/
structure HostArray where
  element : ElementType
  bytes : List UInt8
  stride_pos : 0 < element.hostStride
  whole : element.hostStride ∣ bytes.length
  deriving DecidableEq

namespace HostArray

def count (a : HostArray) : Nat :=
  a.bytes.length / a.element.hostStride

def ofBytes (element : ElementType) (bytes : List UInt8) : Except ComputeError HostArray :=
  if h : 0 < element.hostStride ∧ element.hostStride ∣ bytes.length then
    .ok ⟨element, bytes, h.1, h.2⟩
  else .error (.usage (.partialElements bytes.length element element.hostStride))

def ofList {α : Type} [Element α] (vs : List α) : HostArray :=
  ⟨Element.type α, Element.encodeAll vs, Element.stride_pos,
    ⟨vs.length, by rw [Element.length_encodeAll, Nat.mul_comm]⟩⟩

def elements (a : HostArray) (requested : ElementType) : Except ComputeError (List (List UInt8)) :=
  if requested = a.element then .ok (Binary.chunks requested.hostStride a.count a.bytes)
  else .error (.usage (.requestedElements a.element requested))

def toList (α : Type) [Element α] (a : HostArray) : Except ComputeError (List α) :=
  if Element.type α = a.element then .ok (Element.decodeAll α a.bytes)
  else .error (.usage (.requestedElements a.element (Element.type α)))

def spell (a : HostArray) : String :=
  "[" ++ a.element.name ++ "; " ++ toString a.count ++ "]"

end HostArray

/-- What tells apart things that are shared: two uses with one tag are uses of one thing. -/
abbrev Tag := Nat

/-- An array as queries share it: copies keep the tag, arrays made separately have their own. -/
structure SharedArray where
  tag : Tag
  data : HostArray
  deriving DecidableEq

def SharedArray.isSame (a b : SharedArray) : Bool :=
  a.tag == b.tag

end ArrayQuery
