import ArrayQuery.Error
import ArrayQuery.Kernel.Identifier
import Std.Data.HashSet

/-! The struct names of the record types in one kernel. -/

set_option autoImplicit false
namespace ArrayQuery.Kernel

/-- The record types that have a name, in the order in which they got it. Records count as one when
name and fields agree. -/
structure RecordNames where
  assigned : List (RecordType × String) := []
  deriving DecidableEq, Repr

namespace RecordNames

def get? (names : RecordNames) (r : RecordType) : Option String :=
  names.assigned.lookup r

def taken (names : RecordNames) : List String :=
  names.assigned.map Prod.snd

def candidate (base : String) (n : Nat) : String :=
  if n = 0 then base else base ++ "_" ++ toString n

/-- The first candidate that is not taken. Among one more candidates than there are names, one is
free. -/
def freeName (names : RecordNames) (base : String) : String :=
  let taken := Std.HashSet.ofList names.taken
  let n := (List.range (names.taken.length + 1)).find? fun n => !taken.contains (candidate base n)
  candidate base (n.getD 0)

/-- The name of a record, which is a new one on first use. -/
def assign (names : RecordNames) (r : RecordType) : String × RecordNames :=
  match names.get? r with
  | some name => (name, names)
  | none =>
    let name := names.freeName (identifier r.name)
    (name, ⟨names.assigned ++ [(r, name)]⟩)

def require (names : RecordNames) (r : RecordType) : Except ComputeError String :=
  match names.get? r with
  | some name => .ok name
  | none => .error (.unsupportedAt (.undeclaredRecord r.name) r.spell)

end RecordNames
end ArrayQuery.Kernel
