import ArrayQuery.Decimal.Fixed

/-! How long the steps of a query took. -/

set_option autoImplicit false
namespace ArrayQuery

structure Span where
  nanoseconds : Nat
  deriving DecidableEq, Repr

namespace Span

instance : Add Span := ⟨fun a b => ⟨a.nanoseconds + b.nanoseconds⟩⟩

/-- Whole seconds and the rest are turned into numbers apart, and then added. -/
def seconds (s : Span) : Double :=
  .ofNat (s.nanoseconds / 1000000000) + .ofNat (s.nanoseconds % 1000000000) / .ofNat 1000000000

def milliseconds (s : Span) : Double :=
  s.seconds * .ofNat 1000

def text (s : Span) : String :=
  Decimal.padLeft 10 (s.milliseconds.fixed 3) ++ " ms"

end Span

/-- The compile time covers the kernel and its checks, the setup allocation and recording, the
execution submission and waiting. -/
structure Profile where
  compile : Span
  setup : Span
  transferWrite : Span
  execution : Span
  transferRead : Span
  deriving DecidableEq, Repr

namespace Profile

def transfer (p : Profile) : Span :=
  p.transferWrite + p.transferRead

def total (p : Profile) : Span :=
  p.compile + p.setup + p.transfer + p.execution

def text (p : Profile) : String :=
  "\n".intercalate [
    "compile        " ++ p.compile.text,
    "setup          " ++ p.setup.text,
    "transfer write " ++ p.transferWrite.text,
    "execute        " ++ p.execution.text,
    "transfer read  " ++ p.transferRead.text,
    "total          " ++ p.total.text]

end Profile
end ArrayQuery
