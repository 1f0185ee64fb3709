/-! What a shader compiler has to say about the text of a kernel. -/

set_option autoImplicit false
namespace ArrayQuery

inductive Severity where
  | error
  | warning
  deriving DecidableEq, Repr

namespace Severity

def name : Severity → String
  | error => "Error"
  | warning => "Warning"

def word : Severity → String
  | error => "error"
  | warning => "warning"

end Severity

structure Label where
  start : Nat
  stop : Nat
  text : String
  deriving DecidableEq, Repr

/-- Holds a label within a text of the given length, and never ends it before its start. -/
def Label.clamp (length : Nat) (l : Label) : Label :=
  let stop := min l.stop length
  ⟨min l.start stop, stop, l.text⟩

structure Diagnostic where
  severity : Severity
  message : String
  labels : List Label := []
  notes : List String := []
  deriving DecidableEq, Repr

namespace Diagnostic

def error (message : String) : Diagnostic :=
  { severity := .error, message := message }

def warning (message : String) : Diagnostic :=
  { severity := .warning, message := message }

def withLabel (d : Diagnostic) (l : Label) : Diagnostic :=
  { d with labels := d.labels ++ [l] }

def withNote (d : Diagnostic) (note : String) : Diagnostic :=
  { d with notes := d.notes ++ [note] }

def headline (d : Diagnostic) : String :=
  d.severity.word ++ ": " ++ d.message

end Diagnostic
end ArrayQuery
