/-! The stages an execution goes through. -/

set_option autoImplicit false
namespace ArrayQuery

inductive Stage where
  | created
  | configured
  | inputReady
  | executed
  | complete
  | disposed
  deriving DecidableEq, Repr

def Stage.name : Stage → String
  | created => "Created"
  | configured => "Configured"
  | inputReady => "InputReady"
  | executed => "Executed"
  | complete => "Complete"
  | disposed => "Disposed"

end ArrayQuery
