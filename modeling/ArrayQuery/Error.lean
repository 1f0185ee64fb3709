import ArrayQuery.Device.Stage
import ArrayQuery.Element.Type
import ArrayQuery.Text.Cut

/-! Why a query cannot be compiled or run, and how that is worded. -/

set_option autoImplicit false
namespace ArrayQuery

inductive Unsupported where
  | sourceKind (kind : String)
  | nestedQuery
  | wholeArray
  | onlyCapturedIndexed
  | outOfScope (parameter : String)
  | noOperator (left : ElementType) (symbol : String) (right : ElementType)
  | noNegation (type : ElementType)
  | notNumeric (target : ElementType)
  | noMember (container : ElementType) (member : String)
  | fieldCount (record : String) (fields values : Nat)
  | argumentCount (function : String) (arity given : Nat)
  | doublePrecision
  | nonFinite
  | undeclaredRecord (record : String)
  | booleanField (field record : String)
  | booleanLiteralField (field : String)
  | literalFieldCount (values fields : Nat)
  | other (text : String)
  deriving DecidableEq, Repr

inductive Misuse where
  | noQuery (kind : String)
  | selectorParameters (kind : String) (taken expected : Nat)
  | sourceLengths (first second : Nat)
  | queryElements (held expected : ElementType)
  | requestedElements (held requested : ElementType)
  | resultElements (produced requested : ElementType)
  | partialElements (bytes : Nat) (type : ElementType) (stride : Nat)
  | wrongStage (step : String) (required current : Stage)
  | outputTaken
  | unallocatedBuffer (slot : Nat)
  | noHostData (slot : Nat)
  | commandsSubmitted
  | bindGroupLayoutMissing
  | pipelineMissing
  | other (text : String)
  deriving DecidableEq, Repr

inductive DeviceError where
  | noSuitableDevice
  | deviceRequest (reason : String)
  | noSuitableMemoryType
  | allocationTooLarge (requested limit : Nat)
  | outOfDeviceMemory (reason : String)
  | tooManyBindings (requested limit : Nat)
  | dispatchTooLarge (workgroups limit : Nat)
  | mapFailed (reason : String)
  | queuePoolClosed
  deriving DecidableEq, Repr

/-- What stands in a configuration document where something else was expected. -/
inductive Found where
  | integer (n : Int)
  | float (text : String)
  | boolean (b : Bool)
  | string (s : String)
  | sequence
  | map
  deriving DecidableEq, Repr

inductive ConfigError where
  | syntaxError
  | unknownField (field : String) (known : List String)
  | invalidType (found : Found) (expected : String)
  | integerRange (n : Int) (expected : String)
  | unknownVariant (variant : String) (known : List String)
  | notAVariant
  | emptyVariant
  | severalVariants
  | variantContent (text : String)
  | workgroupSize (greatest given : Nat)
  | noQueueSlots
  | noMemoryPreference
  | unreadable (path reason : String)
  | inFile (path : String) (cause : ConfigError)
  | other (text : String)
  deriving DecidableEq, Repr

/-- The `node` of an unsupported expression is its written form, abbreviated. -/
inductive ComputeError where
  | unsupported (cause : Unsupported) (node : String)
  | shaderCompile (message diagnostic : String)
  | device (cause : DeviceError)
  | usage (cause : Misuse)
  | config (cause : ConfigError)
  deriving DecidableEq, Repr

namespace Unsupported

def message : Unsupported → String
  | sourceKind kind => "a " ++ kind ++ " node cannot feed a query operator"
  | nestedQuery => "query operators cannot be nested inside a lambda body"
  | wholeArray => "a whole array cannot be used as a value"
  | onlyCapturedIndexed => "only captured host arrays can be indexed"
  | outOfScope p => "parameter '" ++ p ++ "' is not in scope"
  | noOperator l symbol r => "no kernel operator for " ++ l.name ++ " " ++ symbol ++ " " ++ r.name
  | noNegation t => t.name ++ " values cannot be negated"
  | notNumeric t => "conversion to " ++ t.name ++ " is not a numeric conversion"
  | noMember t member => t.name ++ " has no member '" ++ member ++ "'"
  | fieldCount record fields values =>
    "'" ++ record ++ "' has " ++ toString fields ++ " fields, constructed with " ++
      toString values ++ " values"
  | argumentCount function arity given =>
    function ++ " takes " ++ toString arity ++ " arguments, called with " ++ toString given
  | doublePrecision => "double precision values have no kernel representation"
  | nonFinite => "non-finite float literals have no kernel spelling"
  | undeclaredRecord record => "record '" ++ record ++ "' is used before it is declared"
  | booleanField field record =>
    "boolean field '" ++ field ++ "' of '" ++ record ++ "' has no storage layout"
  | booleanLiteralField field => "boolean field '" ++ field ++ "' cannot live in a record"
  | literalFieldCount values fields =>
    "record literal has " ++ toString values ++ " values for " ++ toString fields ++ " fields"
  | other text => text

end Unsupported

namespace Misuse

def message : Misuse → String
  | noQuery kind => "compute queries must end in select or zip, found " ++ kind
  | selectorParameters kind taken expected =>
    kind ++ " selector takes " ++ toString taken ++ " parameters, expected " ++ toString expected
  | sourceLengths first second =>
    "source arrays differ in length: " ++ toString first ++ " and " ++ toString second
  | queryElements held expected =>
    "array holds " ++ held.name ++ " elements, query expects " ++ expected.name
  | requestedElements held requested =>
    "array holds " ++ held.name ++ " elements, requested " ++ requested.name
  | resultElements produced requested =>
    "query produces " ++ produced.name ++ " elements, requested " ++ requested.name
  | partialElements bytes type stride =>
    toString bytes ++ " bytes is not a whole number of " ++ type.name ++ " elements (" ++
      toString stride ++ " bytes each)"
  | wrongStage step required current =>
    step ++ " requires state " ++ required.name ++ ", engine is " ++ current.name
  | outputTaken => "output already taken"
  | unallocatedBuffer slot => "buffer " ++ toString slot ++ " used before initialization"
  | noHostData slot => "buffer " ++ toString slot ++ " has no host data"
  | commandsSubmitted => "command buffer already submitted"
  | bindGroupLayoutMissing => "bind group layout missing"
  | pipelineMissing => "pipeline missing"
  | other text => text

end Misuse

namespace DeviceError

def message : DeviceError → String
  | noSuitableDevice => "no suitable physical device found"
  | deviceRequest reason => "logical device request failed: " ++ reason
  | noSuitableMemoryType => "no suitable memory type found for storage buffer"
  | allocationTooLarge requested limit =>
    "allocation of " ++ toString requested ++ " bytes exceeds the device limit of " ++
      toString limit ++ " bytes"
  | outOfDeviceMemory reason => "out of device memory: " ++ reason
  | tooManyBindings requested limit =>
    "kernel binds " ++ toString requested ++ " storage buffers, the device allows " ++
      toString limit
  | dispatchTooLarge workgroups limit =>
    "dispatch of " ++ toString workgroups ++ " workgroups exceeds the device limit of " ++
      toString limit
  | mapFailed reason => "buffer mapping failed: " ++ reason
  | queuePoolClosed => "device queue pool is closed"

def kind : DeviceError → String
  | noSuitableDevice => "NoSuitableDevice"
  | deviceRequest _ => "DeviceRequest"
  | noSuitableMemoryType => "NoSuitableMemoryType"
  | allocationTooLarge .. => "AllocationTooLarge"
  | outOfDeviceMemory _ => "OutOfDeviceMemory"
  | tooManyBindings .. => "TooManyBindings"
  | dispatchTooLarge .. => "DispatchTooLarge"
  | mapFailed _ => "MapFailed"
  | queuePoolClosed => "QueuePoolClosed"

def spell (e : DeviceError) : String :=
  match e with
  | deviceRequest reason | outOfDeviceMemory reason | mapFailed reason =>
    Text.applied e.kind [Text.quoted reason]
  | allocationTooLarge requested limit | tooManyBindings requested limit =>
    Text.labelled e.kind [("requested", toString requested), ("limit", toString limit)]
  | dispatchTooLarge workgroups limit =>
    Text.labelled e.kind [("workgroups", toString workgroups), ("limit", toString limit)]
  | noSuitableDevice | noSuitableMemoryType | queuePoolClosed => e.kind

end DeviceError

def Found.message : Found → String
  | integer n => "integer `" ++ toString n ++ "`"
  | float text => "floating point `" ++ text ++ "`"
  | boolean b => "boolean `" ++ (if b then "true" else "false") ++ "`"
  | string s => "string " ++ Text.quoted s
  | sequence => "sequence"
  | map => "map"

namespace ConfigError

def alternatives (names : List String) : String :=
  let ticked := names.map fun n => "`" ++ n ++ "`"
  match ticked with
  | [a, b] => a ++ " or " ++ b
  | _ => "one of " ++ ", ".intercalate ticked

def message : ConfigError → String
  | syntaxError => "not a TOML document"
  | unknownField field known =>
    "unknown field `" ++ field ++ "`, expected " ++ alternatives known
  | invalidType found expected =>
    "invalid type: " ++ found.message ++ ", expected " ++ expected
  | integerRange n expected =>
    "invalid value: integer `" ++ toString n ++ "`, expected " ++ expected
  | unknownVariant variant known =>
    "unknown variant `" ++ variant ++ "`, expected " ++ alternatives known
  | notAVariant => "wanted string or table"
  | emptyVariant => "wanted exactly 1 element, found 0 elements"
  | severalVariants => "wanted exactly 1 element, more than 1 element"
  | variantContent text => text
  | workgroupSize greatest given =>
    "workgroup_size must be in 1..=" ++ toString greatest ++ ", got " ++ toString given
  | noQueueSlots => "queue_slots must be at least 1"
  | noMemoryPreference => "memory_preference must name at least one placement"
  | unreadable path reason => "cannot read config '" ++ path ++ "': " ++ reason
  | inFile path cause => path ++ ": " ++ cause.message
  | other text => text

def isSyntaxError : ConfigError → Bool
  | syntaxError => true
  | inFile _ cause => cause.isSyntaxError
  | _ => false

end ConfigError

namespace ComputeError

/-- The longest written form of a node that is kept whole, in bytes. -/
def nodeBudget : Nat := 160

def unsupportedAt (cause : Unsupported) (node : String) : ComputeError :=
  .unsupported cause (Text.abbreviate nodeBudget node)

def message : ComputeError → String
  | unsupported cause node => "unsupported expression: " ++ cause.message ++ " (at " ++ node ++ ")"
  | shaderCompile text diagnostic =>
    "shader compilation failed: " ++ text ++ "\n" ++ diagnostic
  | device cause => cause.message
  | usage cause => "usage error: " ++ cause.message
  | config cause => "configuration error: " ++ cause.message

def kind : ComputeError → String
  | unsupported .. => "UnsupportedExpression"
  | shaderCompile .. => "ShaderCompile"
  | device cause => cause.kind
  | usage _ => "Usage"
  | config _ => "Config"

def spell : ComputeError → String
  | unsupported cause node => Text.labelled "UnsupportedExpression"
      [("message", Text.quoted cause.message), ("node", Text.quoted node)]
  | shaderCompile text diagnostic => Text.labelled "ShaderCompile"
      [("message", Text.quoted text), ("diagnostic", Text.quoted diagnostic)]
  | device cause => Text.applied "DeviceResource" [cause.spell]
  | usage cause => Text.applied "Usage" [Text.quoted cause.message]
  | config cause => Text.applied "Config" [Text.quoted cause.message]

end ComputeError
end ArrayQuery
