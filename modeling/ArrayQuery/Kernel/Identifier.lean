/-! Identifiers of kernels, made from names of the host. -/

set_option autoImplicit false
namespace ArrayQuery.Kernel

def reservedWords : List String := [
  "array", "atomic", "bitcast", "bool", "break", "case", "const", "continue", "default",
  "discard", "else", "enable", "f16", "f32", "false", "fn", "for", "i32", "if", "let", "loop",
  "mat2x2", "mat2x3", "mat2x4", "mat3x2", "mat3x3", "mat3x4", "mat4x2", "mat4x3", "mat4x4",
  "override", "ptr", "requires", "return", "sampler", "struct", "switch", "texture", "true",
  "u32", "var", "vec2", "vec3", "vec4", "while", "main", "gid"]

def isNumbered (stem name : List Char) : Bool :=
  match stem, name with
  | [], digits => !digits.isEmpty && digits.all Char.isDigit
  | c :: stem, d :: name => c == d && isNumbered stem name
  | _ :: _, [] => false

/-- The names that the compiler gives to buffers and to steps. -/
def isGenerated (name : List Char) : Bool :=
  isNumbered ['b', 'u', 'f'] name || isNumbered ['v'] name

def plainChar (c : Char) : Char :=
  if c.isAlphanum then c.toLower else '_'

/-- An identifier starts neither with a digit nor with two underscores. -/
def fixStart (cs : List Char) : List Char :=
  let cs := match cs with
    | [] => ['_']
    | c :: rest => if c.isDigit then '_' :: c :: rest else c :: rest
  match cs with
  | '_' :: '_' :: rest => 'r' :: '_' :: '_' :: rest
  | cs => cs

def isTaken (name : List Char) : Bool :=
  reservedWords.contains (String.ofList name) || isGenerated name

/-- The identifier of a name: an underscore is added to words that mean something else. -/
def identifier (name : String) : String :=
  let cs := fixStart (name.toList.map plainChar)
  String.ofList (if isTaken cs then cs ++ ['_'] else cs)

end ArrayQuery.Kernel
