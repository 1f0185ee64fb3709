import ArrayQuery.Text.Blank
import ArrayQuery.Text.Cut

/-! The first line of a compiler's output that reports an error. -/

set_option autoImplicit false
namespace ArrayQuery

/-- The search ends at once at a line whose first five bytes end within a character. -/
inductive ErrorSearch where
  | found (line : String)
  | missing
  | splitCharacter
  deriving DecidableEq, Repr

namespace ErrorSearch

def isNumbered (line : List Char) : Bool :=
  "[E".toList.isPrefixOf line && Text.occurs "] Error".toList line

/-- Whether a line reports an error. The word may stand in letters of either case. -/
def isError? (line : List Char) : Option Bool :=
  if Text.byteCount line < 5 then some (isNumbered line)
  else (Text.cutAt 5 line).map fun word =>
    word.map Char.toLower == "error".toList || isNumbered line

def search : List (List Char) → ErrorSearch
  | [] => missing
  | line :: rest =>
    match isError? line with
    | none => splitCharacter
    | some true => found (String.ofList line)
    | some false => search rest

def ofOutput (output : String) : ErrorSearch :=
  search ((Text.linesOf output.toList).map Text.trim)

end ErrorSearch
end ArrayQuery
