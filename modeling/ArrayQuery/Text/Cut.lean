/-! Text measured in bytes: the longest beginning within a budget, and cuts between characters. -/

set_option autoImplicit false
namespace ArrayQuery.Text

def byteCount (cs : List Char) : Nat :=
  cs.foldl (fun bytes c => bytes + c.utf8Size) 0

def takeBytes (budget : Nat) : List Char → List Char
  | [] => []
  | c :: rest => if c.utf8Size ≤ budget then c :: takeBytes (budget - c.utf8Size) rest else []

/-- Text of at most `budget` bytes as it is; of longer text the beginning, and three dots. -/
def abbreviate (budget : Nat) (s : String) : String :=
  if s.utf8ByteSize ≤ budget then s
  else String.ofList (takeBytes budget s.toList) ++ "..."

/-- The first `n` bytes, unless there are fewer or a character would be cut. -/
def cutAt : Nat → List Char → Option (List Char)
  | 0, _ => some []
  | _ + 1, [] => none
  | n + 1, c :: rest =>
    if c.utf8Size ≤ n + 1 then (cutAt (n + 1 - c.utf8Size) rest).map (c :: ·) else none

end ArrayQuery.Text
