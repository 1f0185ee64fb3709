import ArrayQuery.Text.Glyphless

/-! Text in double quotes, and the written form of structured data. -/

set_option autoImplicit false
namespace ArrayQuery.Text

/-- Backslash forms for the quote, the backslash and four controls; a code point in braces for
other characters that have no glyph. -/
def escape (c : Char) : List Char :=
  match c with
  | '"' => ['\\', '"']
  | '\\' => ['\\', '\\']
  | '\n' => ['\\', 'n']
  | '\t' => ['\\', 't']
  | '\r' => ['\\', 'r']
  | '\x00' => ['\\', '0']
  | c =>
    if isGlyphless c then
      '\\' :: 'u' :: '\x7b' :: (Nat.toDigits 16 c.toNat ++ ['\x7d'])
    else [c]

def quoted (s : String) : String :=
  "\"" ++ String.ofList (s.toList.flatMap escape) ++ "\""

def applied (name : String) (args : List String) : String :=
  name ++ "(" ++ ", ".intercalate args ++ ")"

def labelled (name : String) (fields : List (String × String)) : String :=
  name ++ " \x7b " ++ ", ".intercalate (fields.map fun f => f.1 ++ ": " ++ f.2) ++ " \x7d"

def listed (items : List String) : String :=
  "[" ++ ", ".intercalate items ++ "]"

end ArrayQuery.Text
