import ArrayQuery.Decimal.Numeral
import ArrayQuery.Toml.Reader

/-! Blanks, comments and strings. -/

set_option autoImplicit false
namespace ArrayQuery.Toml

open Reader

def isBlank (c : Char) : Bool :=
  c == ' ' || c == '\t'

/-- What may stand in a comment or a string: all but the controls. -/
def isPrintable (c : Char) : Bool :=
  c == '\t' || (decide (' ' ≤ c) && c != '\x7f')

def blanks : Reader Unit := do
  let _ ← many isBlank

def newline : Reader Unit :=
  text ['\n'] <|> text ['\r', '\n']

def comment : Reader Unit := do
  text ['#']
  let _ ← many isPrintable

def lineEnd : Reader Unit := do
  blanks
  let _ ← optional comment
  newline <|> finish

def gap : Reader Unit := do
  let _ ← repeated (do
    blanks
    let _ ← optional comment
    newline)
  blanks

def codePoint (width : Nat) : Reader Char := do
  let n := numeral 16 (← times width (isDigitOf 16))
  if n.isValidChar then return Char.ofNat n else refuse

def escaped : Reader Char := do
  text ['\\']
  let c ← character fun _ => true
  match c with
  | 'b' => return '\x08'
  | 't' => return '\t'
  | 'n' => return '\n'
  | 'f' => return '\x0c'
  | 'r' => return '\r'
  | '"' => return '"'
  | '\\' => return '\\'
  | 'u' => codePoint 4
  | 'U' => codePoint 8
  | _ => refuse

def basicChar : Reader Char :=
  character (fun c => isPrintable c && c != '"' && c != '\\') <|> escaped

def basicString : Reader (List Char) := do
  text ['"']
  let cs ← repeated basicChar
  text ['"']
  return cs

def literalString : Reader (List Char) := do
  text ['\'']
  let cs ← many fun c => isPrintable c && c != '\''
  text ['\'']
  return cs

/-- A backslash at the end of a line takes the line end, and all blanks and line ends after it. -/
def joinedLines : Reader (List Char) := do
  text ['\\']
  blanks
  newline
  let _ ← repeated (newline <|> do
    let _ ← character isBlank)
  return []

/-- One piece of a string that may go over lines. Line ends of both kinds count as line feeds. -/
def piece (one : Reader (List Char)) : Reader (List Char) :=
  one <|> do
    newline
    return ['\n']

/-- Text between triple quotes: a line end right after the first ones is left out. Up to two quotes
may stand in a row within the text, also right before the last ones. -/
def longString (quote : Char) (one : Reader (List Char)) : Reader (List Char) := do
  let triple := [quote, quote, quote]
  text triple
  let _ ← optional newline
  let parts ← repeated do
    let quotes ← (text [quote, quote] *> pure [quote, quote]) <|>
      (text [quote] *> pure [quote]) <|> pure []
    return quotes ++ (← piece one)
  let quotes ← (text (quote :: quote :: triple) *> pure [quote, quote]) <|>
    (text (quote :: triple) *> pure [quote]) <|> (text triple *> pure [])
  return parts.flatten ++ quotes

def longBasicString : Reader (List Char) :=
  longString '"' ((List.singleton <$> character fun c => isPrintable c && c != '"' && c != '\\') <|>
    joinedLines <|> (List.singleton <$> escaped))

def longLiteralString : Reader (List Char) :=
  longString '\'' (List.singleton <$> character fun c => isPrintable c && c != '\'')

def string : Reader String := do
  let cs ← longBasicString <|> basicString <|> longLiteralString <|> literalString
  return String.ofList cs

end ArrayQuery.Toml
