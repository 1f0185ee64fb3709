import ArrayQuery.Toml.Quoted
import ArrayQuery.Toml.Scalar

/-! Documents: entries, and headers with the entries under them. -/

set_option autoImplicit false
namespace ArrayQuery.Toml

open Reader

/-- Arrays, braces and the parts of a key are nested less deep than this. -/
def depthLimit : Nat := 80

def isBare (c : Char) : Bool :=
  c.isAlphanum || c == '_' || c == '-'

def keyPart : Reader String := do
  blanks
  let cs ← basicString <|> literalString <|> many1 isBare
  blanks
  return String.ofList cs

def key : Reader Key := do
  let parts ← separated1 keyPart (text ['.'])
  match parts.getLast? with
  | none => refuse
  | some last =>
    if parts.length < depthLimit then return ⟨parts.dropLast, last⟩ else refuse

def entry (value : Reader Item) : Reader (Key × Item) := do
  let k ← key
  text ['=']
  blanks
  return (k, ← value)

/-- Values over any number of lines; a comma may follow the last one. -/
def array (value : Reader Item) : Reader Item := do
  text ['[']
  let items ← separated (gap *> value <* gap) (text [','])
  if !items.isEmpty then
    let _ ← optional (text [','])
  gap
  text [']']
  return .array items

/-- Entries on one line; no comma follows the last one. -/
def braces (value : Reader Item) : Reader Item := do
  text ['\x7b']
  let entries ← separated (entry value <* blanks) (text [','])
  blanks
  text ['\x7d']
  match Table.ofBraces entries with
  | some item => return item
  | none => refuse

def value : Nat → Reader Item
  | 0 => (.string <$> string) <|> scalar
  | depth + 1 => array (value depth) <|> braces (value depth) <|> (.string <$> string) <|> scalar

def emptyLines : Reader Unit := do
  let _ ← repeated (do
    blanks
    let _ ← optional comment
    newline)
  blanks
  let _ ← optional comment

def entryLine : Reader (Key × Item) := do
  emptyLines
  let e ← entry (value (depthLimit - 1))
  lineEnd
  return e

def header : Reader (Key × Bool) := do
  emptyLines
  let h ← (do
      text ['[', '[']
      let k ← key
      text [']', ']']
      return (k, true)) <|>
    (do
      text ['[']
      let k ← key
      text [']']
      return (k, false))
  lineEnd
  return h

def section? : Reader Section := do
  let (k, isRepeated) ← header
  return ⟨k, isRepeated, ← repeated entryLine⟩

/-- A mark of the byte order may stand before everything else. -/
def document : Reader Table := do
  let _ ← optional (text ['\ufeff'])
  let entries ← repeated entryLine
  let sections ← repeated section?
  emptyLines
  finish
  match Table.ofSections entries sections with
  | some t => return t
  | none => refuse

def parse? (s : String) : Option Table :=
  (document (.ofList s.toList)).map Prod.fst

end ArrayQuery.Toml
