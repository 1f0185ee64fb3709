import ArrayQuery.Diagnostic.Basic
import ArrayQuery.Text.Blank

/-! A diagnostic beside the line of the text that it is about. -/

set_option autoImplicit false
namespace ArrayQuery

structure Place where
  line : Nat
  column : Nat
  text : List Char
  deriving DecidableEq, Repr

/-- Line feed, vertical tab, form feed, carriage return, next line, and the separators of lines and
paragraphs. -/
def endsLine (c : Char) : Bool :=
  let n := c.toNat
  (decide (0xA ≤ n) && decide (n ≤ 0xD)) || n == 0x85 || n == 0x2028 || n == 0x2029

/-- The lines of a text, each with the end it has; a carriage return and the line feed after it are
one end. -/
def endedLines : List Char → List (List Char)
  | [] => []
  | '\r' :: '\n' :: rest => ['\r', '\n'] :: endedLines rest
  | c :: rest =>
    if endsLine c then [c] :: endedLines rest
    else match endedLines rest with
      | [] => [[c]]
      | line :: lines => (c :: line) :: lines

/-- The place of an offset; the end of a text lies in its last line, and there is none without
lines. -/
def placeOf (offset : Nat) (line : Nat) : List (List Char) → Option Place
  | [] => none
  | [text] => if offset ≤ text.length then some ⟨line, offset, text⟩ else none
  | text :: rest =>
    if offset < text.length then some ⟨line, offset, text⟩
    else placeOf (offset - text.length) (line + 1) rest

namespace Diagnostic

def blanks (n : Nat) : String :=
  String.ofList (List.replicate n ' ')

def dashes (n : Nat) : String :=
  String.ofList (List.replicate n '─')

def shown (text : List Char) : List Char :=
  (text.reverse.dropWhile Text.isBlank).reverse

def tabWidth : Nat := 4

def width (index : Nat) (c : Char) : Nat :=
  if c = '\t' then tabWidth - index % tabWidth else 1

def columns (text : List Char) : String :=
  String.ofList (text.zipIdx.flatMap fun (c, i) =>
    if Text.isBlank c then List.replicate (width i c) ' ' else [c])

/-- A row under a line, which blanks continue. The mark of an index fills the columns of the
character there, the first of them with its head and the others with its tail. -/
def row (text : List Char) (length : Nat) (mark : Nat → Char × Char) : String :=
  let cells := (text ++ List.replicate length ' ').take length
  String.ofList (cells.zipIdx.flatMap fun (c, i) =>
    (mark i).1 :: List.replicate (width i c - 1) (mark i).2)

def middle (l : Label) : Nat :=
  l.start + (l.stop - l.start) / 2

def underline (l : Label) (i : Nat) : Char × Char :=
  let marked := decide (l.start ≤ i) && decide (i < l.stop)
  let line := if marked then '─' else ' '
  if i = middle l then (if marked then '┬' else '│', line) else (line, line)

def branch (l : Label) (i : Nat) : Char × Char :=
  if i < middle l then (' ', ' ') else if i = middle l then ('╰', '─') else ('─', '─')

/-- Only the last note is shown. -/
def noteLines (margin : String) (notes : List String) : List String :=
  match notes.getLast? with
  | none => []
  | some note => [margin ++ "│ ", margin ++ "│ Note: " ++ note]

/-- The line of a place over the marks of the label that starts there. The marks end two characters
after the label. -/
def excerpt (filename : String) (place : Place) (label : Label) (notes : List String) :
    List String :=
  let number := toString (place.line + 1)
  let margin := blanks (number.length + 2)
  let position := number ++ ":" ++ toString (place.column + 1)
  let text := shown place.text
  let inLine : Label := ⟨place.column, place.column + (label.stop - label.start), label.text⟩
  let marks := row text (inLine.stop + 2)
  [margin ++ "╭─[" ++ filename ++ ":" ++ position ++ "]",
   margin ++ "│",
   " " ++ number ++ " │ " ++ columns text,
   margin ++ "│ " ++ marks (underline inLine),
   margin ++ "│ " ++ marks (branch inLine) ++ " " ++ label.text] ++
  noteLines margin notes ++ [dashes (number.length + 2) ++ "╯"]

def report (d : Diagnostic) (filename source : String) : String :=
  let title := d.severity.name ++ ": " ++ d.message
  let label? := d.labels.head?.map (Label.clamp source.utf8ByteSize)
  let lines := match label? with
    | none => []
    | some label =>
      match placeOf label.start 0 (endedLines source.toList) with
      | none => []
      | some place => excerpt filename place label d.notes
  "".intercalate ((title :: lines).map (· ++ "\n"))

end Diagnostic
end ArrayQuery
