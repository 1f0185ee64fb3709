/-! Text written piece by piece, where each line that holds anything starts with its indentation. -/

set_option autoImplicit false
namespace ArrayQuery.Text

/-- How a line changes the level: braces that open a block raise it after their line, braces that
close one lower it before. -/
inductive Shift where
  | keep
  | outdent
  | indent
  deriving DecidableEq, Repr

structure Indented where
  text : String := ""
  level : Nat := 0
  /-- Whether nothing has been written since the last line end. -/
  atLineStart : Bool := true
  deriving DecidableEq, Repr

namespace Indented

def atLevel (level : Nat) : Indented :=
  ⟨"", level, true⟩

def margin : Nat → String
  | 0 => ""
  | n + 1 => "    " ++ margin n

def indent (b : Indented) : Indented :=
  ⟨b.text, b.level + 1, b.atLineStart⟩

def outdent (b : Indented) : Indented :=
  ⟨b.text, b.level - 1, b.atLineStart⟩

def append (b : Indented) (s : String) : Indented :=
  if s = "" then b
  else ⟨b.text ++ (if b.atLineStart then margin b.level else "") ++ s, b.level, false⟩

def newline (b : Indented) : Indented :=
  ⟨b.text ++ "\n", b.level, true⟩

def line (b : Indented) (s : String) : Indented :=
  (b.append s).newline

def lineWith (b : Indented) (s : String) : Shift → Indented
  | .keep => b.line s
  | .outdent => b.outdent.line s
  | .indent => (b.line s).indent

def endLine (b : Indented) (terminator : String) : Indented :=
  if b.atLineStart then b else b.line terminator

end Indented
end ArrayQuery.Text
