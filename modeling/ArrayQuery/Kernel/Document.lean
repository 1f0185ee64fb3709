import ArrayQuery.Kernel.Term
import ArrayQuery.Text.Indented

/-! The text of a kernel: four regions, which are put together in a fixed order whatever order they
were written in. -/

set_option autoImplicit false
namespace ArrayQuery.Kernel

open Text (Indented)

def entryPoint : String := "main"

structure Document where
  header : Indented
  structs : Indented := {}
  buffers : Indented := {}
  body : Indented := .atLevel 1
  /-- The buffer whose length bounds the invocations. -/
  guard : Option String := none
  deriving DecidableEq, Repr

namespace Document

def new (workgroupSize : Nat) : Document :=
  let line := "const WORKGROUP_SIZE: u32 = " ++ toString workgroupSize ++ "u;"
  { header := ({} : Indented).line line }

def declareStruct (d : Document) (name : String) (fields : List (String × String)) : Document :=
  let start := d.structs.lineWith ("struct " ++ name ++ " \x7b") .indent
  let inner := fields.foldl (fun b f => b.line (f.1 ++ ": " ++ f.2 ++ ",")) start
  { d with structs := inner.lineWith "\x7d" .outdent }

def declareBuffer (d : Document) (slot : Nat) (name element : String) (readOnly : Bool) :
    Document :=
  let mode := if readOnly then "read" else "read_write"
  let line := "@group(0) @binding(" ++ toString slot ++ ") var<storage, " ++ mode ++ "> " ++
    name ++ ": array<" ++ element ++ ">;"
  { d with buffers := d.buffers.line line }

/-- Invocations at or past the length of the buffer return at once; the last guard counts. -/
def guardWith (d : Document) (buffer : String) : Document :=
  { d with guard := some buffer }

def onBody (d : Document) (f : Indented → Indented) : Document :=
  { d with body := f d.body }

def region (b : Indented) : String :=
  if b.text = "" then "" else "\n" ++ b.text

def entry (guard : Option String) : Indented :=
  let start := (({} : Indented).line "@compute @workgroup_size(WORKGROUP_SIZE)").lineWith
    ("fn " ++ entryPoint ++ "(@builtin(global_invocation_id) gid: vec3<u32>) \x7b") .indent
  match guard with
  | none => start
  | some buffer =>
    ((start.lineWith ("if (" ++ invocation ++ " >= arrayLength(&" ++ buffer ++ ")) \x7b")
      .indent).line "return;").lineWith "\x7d" .outdent

def finish (d : Document) : String :=
  d.header.text ++ region d.structs ++ region d.buffers ++
    "\n" ++ (entry d.guard).text ++ d.body.text ++ "\x7d\n"

end Document
end ArrayQuery.Kernel
