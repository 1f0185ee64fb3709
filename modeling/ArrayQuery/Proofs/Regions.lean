import ArrayQuery.Proofs.Pages

/-! Documents written by any calls. A call writes to one region, and each region is left where the next
call for it goes on, so that calls for different regions may come in any order: what a document comes to
is what has been written to each region, apart from the others. -/

set_option autoImplicit false
namespace ArrayQuery.Kernel

open Text (Indented Edit)
open Text.Indented (HasLines Shows)

inductive Call where
  | declareStruct (name : String) (fields : List (String × String))
  | declareBuffer (slot : Nat) (name element : String) (readOnly : Bool)
  | guardWith (buffer : String)
  | onBody (edit : Edit)
  deriving DecidableEq, Repr

/-- What is written to a document, region by region. -/
structure Contents where
  structs : List (String × List (String × String)) := []
  buffers : List (Nat × String × String × Bool) := []
  guard : Option String := none
  body : List Edit := []
  deriving DecidableEq, Repr

namespace Call

def struct? : Call → Option (String × List (String × String))
  | .declareStruct name fields => some (name, fields)
  | _ => none

def buffer? : Call → Option (Nat × String × String × Bool)
  | .declareBuffer slot name element readOnly => some (slot, name, element, readOnly)
  | _ => none

def guard? : Call → Option String
  | .guardWith buffer => some buffer
  | _ => none

def edit? : Call → Option Edit
  | .onBody edit => some edit
  | _ => none

def contents (calls : List Call) : Contents where
  structs := calls.filterMap struct?
  buffers := calls.filterMap buffer?
  guard := (calls.filterMap guard?).getLast?
  body := calls.filterMap edit?

end Call

namespace Contents

def add (c : Contents) : Call → Contents
  | .declareStruct name fields => { c with structs := c.structs ++ [(name, fields)] }
  | .declareBuffer slot name element readOnly =>
    { c with buffers := c.buffers ++ [(slot, name, element, readOnly)] }
  | .guardWith buffer => { c with guard := some buffer }
  | .onBody edit => { c with body := c.body ++ [edit] }

def structLines (c : Contents) : List String :=
  c.structs.flatMap fun s => Document.structLines s.1 s.2

def bufferLines (c : Contents) : List String :=
  c.buffers.map fun (slot, name, element, readOnly) =>
    "@group(0) @binding(" ++ toString slot ++ ") var<storage, " ++
      (if readOnly then "read" else "read_write") ++ "> " ++ name ++ ": array<" ++ element ++ ">;"

def headLines (workgroupSize : Nat) (c : Contents) : List String :=
  ["const WORKGROUP_SIZE: u32 = " ++ toString workgroupSize ++ "u;"] ++
    Program.regionLines c.structLines ++ Program.regionLines c.bufferLines ++
      "" :: Document.entryLines c.guard

/-- The text of a document, in the order of its regions. The body is a page of its own, one level deep. -/
def text (workgroupSize : Nat) (c : Contents) : String :=
  unlines (c.headLines workgroupSize) ++ (Edit.pageAfter 1 {} c.body).text ++ "\x7d\n"

end Contents

theorem Call.contents_concat (calls : List Call) (c : Call) :
    contents (calls ++ [c]) = (contents calls).add c := by
  cases c <;> simp [contents, Contents.add, struct?, buffer?, guard?, edit?]

namespace Document

def call (d : Document) : Call → Document
  | .declareStruct name fields => d.declareStruct name fields
  | .declareBuffer slot name element readOnly => d.declareBuffer slot name element readOnly
  | .guardWith buffer => d.guardWith buffer
  | .onBody edit => d.onBody (·.edit edit)

def written (workgroupSize : Nat) (calls : List Call) : Document :=
  calls.foldl call (.new workgroupSize)

/-- Whether a document is that of a size and of what has been written to its regions. The structs and
the buffers are whole lines at the outermost level; the body may end within a line, and deeper. -/
structure Holds (d : Document) (workgroupSize : Nat) (c : Contents) : Prop where
  header : d.header.text = unlines ["const WORKGROUP_SIZE: u32 = " ++ toString workgroupSize ++ "u;"]
  structs : d.structs.HasLines c.structLines 0
  buffers : d.buffers.HasLines c.bufferLines 0
  guard : d.guard = c.guard
  body : d.body = c.body.foldl Indented.edit (.atLevel 1)

theorem holds_new (workgroupSize : Nat) : Holds (.new workgroupSize) workgroupSize {} where
  header :=
    have line := append_ne_empty ("const WORKGROUP_SIZE: u32 = " ++ toString workgroupSize) (t := "u;")
      (by decide)
    ((Text.Indented.hasLines_atLevel 0).line line).text
  structs := Text.Indented.hasLines_atLevel 0
  buffers := Text.Indented.hasLines_atLevel 0
  guard := rfl
  body := rfl

/-- A call adds to its own region, and leaves the others as they are. -/
theorem Holds.call {d : Document} {workgroupSize : Nat} {c : Contents} (holds : Holds d workgroupSize c)
    (new : Call) : Holds (d.call new) workgroupSize (c.add new) := by
  obtain ⟨header, structs, buffers, guard, body⟩ := holds
  cases new with
  | declareStruct name fields =>
    have lines : (c.add (.declareStruct name fields)).structLines =
        c.structLines ++ structLines name fields := by
      simp [Contents.structLines, Contents.add]
    exact ⟨header, lines ▸ structLines_written name fields structs, buffers, guard, body⟩
  | declareBuffer slot name element readOnly =>
    have line := buffers.line (append_ne_empty ("@group(0) @binding(" ++ toString slot ++
      ") var<storage, " ++ (if readOnly then "read" else "read_write") ++ "> " ++ name ++ ": array<" ++
        element) (t := ">;") (by decide))
    have lines : (c.add (.declareBuffer slot name element readOnly)).bufferLines = c.bufferLines ++ _ :=
      List.map_append
    exact ⟨header, structs, lines ▸ line, guard, body⟩
  | guardWith buffer => exact ⟨header, structs, buffers, rfl, body⟩
  | onBody edit =>
    refine ⟨header, structs, buffers, guard, ?_⟩
    rw [Document.call, onBody, body, Contents.add, List.foldl_append]
    rfl

theorem holds_written (workgroupSize : Nat) (calls : List Call) :
    Holds (written workgroupSize calls) workgroupSize (Call.contents calls) := by
  induction calls using List.reverseRecOn with
  | nil => exact holds_new workgroupSize
  | append_singleton calls last ih =>
    rw [Call.contents_concat, written, List.foldl_append]
    exact ih.call last

theorem Holds.finish {d : Document} {workgroupSize : Nat} {c : Contents}
    (holds : Holds d workgroupSize c) : d.finish = c.text workgroupSize := by
  have body : d.body.text = (Edit.pageAfter 1 {} c.body).text := by
    rw [holds.body]
    exact ((Text.Indented.shows_atLevel 1).edits c.body).text
  -- The line between the declarations and the entry point stands there without them too.
  have ends : "\n" = unlines [""] := rfl
  rw [Document.finish, holds.header, Program.region_lines holds.structs,
    Program.region_lines holds.buffers, holds.guard, entryLines_written, body, ends]
  simp only [Contents.text, Contents.headLines, ← unlines_append, List.append_assoc, List.cons_append,
    List.nil_append]

/-- Calls that write the same to each region, in whatever order they come, write the same text: the
workgroup size, the structs, the buffers, the entry point with the last guard, and the body, where a
region without lines has no blank line before it either. -/
theorem finish_interleaved (workgroupSize : Nat) {calls others : List Call}
    (same : Call.contents calls = Call.contents others) :
    (written workgroupSize calls).finish = (written workgroupSize others).finish ∧
      (written workgroupSize calls).finish = (Call.contents calls).text workgroupSize := by
  have first := (holds_written workgroupSize calls).finish
  have second := (holds_written workgroupSize others).finish
  exact ⟨by rw [first, second, same], first⟩

/-- A line of the body that is not whole when a struct is declared. The first guard does not count, and
there are no buffers. -/
def halves : List Call :=
  [.onBody (.append "let v1: i32 = "), .guardWith "buf0", .declareStruct "pair" [("a", "i32")],
    .onBody (.append "1i;"), .guardWith "buf1", .onBody (.endLine "")]

theorem finish_interleaved_halves :
    let whole : List Call := [.declareStruct "pair" [("a", "i32")], .guardWith "buf1",
      .onBody (.append "let v1: i32 = "), .onBody (.append "1i;"), .onBody (.endLine "")]
    Call.contents halves = Call.contents whole ∧
      (written 64 halves).finish = (written 64 whole).finish ∧
      (written 64 halves).finish = unlines ["const WORKGROUP_SIZE: u32 = 64u;", "", "struct pair \x7b",
        "    a: i32,", "\x7d", "", "@compute @workgroup_size(WORKGROUP_SIZE)",
        "fn main(@builtin(global_invocation_id) gid: vec3<u32>) \x7b",
        "    if (gid.x >= arrayLength(&buf1)) \x7b", "        return;", "    \x7d",
        "    let v1: i32 = 1i;", "\x7d"] := by
  intro whole
  have same : Call.contents halves = Call.contents whole := by decide
  obtain ⟨texts, text⟩ := finish_interleaved 64 same
  exact ⟨same, texts, text.trans (by decide +kernel)⟩

end Document

namespace Program

def calls (p : Program) : List Call :=
  (p.structs.map fun s => .declareStruct s.name (s.fields.map fun f => (f.1, f.2.text))) ++
    (p.inputs.zipIdx.map fun i => .declareBuffer i.2 (bufferName i.2) i.1.storage.text true) ++
    [.declareBuffer p.outputSlot (bufferName p.outputSlot) p.storage.text false,
      .guardWith (bufferName p.outputSlot)] ++
    (letLines p.lets ++ [p.storeLine]).map fun line => .onBody (.line line)

theorem foldl_onBody (lines : List String) (d : Document) :
    (lines.map fun line => Call.onBody (.line line)).foldl Document.call d =
      d.onBody fun b => lines.foldl (·.line ·) b := by
  induction lines generalizing d with
  | nil => rfl
  | cons line lines ih => exact ih _

theorem document_written (p : Program) : p.document = Document.written p.workgroupSize p.calls := by
  rw [Document.written, calls, List.foldl_append, List.foldl_append, List.foldl_append, foldl_onBody,
    List.foldl_map, List.foldl_map]
  rfl

/-- A kernel has the same text in whatever order its declarations and its body are written. -/
theorem text_interleaved (p : Program) {calls : List Call}
    (same : Call.contents calls = Call.contents p.calls) :
    (Document.written p.workgroupSize calls).finish = p.text := by
  rw [(Document.holds_written _ calls).finish, same, ← (Document.holds_written _ p.calls).finish,
    ← document_written]
  rfl

end Program
end ArrayQuery.Kernel
