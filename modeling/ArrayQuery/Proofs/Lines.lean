import ArrayQuery.Proofs.Mentions

/-! The text of a kernel as a list of lines: the workgroup size, the structs, the buffers, the entry
point with its guard, and the body. -/

set_option autoImplicit false
namespace ArrayQuery

def unlines : List String → String
  | [] => ""
  | line :: rest => line ++ "\n" ++ unlines rest

/-- The lines of a text. What stands behind the last line end is a line too, which is empty where all
lines are ended. -/
def readLines (text : String) : List String :=
  (text.toList.splitOn '\n').map String.ofList

theorem append_ne_empty (s : String) {t : String} (nonempty : t ≠ "") : s ++ t ≠ "" :=
  fun empty => nonempty (String.append_eq_empty_iff.mp empty).2

theorem unlines_append (xs ys : List String) : unlines (xs ++ ys) = unlines xs ++ unlines ys := by
  induction xs with
  | nil => simp [unlines]
  | cons line rest ih => simp only [List.cons_append, unlines, ih, String.append_assoc]

/-- Whether a text has no line end in it. -/
def IsInline (text : String) : Prop :=
  '\n' ∉ text.toList

instance (text : String) : Decidable (IsInline text) :=
  inferInstanceAs (Decidable ('\n' ∉ text.toList))

theorem isInline_append {s t : String} : IsInline (s ++ t) ↔ IsInline s ∧ IsInline t := by
  rw [IsInline, String.toList_append, List.mem_append, not_or, IsInline, IsInline]

def IsQuiet (text : String) : Prop :=
  text.toList.all (fun c => c != '\n' && c != '-') = true

instance (text : String) : Decidable (IsQuiet text) :=
  inferInstanceAs (Decidable (_ = true))

theorem isQuiet_append {s t : String} : IsQuiet (s ++ t) ↔ IsQuiet s ∧ IsQuiet t := by
  rw [IsQuiet, String.toList_append, List.all_append, Bool.and_eq_true, IsQuiet, IsQuiet]

theorem IsQuiet.inline {text : String} (quiet : IsQuiet text) : IsInline text :=
  fun member => by simpa using List.all_eq_true.mp quiet _ member

theorem IsQuiet.dashless {text : String} (quiet : IsQuiet text) : '-' ∉ text.toList :=
  fun member => by simpa using List.all_eq_true.mp quiet _ member

theorem readLines_append {lines : List String} {last : String}
    (inline : ∀ line ∈ lines, IsInline line) (inline' : IsInline last) :
    readLines (unlines lines ++ last) = lines ++ [last] := by
  have chars : (unlines lines ++ last).toList.splitOn '\n' = lines.map String.toList ++ [last.toList] := by
    induction lines with
    | nil => simpa [unlines] using List.splitOn_eq_singleton inline'
    | cons line rest ih =>
      have text : (unlines (line :: rest) ++ last).toList =
          line.toList ++ '\n' :: (unlines rest ++ last).toList := by
        simp [unlines]
      rw [text, List.splitOn_append_cons_self_of_not_mem (inline line List.mem_cons_self),
        ih fun l member => inline l (List.mem_cons_of_mem _ member)]
      rfl
  rw [readLines, chars, List.map_append, List.map_map]
  simp

theorem readLines_unlines {lines : List String} (inline : ∀ line ∈ lines, IsInline line) :
    readLines (unlines lines) = lines ++ [""] := by
  have ended : readLines (unlines lines ++ "") = lines ++ [""] := readLines_append inline List.not_mem_nil
  rwa [String.append_empty] at ended

namespace Text.Indented

/-- Whether whole lines have been written, and the next one starts at a level. -/
structure HasLines (b : Indented) (lines : List String) (level : Nat) : Prop where
  text : b.text = unlines lines
  level : b.level = level
  start : b.atLineStart = true

theorem hasLines_atLevel (level : Nat) : HasLines (.atLevel level) [] level :=
  ⟨rfl, rfl, rfl⟩

variable {b : Indented} {lines : List String} {level : Nat}

theorem HasLines.line (has : HasLines b lines level) {s : String} (nonempty : s ≠ "") :
    HasLines (b.line s) (lines ++ [margin level ++ s]) level := by
  obtain ⟨text, rfl, start⟩ := has
  have written : (b.line s).text = b.text ++ (margin b.level ++ s ++ "\n") := by
    simp [Indented.line, append, nonempty, start, newline, String.append_assoc]
  refine ⟨?_, ?_, rfl⟩
  · rw [written, text, unlines_append]
    simp [unlines]
  · simp [Indented.line, append, nonempty, newline]

theorem HasLines.indent (has : HasLines b lines level) : HasLines b.indent lines (level + 1) :=
  ⟨has.text, congrArg (· + 1) has.level, has.start⟩

theorem HasLines.outdent (has : HasLines b lines (level + 1)) : HasLines b.outdent lines level :=
  ⟨has.text, congrArg (· - 1) has.level, has.start⟩

theorem HasLines.foldl {α : Type} (f : α → String) (nonempty : ∀ a, f a ≠ "") (xs : List α)
    (has : HasLines b lines level) : HasLines (xs.foldl (fun b a => b.line (f a)) b)
      (lines ++ xs.map fun a => margin level ++ f a) level := by
  induction xs generalizing b lines with
  | nil => simpa using has
  | cons a xs ih => simpa using ih (has.line (nonempty a))

end Text.Indented

namespace Kernel

open Text (Indented)
open Text.Indented

namespace Document

def structLines (name : String) (fields : List (String × String)) : List String :=
  ("struct " ++ name ++ " \x7b") :: (fields.map fun f => "    " ++ (f.1 ++ ": " ++ f.2 ++ ",")) ++ ["\x7d"]

def entryLines (guard : Option String) : List String :=
  ["@compute @workgroup_size(WORKGROUP_SIZE)",
    "fn main(@builtin(global_invocation_id) gid: vec3<u32>) \x7b"] ++
  guard.elim [] fun buffer =>
    ["    if (gid.x >= arrayLength(&" ++ buffer ++ ")) \x7b", "        return;", "    \x7d"]

theorem structLines_written (name : String) (fields : List (String × String)) {d : Document}
    {lines : List String} (has : HasLines d.structs lines 0) :
    HasLines (d.declareStruct name fields).structs (lines ++ structLines name fields) 0 := by
  have opened := (has.line (s := "struct " ++ name ++ " \x7b") (by simp)).indent
  have members := opened.foldl (fun f : String × String => f.1 ++ ": " ++ f.2 ++ ",") (by simp) fields
  have closed := members.outdent.line (s := "\x7d") (by decide)
  have text : structLines name fields = [margin 0 ++ ("struct " ++ name ++ " \x7b")] ++
      (fields.map fun f => margin 1 ++ (f.1 ++ ": " ++ f.2 ++ ",")) ++ [margin 0 ++ "\x7d"] := by
    simp [structLines, margin]
  rw [text, ← List.append_assoc, ← List.append_assoc]
  exact closed

theorem entryLines_written (guard : Option String) :
    (entry guard).text = unlines (entryLines guard) := by
  have start := (hasLines_atLevel 0).line (s := "@compute @workgroup_size(WORKGROUP_SIZE)") (by decide)
  have opened := (start.line (s := "fn main(@builtin(global_invocation_id) gid: vec3<u32>) \x7b")
    (by decide)).indent
  cases guard with
  | none => exact opened.text
  | some buffer =>
    have bound : "if (gid.x >= arrayLength(&" ++ buffer ++ ")) \x7b" ≠ "" := append_ne_empty _ (by decide)
    have inner := ((opened.line bound).indent.line (s := "return;") (by decide)).outdent
    have closed := inner.line (s := "\x7d") (by decide)
    exact closed.text

end Document

namespace Program

def structLines (s : Struct) : List String :=
  ("struct " ++ s.name ++ " \x7b") ::
    (s.fields.map fun f => "    " ++ (f.1 ++ ": " ++ f.2.text ++ ",")) ++ ["\x7d"]

def bufferLine (slot : Nat) (element access : String) : String :=
  "@group(0) @binding(" ++ toString slot ++ ") var<storage, " ++ access ++ "> " ++
    bufferName slot ++ ": array<" ++ element ++ ">;"

def bufferLines (p : Program) : List String :=
  (p.inputs.zipIdx.map fun i => bufferLine i.2 i.1.storage.text "read") ++
    [bufferLine p.outputSlot p.storage.text "read_write"]

def sizeLine (p : Program) : String :=
  "const WORKGROUP_SIZE: u32 = " ++ toString p.workgroupSize ++ "u;"

def entryLines (outputSlot : Nat) : List String := [
  "@compute @workgroup_size(WORKGROUP_SIZE)",
  "fn main(@builtin(global_invocation_id) gid: vec3<u32>) \x7b",
  "    if (gid.x >= arrayLength(&" ++ bufferName outputSlot ++ ")) \x7b",
  "        return;",
  "    \x7d"]

def bodyLines (p : Program) : List String :=
  (letLines p.lets ++ [p.storeLine]).map ("    " ++ ·)

def regionLines : List String → List String
  | [] => []
  | lines => "" :: lines

def headLines (p : Program) : List String :=
  p.sizeLine :: (regionLines (p.structs.flatMap structLines) ++ ("" :: p.bufferLines) ++ [""])

def lines (p : Program) : List String :=
  p.headLines ++ entryLines p.outputSlot ++ p.bodyLines ++ ["\x7d"]

theorem declareStruct_lines (s : Struct) {d : Document} {lines : List String}
    (has : HasLines d.structs lines 0) :
    HasLines (d.declareStruct s.name (s.fields.map fun f => (f.1, f.2.text))).structs
      (lines ++ structLines s) 0 := by
  have text : structLines s = Document.structLines s.name (s.fields.map fun f => (f.1, f.2.text)) := by
    simp [structLines, Document.structLines]
  rw [text]
  exact Document.structLines_written _ _ has

theorem declareStructs_lines (ss : List Struct) {d : Document} {lines : List String}
    (has : HasLines d.structs lines 0) :
    HasLines (declareStructs d ss).structs (lines ++ ss.flatMap structLines) 0 := by
  induction ss generalizing d lines with
  | nil => simpa [declareStructs] using has
  | cons s ss ih =>
    have first := declareStruct_lines s has
    simpa [declareStructs] using ih first

theorem region_lines {b : Indented} {lines : List String} {level : Nat}
    (has : HasLines b lines level) : Document.region b = unlines (regionLines lines) := by
  rw [Document.region, has.text]
  cases lines with
  | nil => rfl
  | cons line rest =>
    have nonempty : unlines (line :: rest) ≠ "" := by simp [unlines]
    rw [if_neg nonempty]
    rfl

theorem declareBuffer_line (d : Document) (slot : Nat) (element : String) (readOnly : Bool) :
    (d.declareBuffer slot (bufferName slot) element readOnly).buffers =
      d.buffers.line (bufferLine slot element (if readOnly then "read" else "read_write")) := by
  unfold bufferLine Document.declareBuffer
  rfl

theorem bufferLine_ne (slot : Nat) (element access : String) :
    bufferLine slot element access ≠ "" :=
  append_ne_empty _ (by decide)

theorem declareInputs_lines (is : List (Input × Nat)) {d : Document} {lines : List String}
    (has : HasLines d.buffers lines 0) :
    HasLines (is.foldl (fun d i => d.declareBuffer i.2 (bufferName i.2) i.1.storage.text true)
      d).buffers (lines ++ is.map fun i => bufferLine i.2 i.1.storage.text "read") 0 := by
  induction is generalizing d lines with
  | nil => simpa using has
  | cons i is ih =>
    rw [List.foldl_cons, List.map_cons, ← List.singleton_append, ← List.append_assoc]
    apply ih
    rw [declareBuffer_line]
    exact has.line (bufferLine_ne _ _ _)

theorem bodyLines_append (xs : List String) {b : Indented} {lines : List String}
    (nonempty : ∀ line ∈ xs, line ≠ "") (has : HasLines b lines 1) :
    HasLines (xs.foldl (·.line ·) b) (lines ++ xs.map ("    " ++ ·)) 1 := by
  induction xs generalizing b lines with
  | nil => simpa using has
  | cons line xs ih =>
    have first := has.line (nonempty line List.mem_cons_self)
    simpa [margin] using ih (fun l member => nonempty l (List.mem_cons_of_mem _ member)) first

theorem document_structs (p : Program) :
    HasLines p.document.structs (p.structs.flatMap structLines) 0 := by
  have start : HasLines (Document.new p.workgroupSize).structs [] 0 := ⟨rfl, rfl, rfl⟩
  have declared := declareStructs_lines p.structs start
  rw [List.nil_append] at declared
  have kept := declareInputs_keep Document.structs (fun _ _ _ _ _ => rfl) p.inputs
    (declareStructs (.new p.workgroupSize) p.structs)
  exact kept ▸ declared

theorem document_buffers (p : Program) : HasLines p.document.buffers p.bufferLines 0 := by
  have start : HasLines (declareStructs (.new p.workgroupSize) p.structs).buffers [] 0 := by
    rw [declareStructs_keep Document.buffers fun _ _ _ => rfl]
    exact ⟨rfl, rfl, rfl⟩
  have inputs := declareInputs_lines p.inputs.zipIdx start
  rw [List.nil_append] at inputs
  have output := inputs.line (bufferLine_ne p.outputSlot p.storage.text "read_write")
  exact output

theorem sizeLine_ne (p : Program) : p.sizeLine ≠ "" :=
  append_ne_empty _ (by decide)

theorem document_bodyLines (p : Program) : HasLines p.document.body p.bodyLines 1 := by
  rw [document_body]
  have written := bodyLines_append _ p.statementLines_ne (hasLines_atLevel 1)
  rwa [List.nil_append] at written

theorem entry_lines (p : Program) :
    (Document.entry p.document.guard).text = unlines (entryLines p.outputSlot) :=
  Document.entryLines_written (some (bufferName p.outputSlot))

theorem document_header (p : Program) : p.document.header.text = unlines [p.sizeLine] := by
  have kept : p.document.header = (({} : Indented).line p.sizeLine) :=
    (declareInputs_keep Document.header (fun _ _ _ _ _ => rfl) p.inputs _).trans
      (declareStructs_keep Document.header (fun _ _ _ => rfl) p.structs _)
  have written := (hasLines_atLevel 0).line p.sizeLine_ne
  rw [kept]
  exact written.text

theorem text_lines (p : Program) : p.text = unlines p.lines := by
  have whole : p.text = p.document.header.text ++ Document.region p.document.structs ++
      Document.region p.document.buffers ++ "\n" ++ (Document.entry p.document.guard).text ++
      p.document.body.text ++ ("\x7d" ++ "\n") := rfl
  -- There is always an output, so that the region of the buffers is never empty.
  have buffers : regionLines p.bufferLines = "" :: p.bufferLines := by
    unfold bufferLines
    cases p.inputs.zipIdx.map fun i => bufferLine i.2 i.1.storage.text "read" <;> rfl
  rw [whole, p.document_header, region_lines p.document_structs, region_lines p.document_buffers,
    entry_lines, p.document_bodyLines.text, buffers]
  simp only [lines, headLines, unlines, unlines_append, String.append_assoc, String.empty_append,
    String.append_empty]

theorem quiet_of_isWord {name : String} (word : isWord name = true) : IsQuiet name := by
  refine List.all_eq_true.mpr fun c member => ?_
  have plain := List.all_eq_true.mp (wordChars_of_isWord word) c member
  simp only [Bool.and_eq_true, bne_iff_ne]
  constructor
  · rintro rfl
    exact absurd plain (by decide)
  · rintro rfl
    exact absurd plain (by decide)

theorem variable_quiet (v : Variable) : IsQuiet v.name :=
  quiet_of_isWord (variable_isWord v)

theorem free_quiet {name : String} (free : IsFree name) : IsQuiet name :=
  quiet_of_isWord free.1

theorem type_quiet {t : KernelType} (named : t.IsNamed) : IsQuiet t.text := by
  have builtin : ∀ t ∈ KernelType.builtin, IsQuiet t.text := by decide
  cases t with
  | struct name => exact free_quiet named
  | _ => exact builtin _ named

theorem digits_quiet (n : Nat) : IsQuiet (toString n) := by
  refine List.all_eq_true.mpr fun c member => ?_
  rw [Nat.toString_eq_repr, Nat.toList_repr] at member
  have digit := List.all_eq_true.mp (Decimal.all_isDigit_toDigits n) c member
  simp only [Bool.and_eq_true, bne_iff_ne]
  constructor
  · rintro rfl
    exact absurd digit (by decide)
  · rintro rfl
    exact absurd digit (by decide)

/-- Whether the types and members of a kernel have names that types and members can have. -/
structure IsNamed (p : Program) : Prop where
  structs : ∀ s ∈ p.structs, IsFree s.name ∧ ∀ m ∈ s.fields, IsFree m.1 ∧ m.2.IsNamed
  inputs : ∀ i ∈ p.inputs, i.storage.IsNamed
  storage : p.storage.IsNamed

structure IsSpelled (p : Program) : Prop extends p.IsNamed where
  body : ∀ line ∈ letLines p.lets ++ [p.storeLine], IsInline line

theorem structLines_quiet {s : Struct} (name : IsFree s.name)
    (members : ∀ m ∈ s.fields, IsFree m.1 ∧ m.2.IsNamed) : ∀ line ∈ structLines s, IsQuiet line := by
  intro line member
  rcases List.mem_append.mp member with member | member
  · rcases List.mem_cons.mp member with rfl | member
    · simp only [isQuiet_append, free_quiet name]
      decide
    · obtain ⟨m, held, rfl⟩ := List.mem_map.mp member
      simp only [isQuiet_append, free_quiet (members m held).1, type_quiet (members m held).2]
      decide
  · rw [List.mem_singleton.mp member]
    decide

theorem bufferLine_quiet (slot : Nat) {element access : String} (type : IsQuiet element)
    (mode : IsQuiet access) : IsQuiet (bufferLine slot element access) := by
  unfold bufferLine
  simp only [isQuiet_append, digits_quiet, mode, type, bufferName, variable_quiet]
  decide

theorem bufferLines_quiet {p : Program} (named : p.IsNamed) :
    ∀ line ∈ p.bufferLines, IsQuiet line := by
  intro line member
  rcases List.mem_append.mp member with member | member
  · obtain ⟨⟨i, slot⟩, held, rfl⟩ := List.mem_map.mp member
    have input := List.fst_mem_of_mem_zipIdx held
    exact bufferLine_quiet slot (type_quiet (named.inputs i input)) (by decide)
  · rw [List.mem_singleton.mp member]
    exact bufferLine_quiet _ (type_quiet named.storage) (by decide)

theorem mem_regionLines {lines : List String} {line : String} (member : line ∈ regionLines lines) :
    line = "" ∨ line ∈ lines := by
  cases lines with
  | nil => exact nomatch member
  | cons first rest => exact List.mem_cons.mp member

theorem headLines_quiet {p : Program} (named : p.IsNamed) :
    ∀ line ∈ p.headLines, IsQuiet line := by
  have structs : ∀ line ∈ p.structs.flatMap structLines, IsQuiet line := by
    intro line member
    obtain ⟨s, held, member⟩ := List.mem_flatMap.mp member
    obtain ⟨name, members⟩ := named.structs s held
    exact structLines_quiet name members line member
  intro line member
  simp only [headLines, List.mem_cons, List.mem_append, List.not_mem_nil, or_false] at member
  rcases member with rfl | (member | rfl | member) | rfl
  · unfold sizeLine
    simp only [isQuiet_append, digits_quiet]
    decide
  · rcases mem_regionLines member with rfl | member
    · decide
    · exact structs line member
  · decide
  · exact bufferLines_quiet named line member
  · decide

theorem entryLines_quiet (outputSlot : Nat) : ∀ line ∈ entryLines outputSlot, IsQuiet line := by
  intro line member
  simp only [entryLines, List.mem_cons, List.not_mem_nil, or_false] at member
  rcases member with rfl | rfl | rfl | rfl | rfl
  · decide
  · decide
  · simp only [isQuiet_append, bufferName, variable_quiet]
    decide
  · decide
  · decide

/-! ## Reading the lines back -/

theorem readLines_text {p : Program} (spelled : p.IsSpelled) :
    readLines p.text = p.lines ++ [""] := by
  rw [text_lines]
  refine readLines_unlines fun line member => ?_
  simp only [lines, List.mem_append, List.mem_singleton] at member
  rcases member with ((member | member) | member) | rfl
  · exact (headLines_quiet spelled.toIsNamed line member).inline
  · exact (entryLines_quiet _ line member).inline
  · obtain ⟨inner, held, rfl⟩ := List.mem_map.mp member
    exact isInline_append.mpr ⟨by decide, spelled.body inner held⟩
  · decide

def isBufferLine (line : String) : Bool :=
  "@group(".toList.isPrefixOf line.toList

def startsOtherwise (line : String) : Bool :=
  line.toList.head?.any (· != '@')

theorem startsOtherwise_append {s : String} (t : String) (other : startsOtherwise s = true) :
    startsOtherwise (s ++ t) = true := by
  unfold startsOtherwise at other ⊢
  rw [String.toList_append]
  cases chars : s.toList with
  | nil =>
    rw [chars] at other
    exact absurd other Bool.false_ne_true
  | cons c rest =>
    rw [chars] at other
    exact other

theorem not_isBufferLine {s : String} (other : startsOtherwise s = true) : isBufferLine s = false := by
  unfold startsOtherwise at other
  unfold isBufferLine
  cases chars : s.toList with
  | nil => rfl
  | cons c rest =>
    rw [chars, List.head?_cons, Option.any_some, bne_iff_ne] at other
    have apart : ('@' == c) = false := beq_eq_false_iff_ne.mpr other.symm
    have marker : "@group(".toList = '@' :: "group(".toList := by decide
    rw [marker, List.isPrefixOf_cons_cons, apart, Bool.false_and]

theorem bufferLine_isBufferLine (slot : Nat) (element access : String) :
    isBufferLine (bufferLine slot element access) = true := by
  have start : "@group(0) @binding(" = "@group(" ++ "0) @binding(" := by decide
  unfold isBufferLine bufferLine
  rw [List.isPrefixOf_iff_prefix, start]
  simp only [String.toList_append, List.append_assoc]
  exact List.prefix_append _ _

theorem bufferLines_filter (p : Program) : p.bufferLines.filter isBufferLine = p.bufferLines := by
  refine List.filter_eq_self.mpr fun line member => ?_
  rcases List.mem_append.mp member with member | member
  · obtain ⟨i, _, rfl⟩ := List.mem_map.mp member
    exact bufferLine_isBufferLine _ _ _
  · rw [List.mem_singleton.mp member]
    exact bufferLine_isBufferLine _ _ _

theorem filter_none {lines : List String}
    (other : ∀ line ∈ lines, line = "" ∨ startsOtherwise line = true) :
    lines.filter isBufferLine = [] := by
  refine List.filter_eq_nil_iff.mpr fun line member => Bool.eq_false_iff.mp ?_
  rcases other line member with rfl | other
  · decide
  · exact not_isBufferLine other

theorem structLines_other (s : Struct) : ∀ line ∈ structLines s, startsOtherwise line = true := by
  intro line member
  rcases List.mem_append.mp member with member | member
  · rcases List.mem_cons.mp member with rfl | member
    · exact startsOtherwise_append _ (startsOtherwise_append _ (by decide))
    · obtain ⟨m, _, rfl⟩ := List.mem_map.mp member
      exact startsOtherwise_append _ (by decide)
  · rw [List.mem_singleton.mp member]
    decide

theorem entryLines_other (outputSlot : Nat) :
    ∀ line ∈ entryLines outputSlot, isBufferLine line = false := by
  intro line member
  simp only [entryLines, List.mem_cons, List.not_mem_nil, or_false] at member
  rcases member with rfl | rfl | rfl | rfl | rfl
  · decide
  · decide
  · exact not_isBufferLine (startsOtherwise_append _ (startsOtherwise_append _ (by decide)))
  · decide
  · decide

theorem structLines_isInfix (p : Program) : p.structs.flatMap structLines <:+: p.lines := by
  have region : p.structs.flatMap structLines <:+ regionLines (p.structs.flatMap structLines) := by
    cases p.structs.flatMap structLines with
    | nil => exact List.suffix_rfl
    | cons first rest => exact List.suffix_cons _ _
  have front : [p.sizeLine] ++ regionLines (p.structs.flatMap structLines) <+: p.lines := by
    simp only [lines, headLines, List.append_assoc, List.cons_append, List.nil_append,
      List.prefix_cons_inj]
    exact List.prefix_append _ _
  exact (region.trans (List.suffix_append _ _)).isInfix.trans front.isInfix

/-- A selection that takes no line around the structs and the buffers takes what it takes of these. -/
theorem filter_lines (p : Program) {q : String → Bool} (blank : q "" = false)
    (size : q p.sizeLine = false) (entry : ∀ line ∈ entryLines p.outputSlot, q line = false)
    (body : ∀ line ∈ p.bodyLines, q line = false) (brace : q "\x7d" = false) :
    (p.lines ++ [""]).filter q =
      (p.structs.flatMap structLines).filter q ++ p.bufferLines.filter q := by
  have structs : (regionLines (p.structs.flatMap structLines)).filter q =
      (p.structs.flatMap structLines).filter q := by
    cases p.structs.flatMap structLines with
    | nil => rfl
    | cons first rest => exact List.filter_cons_of_neg (Bool.eq_false_iff.mp blank)
  have none (lines : List String) (other : ∀ line ∈ lines, q line = false) : lines.filter q = [] :=
    List.filter_eq_nil_iff.mpr fun line member => Bool.eq_false_iff.mp (other line member)
  simp only [lines, headLines, List.filter_append, List.filter_cons, List.filter_nil, structs, blank,
    size, brace, none _ entry, none _ body, Bool.false_eq_true, if_false, List.append_nil]

/-- The buffers are declared on their own lines, and nowhere else. -/
theorem lines_filter (p : Program) : (p.lines ++ [""]).filter isBufferLine = p.bufferLines := by
  have size : isBufferLine p.sizeLine = false :=
    not_isBufferLine (startsOtherwise_append _ (startsOtherwise_append _ (by decide)))
  have body : ∀ line ∈ p.bodyLines, isBufferLine line = false := by
    intro line member
    obtain ⟨inner, _, rfl⟩ := List.mem_map.mp member
    exact not_isBufferLine (startsOtherwise_append _ (by decide))
  have structs : (p.structs.flatMap structLines).filter isBufferLine = [] := by
    refine filter_none fun line member => ?_
    obtain ⟨s, _, held⟩ := List.mem_flatMap.mp member
    exact .inr (structLines_other s line held)
  rw [p.filter_lines (by decide) size (entryLines_other _) body (by decide), structs,
    bufferLines_filter, List.nil_append]

end Program
end Kernel
end ArrayQuery
