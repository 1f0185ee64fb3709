import ArrayQuery.Proofs.Lines

/-! Text that is written piece by piece, as a page of lines. A line is indented as of its first piece that
is not empty, and a line without one is not indented at all; this is what the text comes to, though it
holds neither lines nor pieces, but only whether the last line has been started. -/

set_option autoImplicit false
namespace ArrayQuery

theorem unlines_ends (lines : List String) : unlines lines = "" ∨ ∃ s, unlines lines = s ++ "\n" := by
  induction lines using List.reverseRecOn with
  | nil => exact .inl rfl
  | append_singleton lines line _ =>
    refine .inr ⟨unlines lines ++ line, ?_⟩
    simp [unlines_append, unlines, String.append_assoc]

theorem not_ends_of_inline (s : String) {last : String} (started : last ≠ "") (inline : IsInline last) :
    ¬∃ t, s ++ last = t ++ "\n" := by
  rintro ⟨t, same⟩
  have nonempty : last.toList ≠ [] := fun none => started (String.toList_eq_nil_iff.mp none)
  have chars := congrArg (fun text : String => text.toList.getLast?) same
  simp only [String.toList_append] at chars
  rw [List.getLast?_append_of_ne_nil _ nonempty, List.getLast?_append_of_ne_nil _ (by decide)] at chars
  exact inline (List.mem_of_getLast? chars)

namespace Text

theorem join_eq_empty {texts : List String} : String.join texts = "" ↔ ∀ s ∈ texts, s = "" := by
  induction texts with
  | nil => simp
  | cons s rest ih => rw [String.join_cons, String.append_eq_empty_iff, ih, List.forall_mem_cons]

def indentation (level : Nat) : String :=
  String.ofList (List.replicate (4 * level) ' ')

/-- A piece of a line, with the level at which it was written. -/
structure Piece where
  level : Nat
  text : String
  deriving DecidableEq, Repr

/-- A line has the level of its first piece that is not empty. -/
def lineLevel? (pieces : List Piece) : Option Nat :=
  (pieces.find? (·.text ≠ "")).map Piece.level

def lineText (pieces : List Piece) : String :=
  (lineLevel? pieces).elim "" indentation ++ String.join (pieces.map Piece.text)

theorem margin_eq (level : Nat) : Indented.margin level = indentation level := by
  induction level with
  | zero => rfl
  | succ level ih =>
    rw [Indented.margin, ih, indentation, indentation, Nat.mul_succ, Nat.add_comm, List.replicate_add]
    simp [String.ext_iff]

theorem lineLevel?_eq_none {pieces : List Piece} :
    lineLevel? pieces = none ↔ ∀ piece ∈ pieces, piece.text = "" := by
  simp [lineLevel?]

theorem lineText_eq_empty {pieces : List Piece} :
    lineText pieces = "" ↔ lineLevel? pieces = none := by
  have texts : String.join (pieces.map Piece.text) = "" ↔ lineLevel? pieces = none := by
    rw [join_eq_empty, lineLevel?_eq_none, List.forall_mem_map]
  rw [lineText, String.append_eq_empty_iff, texts]
  refine ⟨fun both => both.2, fun none => ⟨?_, none⟩⟩
  rw [none]
  rfl

theorem lineText_concat (pieces : List Piece) (level : Nat) (s : String) :
    lineText (pieces ++ [⟨level, s⟩]) =
      lineText pieces ++ (if s ≠ "" ∧ lineText pieces = "" then indentation level else "") ++ s := by
  have texts : String.join ((pieces ++ [Piece.mk level s]).map Piece.text) =
      String.join (pieces.map Piece.text) ++ s := by
    simp
  have levels : lineLevel? (pieces ++ [⟨level, s⟩]) =
      (lineLevel? pieces).or (if s ≠ "" then some level else none) := by
    rw [lineLevel?, List.find?_append, Option.map_or, lineLevel?]
    by_cases empty : s = "" <;> simp [empty]
  rw [lineText, texts, levels]
  cases found : lineLevel? pieces with
  | some n =>
    -- The line has its level already, whatever is written now.
    have started : lineText pieces ≠ "" := fun empty => by simp [lineText_eq_empty.mp empty] at found
    have indented : lineText pieces = indentation n ++ String.join (pieces.map Piece.text) := by
      rw [lineText, found]
      rfl
    have kept : ¬(s ≠ "" ∧ lineText pieces = "") := fun both => started both.2
    rw [if_neg kept, indented, String.append_empty, String.append_assoc]
    rfl
  | none =>
    -- Nothing but empty pieces so far, which leave no text behind.
    have unstarted : lineText pieces = "" := lineText_eq_empty.mpr found
    have blank : String.join (pieces.map Piece.text) = "" :=
      join_eq_empty.mpr (List.forall_mem_map.mpr (lineLevel?_eq_none.mp found))
    by_cases empty : s = "" <;> simp [empty, unstarted, blank]

theorem indentation_inline (level : Nat) : IsInline (indentation level) := by
  rw [IsInline, indentation, String.toList_ofList]
  exact fun member => absurd (List.eq_of_mem_replicate member) (by decide)

theorem lineText_inline {pieces : List Piece} (inline : ∀ piece ∈ pieces, IsInline piece.text) :
    IsInline (lineText pieces) := by
  refine isInline_append.mpr ⟨?_, ?_⟩
  · cases lineLevel? pieces with
    | none => exact List.not_mem_nil
    | some level => exact indentation_inline level
  · rw [IsInline, String.toList_join]
    simpa [IsInline] using inline

/-! ## Pages -/

/-- Lines that have been ended, and the pieces of the last one. -/
structure Page where
  ended : List (List Piece) := []
  last : List Piece := []
  deriving DecidableEq, Repr

namespace Page

def text (p : Page) : String :=
  unlines (p.ended.map lineText) ++ lineText p.last

def write (p : Page) (level : Nat) (s : String) : Page :=
  ⟨p.ended, p.last ++ [⟨level, s⟩]⟩

def close (p : Page) : Page :=
  ⟨p.ended ++ [p.last], []⟩

end Page

/-- What may be asked of a text that is being written. -/
inductive Edit where
  | append (s : String)
  | line (s : String)
  | lineWith (s : String) (shift : Shift)
  | endLine (terminator : String)
  | indent
  | outdent
  deriving DecidableEq, Repr

namespace Edit

def text : Edit → String
  | append s | line s | lineWith s _ | endLine s => s
  | indent | outdent => ""

def writeLevel (level : Nat) : Edit → Nat
  | lineWith _ .outdent => level - 1
  | _ => level

/-- The level for what comes after; the outermost one stays where it is. -/
def nextLevel (level : Nat) : Edit → Nat
  | indent | lineWith _ .indent => level + 1
  | outdent | lineWith _ .outdent => level - 1
  | _ => level

/-- What a page is after an edit at a level. A line is pending if there is any text on it. -/
def onPage (level : Nat) (p : Page) : Edit → Page
  | append s => p.write level s
  | line s => (p.write level s).close
  | e@(lineWith s _) => (p.write (e.writeLevel level) s).close
  | endLine s => if lineText p.last = "" then p else (p.write level s).close
  | indent | outdent => p

def pageAfter (level : Nat) (p : Page) : List Edit → Page
  | [] => p
  | e :: rest => pageAfter (e.nextLevel level) (e.onPage level p) rest

end Edit

namespace Indented

def edit (b : Indented) : Edit → Indented
  | .append s => b.append s
  | .line s => b.line s
  | .lineWith s shift => b.lineWith s shift
  | .endLine s => b.endLine s
  | .indent => b.indent
  | .outdent => b.outdent

structure Shows (b : Indented) (p : Page) (level : Nat) : Prop where
  text : b.text = p.text
  level : b.level = level
  start : b.atLineStart = true ↔ lineText p.last = ""

theorem shows_atLevel (level : Nat) : Shows (.atLevel level) {} level :=
  ⟨rfl, rfl, iff_of_true rfl rfl⟩

variable {b : Indented} {p : Page} {level : Nat}

theorem Shows.append (shown : Shows b p level) (s : String) :
    Shows (b.append s) (p.write level s) level := by
  obtain ⟨text, rfl, start⟩ := shown
  have written : (p.write b.level s).text = p.text ++
      (if s ≠ "" ∧ lineText p.last = "" then indentation b.level else "") ++ s := by
    simp only [Page.text, Page.write, lineText_concat, String.append_assoc]
  by_cases empty : s = ""
  · -- The page has one more piece, and the same text.
    subst empty
    have same : lineText (p.last ++ [⟨b.level, ""⟩]) = lineText p.last := by simp [lineText_concat]
    refine ⟨?_, rfl, start.trans (by rw [Page.write, same])⟩
    simpa [Indented.append, written] using text
  · have pending : lineText (p.last ++ [⟨b.level, s⟩]) ≠ "" := by
      rw [lineText_concat]
      exact append_ne_empty _ empty
    refine ⟨?_, ?_, ?_⟩
    · rw [written, Indented.append, if_neg empty, text, margin_eq]
      simp only [start, empty, ne_eq, not_false_eq_true, true_and]
    · rw [Indented.append, if_neg empty]
    · rw [Indented.append, if_neg empty]
      exact iff_of_false Bool.false_ne_true pending

theorem Shows.newline (shown : Shows b p level) : Shows b.newline p.close level := by
  refine ⟨?_, shown.level, iff_of_true rfl rfl⟩
  have last : lineText [] = "" := rfl
  simp [Indented.newline, shown.text, Page.text, Page.close, unlines_append, unlines, last,
    String.append_assoc]

theorem Shows.line (shown : Shows b p level) (s : String) :
    Shows (b.line s) (p.write level s).close level :=
  (shown.append s).newline

theorem Shows.indent (shown : Shows b p level) : Shows b.indent p (level + 1) :=
  ⟨shown.text, congrArg (· + 1) shown.level, shown.start⟩

theorem Shows.outdent (shown : Shows b p level) : Shows b.outdent p (level - 1) :=
  ⟨shown.text, congrArg (· - 1) shown.level, shown.start⟩

theorem Shows.edit (shown : Shows b p level) (e : Edit) :
    Shows (b.edit e) (e.onPage level p) (e.nextLevel level) := by
  cases e with
  | append s => exact shown.append s
  | line s => exact shown.line s
  | lineWith s shift =>
    cases shift with
    | keep => exact shown.line s
    | outdent => exact shown.outdent.line s
    | indent => exact (shown.line s).indent
  | endLine s =>
    by_cases pending : lineText p.last = ""
    · have start := shown.start.mpr pending
      simpa [Indented.edit, Indented.endLine, Edit.onPage, Edit.nextLevel, pending, start] using shown
    · have start : ¬b.atLineStart = true := fun start => pending (shown.start.mp start)
      simpa [Indented.edit, Indented.endLine, Edit.onPage, Edit.nextLevel, pending, start] using
        shown.line s
  | indent => exact shown.indent
  | outdent => exact shown.outdent

theorem endLine_text (b : Indented) (s : String) :
    (b.endLine s).text = b.text ++ if b.atLineStart = true then "" else s ++ "\n" := by
  by_cases start : b.atLineStart = true
  · rw [endLine, if_pos start, if_pos start, String.append_empty]
  · by_cases empty : s = "" <;>
      simp [endLine, Indented.line, Indented.append, newline, start, empty, String.append_assoc]

theorem Shows.edits (shown : Shows b p level) (edits : List Edit) :
    Shows (edits.foldl Indented.edit b) (Edit.pageAfter level p edits)
      (edits.foldl Edit.nextLevel level) := by
  induction edits generalizing b p level with
  | nil => exact shown
  | cons e rest ih => exact ih (shown.edit e)

end Indented

structure Page.IsPlain (p : Page) : Prop where
  ended : ∀ pieces ∈ p.ended, ∀ piece ∈ pieces, IsInline piece.text
  last : ∀ piece ∈ p.last, IsInline piece.text

theorem isPlain_empty : Page.IsPlain {} where
  ended _ member := absurd member List.not_mem_nil
  last _ member := absurd member List.not_mem_nil

section Plain

variable {p : Page} (plain : p.IsPlain) (level : Nat)
include plain

theorem Page.IsPlain.write {s : String} (inline : IsInline s) : (p.write level s).IsPlain := by
  refine ⟨plain.ended, fun piece member => ?_⟩
  rcases List.mem_append.mp member with before | new
  · exact plain.last piece before
  · obtain rfl := List.mem_singleton.mp new
    exact inline

theorem Page.IsPlain.close : p.close.IsPlain := by
  refine ⟨fun pieces member => ?_, isPlain_empty.last⟩
  rcases List.mem_append.mp member with before | new
  · exact plain.ended pieces before
  · obtain rfl := List.mem_singleton.mp new
    exact plain.last

theorem Page.IsPlain.onPage {e : Edit} (inline : IsInline e.text) : (e.onPage level p).IsPlain := by
  cases e with
  | append s => exact plain.write level inline
  | line s => exact (plain.write level inline).close
  | lineWith s shift => exact (plain.write _ inline).close
  | endLine s =>
    by_cases pending : lineText p.last = ""
    · rwa [Edit.onPage, if_pos pending]
    · rw [Edit.onPage, if_neg pending]
      exact (plain.write level inline).close
  | indent => exact plain
  | outdent => exact plain

theorem Page.IsPlain.pageAfter {edits : List Edit} (inline : ∀ e ∈ edits, IsInline e.text) :
    (Edit.pageAfter level p edits).IsPlain := by
  induction edits generalizing p level with
  | nil => exact plain
  | cons e rest ih =>
    obtain ⟨first, others⟩ := List.forall_mem_cons.mp inline
    exact ih (plain.onPage level first) _ others

end Plain

/-- A text written by any edits from any level on, none of which has a line end in its text, is that of
the page that the edits come to, and its lines are the lines of the page. Its level is the count of
indents and outdents; it is at the start of a line exactly if it is empty or ends with a line end; and
what ends the last line adds to the text exactly if there is anything on the line. -/
theorem text_of_lines (start : Nat) (edits : List Edit) (inline : ∀ e ∈ edits, IsInline e.text) :
    let b := edits.foldl Indented.edit (.atLevel start)
    let p := Edit.pageAfter start {} edits
    b.text = unlines (p.ended.map lineText) ++ lineText p.last ∧
      readLines b.text = p.ended.map lineText ++ [lineText p.last] ∧
      b.level = edits.foldl Edit.nextLevel start ∧
      (b.atLineStart = true ↔ b.text = "" ∨ ∃ s, b.text = s ++ "\n") ∧
      ∀ s, (b.endLine s).text = b.text ++ if lineText p.last = "" then "" else s ++ "\n" := by
  intro b p
  have shown : b.Shows p _ := (Indented.shows_atLevel start).edits edits
  have pieces : p.IsPlain := isPlain_empty.pageAfter start inline
  have last : IsInline (lineText p.last) := lineText_inline pieces.last
  have text : b.text = unlines (p.ended.map lineText) ++ lineText p.last := shown.text
  refine ⟨text, ?_, shown.level, ?_, fun s => ?_⟩
  · rw [text]
    exact readLines_append (List.forall_mem_map.mpr fun l member => lineText_inline (pieces.ended l member))
      last
  · rw [shown.start, text]
    by_cases pending : lineText p.last = ""
    · rw [pending, String.append_empty]
      exact iff_of_true rfl (unlines_ends _)
    · refine iff_of_false pending (not_or.mpr ⟨append_ne_empty _ pending, ?_⟩)
      exact not_ends_of_inline _ pending last
  · rw [Indented.endLine_text]
    simp only [shown.start]

def blockEdits : List Edit :=
  [.lineWith "\x7b" .indent, .append "", .outdent, .indent, .indent, .append "a", .append ";",
    .endLine "", .line "", .lineWith "\x7d" .outdent, .outdent, .outdent]

theorem text_of_lines_block : (∀ e ∈ blockEdits, IsInline e.text) ∧
    let b := blockEdits.foldl Indented.edit (.atLevel 0)
    readLines b.text = ["\x7b", "        a;", "", "    \x7d", ""] ∧ b.level = 0 ∧
      (b.endLine ";").text = b.text := by
  have inline : ∀ e ∈ blockEdits, IsInline e.text := by decide
  obtain ⟨_, lines, level, _, ended⟩ := text_of_lines 0 blockEdits inline
  exact ⟨inline, lines.trans (by decide), level.trans (by decide), (ended ";").trans (by decide)⟩

end Text
end ArrayQuery
