import ArrayQuery.Proofs.Spelling

/-! The body of a kernel is read as one declaration for each step, in order, and one store. -/

set_option autoImplicit false
namespace ArrayQuery.Kernel

open Text (Indented)

def Let.statement (number : Nat) (l : Let) : Statement :=
  .bind (Variable.step number).name l.type.text l.value.form

def Let.IsReadable (l : Let) : Prop :=
  l.type.IsReadable ∧ l.value.IsReadable

namespace Program

def bodyText (p : Program) : String :=
  p.document.body.text

def storeStatement (p : Program) : Statement :=
  .store (Term.element p.outputSlot).form (stored p.result).form

def letStatements (lets : List Let) : List Statement :=
  (lets.zipIdx 1).map fun l => l.1.statement l.2

def statements (p : Program) : List Statement :=
  letStatements p.lets ++ [p.storeStatement]

def IsLine (line : String) (s : Statement) : Prop :=
  line ≠ "" ∧ ∃ ls, Spells line.toList (ls ++ [.mark ';']) ∧ (∀ l ∈ ls, l ≠ .mark ';') ∧
    readStatement ls = some s

theorem readStatement_split {left : List Lexeme} (value : List Lexeme)
    (unequal : ∀ l ∈ left, l ≠ .mark '=') :
    (left ++ Lexeme.mark '=' :: value).takeWhile (· != .mark '=') = left ∧
      (left ++ Lexeme.mark '=' :: value).dropWhile (· != .mark '=') = .mark '=' :: value := by
  induction left with
  | nil => simp
  | cons l left ih =>
    have head := unequal l List.mem_cons_self
    have tail := ih fun m member => unequal m (List.mem_cons_of_mem _ member)
    simp [head, tail]

theorem letLine_isLine {l : Let} (readable : l.IsReadable) (number : Nat) :
    IsLine (letLine number l) (l.statement number) := by
  obtain ⟨_, tls, typeSpelled, _, typeRead, typeInline⟩ := l.type.spells readable.1
  obtain ⟨vls, valueSpelled, valueInline, valueReads, _⟩ := (l.value.written readable.2).lexed
  have value : Spells ('=' :: ' ' :: (l.value.text.toList ++ [';']))
      (.mark '=' :: (vls ++ [.mark ';'])) :=
    .mark (by decide) (by decide)
      (.space (valueSpelled.append (by decide) (spells_close (by decide))))
  have typed := typeSpelled.append (by decide) (.space value)
  have named := (spells_word (variable_isWord (.step number))).append (by decide)
    (.solo (c := ':') (by decide) (.space typed))
  have whole := (spells_word (by decide : isWord "let" = true)).append (by decide) (.space named)
  refine ⟨?_, .word "let" :: .word (Variable.step number).name :: .mark ':' ::
    (tls ++ .mark '=' :: vls), ?_, ?_, ?_⟩
  · simp [letLine, ← String.toList_inj]
  · simpa [letLine] using whole
  · simp only [List.mem_cons, List.mem_append]
    rintro m (rfl | rfl | rfl | member | rfl | member)
    · simp
    · simp
    · simp
    · exact (typeInline m member).1
    · simp
    · exact (valueInline m member).1
  · -- The first equals sign is that of the statement: a type has none.
    have unequal : ∀ m ∈ Lexeme.word "let" :: .word (Variable.step number).name :: .mark ':' :: tls,
        m ≠ .mark '=' := by
      simp only [List.mem_cons]
      rintro m (rfl | rfl | rfl | member)
      · simp
      · simp
      · simp
      · exact (typeInline m member).2
    have split := readStatement_split vls unequal
    simp only [List.cons_append] at split
    simp only [readStatement, split, typeRead, readForm_reads valueReads]
    rfl

theorem stored_readable (result : Operand) : (stored result).IsReadable := by
  have term : result.term.IsReadable := by
    unfold Operand.term
    split
    · trivial
    · split <;> trivial
  unfold stored
  split
  · exact ⟨trivial, term, trivial⟩
  · exact term

def elementLexemes (slot : Nat) : List Lexeme :=
  [.word (bufferName slot), .mark '[', .word "gid", .mark '.', .word "x", .mark ']']

theorem element_spells (slot : Nat) :
    Spells (Term.element slot).text.toList (elementLexemes slot) := by
  have member : Spells ('.' :: "x".toList ++ [']']) [.mark '.', .word "x", .mark ']'] :=
    .solo (by decide) ((spells_word (by decide)).append (by decide) (spells_close (by decide)))
  have position : Spells ("gid".toList ++ ('.' :: "x".toList ++ [']']))
      [.word "gid", .mark '.', .word "x", .mark ']'] :=
    (spells_word (by decide)).append (by decide) member
  have whole := (spells_word (variable_isWord (.buffer slot))).append (by decide)
    (.solo (c := '[') (by decide) position)
  simpa [Term.text, invocation, elementLexemes, bufferName] using whole

theorem element_reads (slot : Nat) : ReadsWhole (elementLexemes slot) (Term.element slot).form := by
  have member := reads_member (reads_name "gid") "x"
  exact reads_index (reads_name (bufferName slot)) member.reads

theorem storeLine_isLine (p : Program) : IsLine p.storeLine p.storeStatement := by
  obtain ⟨vls, valueSpelled, valueInline, valueReads, _⟩ :=
    ((stored p.result).written (stored_readable p.result)).lexed
  have value : Spells ('=' :: ' ' :: ((stored p.result).text.toList ++ [';']))
      (.mark '=' :: (vls ++ [.mark ';'])) :=
    .mark (by decide) (by decide)
      (.space (valueSpelled.append (by decide) (spells_close (by decide))))
  have whole := (element_spells p.outputSlot).append (by decide) (.space value)
  refine ⟨?_, elementLexemes p.outputSlot ++ .mark '=' :: vls, ?_, ?_, ?_⟩
  · intro empty
    have written := congrArg String.toList empty
    simp [storeLine] at written
  · simpa [storeLine, bufferName, Term.text] using whole
  · simp only [List.mem_append, List.mem_cons]
    rintro m (member | rfl | member)
    · simp only [elementLexemes, List.mem_cons, List.not_mem_nil, or_false] at member
      rcases member with rfl | rfl | rfl | rfl | rfl | rfl <;> simp
    · simp
    · exact (valueInline m member).1
  · have unequal : ∀ m ∈ elementLexemes p.outputSlot, m ≠ .mark '=' := by simp [elementLexemes]
    have split := readStatement_split vls unequal
    have place := readForm_reads (element_reads p.outputSlot).reads
    have value := readForm_reads valueReads
    unfold readStatement
    rw [split.1, split.2]
    change ((readForm (elementLexemes p.outputSlot)).bind fun place =>
      (readForm vls).map (Statement.store place ·)) = some p.storeStatement
    rw [place, value]
    rfl

theorem readStatements_line {ls rest : List Lexeme} {s : Statement} {ss : List Statement}
    (inline : ∀ l ∈ ls, l ≠ .mark ';') (more : readStatements [] rest = some ss)
    (current : List Lexeme) (read : readStatement (current.reverse ++ ls) = some s) :
    readStatements current (ls ++ .mark ';' :: rest) = some (s :: ss) := by
  induction ls generalizing current with
  | nil =>
    rw [List.append_nil] at read
    simp [readStatements, read, more]
  | cons l ls ih =>
    have head := inline l List.mem_cons_self
    have tail := ih (fun m member => inline m (List.mem_cons_of_mem _ member)) (l :: current)
    rw [List.reverse_cons, List.append_assoc] at tail
    simpa only [List.cons_append, readStatements, head, if_false] using tail read

theorem line_text {b : Indented} (level : b.level = 1) (start : b.atLineStart = true) {line : String}
    (nonempty : line ≠ "") : (b.line line).text = b.text ++ "    " ++ line ++ "\n" ∧
      (b.line line).level = 1 ∧ (b.line line).atLineStart = true := by
  simp [Indented.line, Indented.append, nonempty, start, level, Indented.margin, Indented.newline]

theorem lines_read {lines : List String} {ss : List Statement} (each : List.Forall₂ IsLine lines ss)
    {b : Indented} (level : b.level = 1) (start : b.atLineStart = true) :
    ∃ text ls, (lines.foldl (·.line ·) b).text = b.text ++ text ∧
      lexFrom .blank text.toList = some ls ∧ readStatements [] ls = some ss := by
  induction each generalizing b with
  | nil => exact ⟨"", [], by simp, rfl, rfl⟩
  | @cons line s lines ss first _ ih =>
    obtain ⟨nonempty, ls, spelled, inline, read⟩ := first
    obtain ⟨written, level', start'⟩ := line_text level start nonempty
    obtain ⟨text, ms, rest, lexed, more⟩ := ih level' start'
    refine ⟨"    " ++ line ++ "\n" ++ text, ls ++ .mark ';' :: ms, ?_, ?_,
      readStatements_line inline more [] read⟩
    · rw [List.foldl_cons, rest, written]
      simp only [String.append_assoc]
    · -- A statement ends with its semicolon; the line's end and the next margin are skipped.
      have ended := spelled ('\n' :: text.toList) ms
        (fun c head => by obtain rfl := Option.some.inj head; decide) (lexFrom_newline lexed)
      have spaced := lexFrom_space (lexFrom_space (lexFrom_space (lexFrom_space ended)))
      simpa using spaced

theorem letLines_read {lets : List Let} (readable : ∀ l ∈ lets, l.IsReadable) :
    List.Forall₂ IsLine (letLines lets) (letStatements lets) := by
  unfold letLines letStatements
  generalize 1 = first
  induction lets generalizing first with
  | nil => exact .nil
  | cons l lets ih =>
    exact .cons (letLine_isLine (readable l List.mem_cons_self) first)
      (ih (fun m member => readable m (List.mem_cons_of_mem _ member)) (first + 1))

/-- What no struct changes of a document is left alone by all of them. -/
theorem declareStructs_keep {α : Type} (part : Document → α)
    (kept : ∀ (d : Document) (name : String) (fields : List (String × String)),
      part (d.declareStruct name fields) = part d) (structs : List Struct) (d : Document) :
    part (declareStructs d structs) = part d := by
  induction structs generalizing d with
  | nil => rfl
  | cons s structs ih => exact (ih _).trans (kept d _ _)

theorem declareInputs_keep {α : Type} (part : Document → α)
    (kept : ∀ (d : Document) (slot : Nat) (name element : String) (readOnly : Bool),
      part (d.declareBuffer slot name element readOnly) = part d) (inputs : List Input) (d : Document) :
    part (declareInputs d inputs) = part d := by
  unfold declareInputs
  induction inputs.zipIdx generalizing d with
  | nil => rfl
  | cons i is ih => exact (ih _).trans (kept d _ _ _ _)

theorem document_body (p : Program) :
    p.document.body = (letLines p.lets ++ [p.storeLine]).foldl (·.line ·) (.atLevel 1) := by
  have declared := (declareInputs_keep Document.body (fun _ _ _ _ _ => rfl) p.inputs
    (declareStructs (.new p.workgroupSize) p.structs)).trans
      (declareStructs_keep Document.body (fun _ _ _ => rfl) p.structs _)
  exact congrArg (fun b => (letLines p.lets ++ [p.storeLine]).foldl (·.line ·) b) declared

theorem letLine_ne (number : Nat) (l : Let) : letLine number l ≠ "" :=
  fun empty => absurd (String.append_eq_empty_iff.mp empty).2 (by decide)

theorem storeLine_ne (p : Program) : p.storeLine ≠ "" :=
  fun empty => absurd (String.append_eq_empty_iff.mp empty).2 (by decide)

theorem statementLines_ne (p : Program) : ∀ line ∈ letLines p.lets ++ [p.storeLine], line ≠ "" := by
  intro line member
  rcases List.mem_append.mp member with member | member
  · obtain ⟨l, _, rfl⟩ := List.mem_map.mp member
    exact letLine_ne l.2 l.1
  · rw [List.mem_singleton.mp member]
    exact p.storeLine_ne

theorem readBody_bodyText {p : Program} (readable : ∀ l ∈ p.lets, l.IsReadable) :
    readBody p.bodyText = some p.statements := by
  have each : List.Forall₂ IsLine (letLines p.lets ++ [p.storeLine]) p.statements :=
    List.rel_append (letLines_read readable) (.cons (storeLine_isLine p) .nil)
  obtain ⟨text, ls, written, lexed, read⟩ := lines_read each (b := .atLevel 1) rfl rfl
  have whole : p.bodyText = text := by
    rw [bodyText, document_body, written]
    simp [Indented.atLevel]
  rw [readBody, lex, whole, lexed]
  exact read

end Program
end ArrayQuery.Kernel
