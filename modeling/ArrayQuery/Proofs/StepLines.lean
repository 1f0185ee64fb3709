import ArrayQuery.Proofs.Lines
import ArrayQuery.Proofs.Traces

/-! The body of a kernel: one line for each operator of the query, which reads nothing but the values of
the lines of its own sources and the inputs, and one line that stores the value of the last. -/

set_option autoImplicit false
namespace ArrayQuery.Kernel

open Compile

theorem emit_reads {node body : Expr} {tag : Tag} {params : List Parameter} {inputs : List Operand}
    {d e : Draft} {o : Operand} (distinct : d.records.Distinct)
    (run : emit node tag params body inputs d = .ok (o, e)) :
    ∃ l, e.lets = d.lets ++ [l] ∧ l.type.IsNamed ∧ l.value.Reads fun v =>
      (∃ input ∈ inputs, input.target = v) ∨ ∃ slot < e.inputs.length, v = .buffer slot := by
  obtain ⟨_, k, b, value, c, typed, translated, _, rfl⟩ := emit_ok run
  obtain ⟨declared, known⟩ := valueType_ok.mp typed
  have distinct' := declare_distinct node _ d () b declared distinct
  refine ⟨⟨k, value⟩, ?_, RecordNames.typeOf_named distinct' known, ?_⟩
  · dsimp only
    rw [(translate_grows translated).lets, (declare_grows declared).lets]
  · refine (translate_reads body distinct' translated).mono (fun v => ?_) value
    rintro (⟨p, member, rfl⟩ | buffer)
    · exact .inl ⟨p.2, mem_scopeOf member, rfl⟩
    · exact .inr buffer

/-- What the line of an operator may read: the values of its sources, which are those of earlier
operators, and the inputs. -/
def MayRead (nodes : List Expr) (inputs : Nat) (k : Nat) (node : Expr) (v : Variable) : Prop :=
  (∃ slot < inputs, v = .buffer slot) ∨
    ∃ m < k, ∃ source ∈ node.operands, nodes[m]? = some source ∧ v = .step (m + 1)

theorem Emitted.value {before : List Expr} {node : Expr} {d e : Draft}
    (emitted : Emitted before node d e) (distinct : d.records.Distinct) :
    ∃ l, e.lets = d.lets ++ [l] ∧ l.type.IsNamed ∧ l.value.Reads fun v =>
      (∃ source ∈ node.operands, ∃ o, Stands before d source o ∧ o.target = v) ∨
        ∃ slot < e.inputs.length, v = .buffer slot := by
  cases emitted with
  | @select _ source _ _ x _ _ _ stands run =>
    obtain ⟨l, lets, named, reads⟩ := emit_reads distinct run
    refine ⟨l, lets, named, reads.mono (fun v => Or.imp_left ?_) l.value⟩
    rintro ⟨o, member, target⟩
    obtain rfl := List.mem_singleton.mp member
    exact ⟨source, List.mem_cons_self, o, stands, target⟩
  | @zip _ first second _ _ x y _ _ _ left right run =>
    obtain ⟨l, lets, named, reads⟩ := emit_reads distinct run
    refine ⟨l, lets, named, reads.mono (fun v => Or.imp_left ?_) l.value⟩
    rintro ⟨o, member, target⟩
    rcases List.mem_cons.mp member with rfl | member
    · exact ⟨first, List.mem_cons_self, o, left, target⟩
    · obtain rfl := List.mem_singleton.mp member
      exact ⟨second, List.mem_cons_of_mem _ List.mem_cons_self, o, right, target⟩

theorem Emitted.onward {before : List Expr} {node : Expr} {d e : Draft}
    (emitted : Emitted before node d e) : Onward d e := by
  cases emitted with
  | select _ run => exact emit_onward run
  | zip _ _ run => exact emit_onward run

theorem Stands.mayRead {nodes : List Expr} {k : Nat} {d e : Draft} {node source : Expr}
    {o : Operand} (stands : Stands (nodes.take k) d source o) (operand : source ∈ node.operands)
    (later : Later d e) : MayRead nodes e.inputs.length k node o.target := by
  cases stands with
  | array bound counted =>
    obtain ⟨i, found, _⟩ := Option.map_eq_some_iff.mp bound
    have inside := (List.getElem?_eq_some_iff.mp found).1
    exact .inl ⟨_, inside.trans_le later.inputs.length_le, rfl⟩
  | @operator _ m known query =>
    rw [List.getElem?_take] at known
    split at known
    · next before => exact .inr ⟨m, before, source, operand, known, rfl⟩
    · exact nomatch known

theorem Traced.value {root : Expr} {nodes : List Expr} {d : Draft} (traced : Traced root nodes d)
    {k : Nat} {node : Expr} (known : nodes[k]? = some node) :
    ∃ l, d.lets[k]? = some l ∧ l.type.IsNamed ∧
      l.value.Reads (MayRead nodes d.inputs.length k node) := by
  -- The operator was compiled in a draft with as many values as its place in the list.
  obtain ⟨c, e, steady, rfl, emitted, onward⟩ := traced.emitted k node known
  obtain ⟨l, lets, named, reads⟩ := emitted.value steady.sound.distinct
  refine ⟨l, ?_, named, reads.mono (fun v => ?_) l.value⟩
  · have place : e.lets[c.lets.length]? = some l := by
      rw [lets, List.getElem?_concat_length]
    exact getElem?_extends onward.lets place
  · rintro (⟨source, operand, o, stands, rfl⟩ | ⟨slot, inside, rfl⟩)
    · exact stands.mayRead operand (emitted.onward.trans onward).toLater
    · exact .inl ⟨slot, inside.trans_le onward.inputs.length_le, rfl⟩

/-- Whether a line declares the value of an operator, and reads nothing but what it may. -/
structure IsStepLine (nodes : List Expr) (inputs : Nat) (k : Nat) (node : Expr) (line : String) :
    Prop where
  inline : '\n' ∉ line.toList
  bind : ∃ rest, line = "let " ++ (Variable.step (k + 1)).name ++ ": " ++ rest
  reads : ∃ names, mentions line = (Variable.step (k + 1)).name :: names ∧
    ∀ name ∈ names, ∃ v, MayRead nodes inputs k node v ∧ name = v.name

theorem generated_variable (v : Variable) : generated v.name.toList = [v.name.toList] := by
  rw [generated_word (wordChars_of_isWord (variable_isWord v)),
    List.filter_cons_of_pos (variable_generated v), List.filter_nil]

theorem letLine_isStepLine {nodes : List Expr} {inputs k : Nat} {node : Expr} {l : Let}
    (named : l.type.IsNamed) (reads : l.value.Reads (MayRead nodes inputs k node)) :
    IsStepLine nodes inputs k node (Program.letLine (k + 1) l) := by
  have text : (Program.letLine (k + 1) l).toList = "let".toList ++ ' ' ::
      ((Variable.step (k + 1)).name.toList ++ ':' :: (' ' :: (l.type.text.toList ++ ' ' ::
        ('=' :: (' ' :: (l.value.text.toList ++ [';'])))))) := by
    simp [Program.letLine]
  have value := l.value.text_names reads
  have typed : Names (fun _ => False) l.type.text.toList := names_type named
  -- The type is spelled with names that are free, none of which is given out for a value.
  have quiet : generated l.type.text.toList = [] := by
    refine List.eq_nil_iff_forall_not_mem.mpr fun word member => ?_
    obtain ⟨_, none, _⟩ := typed.named word member
    exact none
  refine ⟨?_, ⟨l.type.text ++ " = " ++ l.value.text ++ ";", ?_⟩, ?_⟩
  · have name := wordChars_inline (wordChars_of_isWord (variable_isWord (.step (k + 1))))
    rw [text]
    simp [name, typed.inline, value.inline]
  · simp only [Program.letLine, String.append_assoc]
  · refine ⟨(generated l.value.text.toList).map String.ofList, ?_, ?_⟩
    · -- The words of the line are those of its parts, which marks and spaces keep apart.
      rw [mentions_eq, text, generated_split (by decide), generated_split (by decide),
        generated_cons (by decide), generated_split (by decide), generated_cons (by decide),
        generated_cons (by decide), generated_concat (by decide), generated_variable, quiet]
      simp [show generated ['l', 'e', 't'] = [] by decide]
    · intro name member
      obtain ⟨word, held, rfl⟩ := List.mem_map.mp member
      obtain ⟨v, allowed, rfl⟩ := value.named word held
      exact ⟨v, allowed, String.ofList_toList⟩

def IsStoreLine (outputSlot number : Nat) (line : String) : Prop :=
  ∃ value, (value = (Variable.step number).name ∨
      value = "u32(" ++ (Variable.step number).name ++ ")") ∧
    line = Program.bufferName outputSlot ++ "[gid.x] = " ++ value ++ ";"

theorem storeLine_isStoreLine {p : Program} {number : Nat} (target : p.result.target = .step number) :
    IsStoreLine p.outputSlot number p.storeLine := by
  have term : p.result.term = .step number := by rw [Operand.term, target]
  refine ⟨(Program.stored p.result).text, ?_, ?_⟩
  · unfold Program.stored
    rw [term]
    split
    · exact .inr (by simp [Term.text, Term.textAll, Callee.text, KernelType.text])
    · exact .inl rfl
  · simp [Program.storeLine, invocation, String.append_assoc]

theorem IsStoreLine.inline {outputSlot number : Nat} {line : String}
    (stored : IsStoreLine outputSlot number line) : IsInline line := by
  have inline : ∀ v : Variable, IsInline v.name := fun v => (Program.variable_quiet v).inline
  obtain ⟨value, rfl | rfl, rfl⟩ := stored
  · simp only [isInline_append, Program.bufferName, inline]
    decide
  · simp only [isInline_append, Program.bufferName, inline]
    decide

theorem RecordNames.storageOf_named {names : RecordNames} (distinct : names.Distinct) {t : ElementType}
    {k : KernelType} (found : names.storageOf t = .ok k) : k.IsNamed := by
  unfold RecordNames.storageOf at found
  split at found
  · obtain rfl := Except.ok.inj found
    simp [KernelType.IsNamed, KernelType.builtin]
  · exact typeOf_named distinct found

theorem Sound.struct_named {d : Draft} (sound : Sound d) {s : Struct} (member : s ∈ d.structs) :
    IsFree s.name ∧ ∀ m ∈ s.fields, IsFree m.1 ∧ m.2.IsNamed := by
  obtain ⟨named, assigned, declares⟩ := exists_of_forall₂ sound.structs member
  refine ⟨?_, fun m held => ?_⟩
  · rw [declares.name]
    exact sound.distinct.free _ (List.mem_map_of_mem assigned)
  · obtain ⟨field, _, name, typed⟩ := exists_of_forall₂ declares.members held
    rw [name]
    exact ⟨identifier_free _, RecordNames.typeOf_named sound.distinct typed⟩

/-- Whether lines are those of the operators of a query, in the order in which the operators are
listed: each operator once, and the query itself last. -/
structure AreStepLines (root : Expr) (inputs : Nat) (nodes : List Expr) (lines : List String) :
    Prop where
  once : (nodes.map Expr.stepTag?).Nodup
  all : ∀ q, q ∈ nodes ↔ q ∈ root.queries
  last : nodes.getLast? = some root
  length : lines.length = nodes.length
  each : ∀ k node line, nodes[k]? = some node → lines[k]? = some line →
    IsStepLine nodes inputs k node line

section Compiled

variable {root : Expr} {workgroupSize : Nat} {p : Program}

theorem getElem?_letLines (lets : List Let) (k : Nat) :
    (Program.letLines lets)[k]? = lets[k]?.map (Program.letLine (k + 1)) := by
  rw [Program.letLines, List.getElem?_map, List.getElem?_zipIdx, Option.map_map, Nat.add_comm]
  rfl

theorem compile_letLines (faithful : root.Faithful) (compiled : compile workgroupSize root = .ok p) :
    ∃ nodes, AreStepLines root p.inputs.length nodes (Program.letLines p.lets) ∧
      p.result.target = .step nodes.length := by
  obtain ⟨nodes, _, _, d, _, _, _, _, traced, all, last, _, rfl⟩ := compile_traced faithful compiled
  refine ⟨nodes, ⟨traced.distinct, all, last, ?_, fun k node line known found => ?_⟩, rfl⟩
  · rw [Program.letLines, List.length_map, List.length_zipIdx, traced.length]
  · obtain ⟨l, value, named, reads⟩ := traced.value known
    rw [getElem?_letLines, value] at found
    obtain rfl := Option.some.inj found
    exact letLine_isStepLine named reads

theorem compile_named (compiled : compile workgroupSize root = .ok p) : p.IsNamed := by
  obtain ⟨result, storage, d, rooted, rfl⟩ := compile_ok compiled
  obtain ⟨_, o, c, stepped, _, stored⟩ := root_ok rooted
  obtain ⟨declared, known⟩ := storageType_ok.mp stored
  have sound := declare_sound root _ ((steps_of_step root stepped).sound sound_start) declared
  refine ⟨fun _ => sound.struct_named, fun i member => ?_, ?_⟩
  · exact RecordNames.storageOf_named sound.distinct (sound.storage i member)
  · exact RecordNames.storageOf_named sound.distinct known

theorem compile_spelled (faithful : root.Faithful) (compiled : compile workgroupSize root = .ok p) :
    p.IsSpelled := by
  obtain ⟨nodes, lets, target⟩ := compile_letLines faithful compiled
  refine ⟨compile_named compiled, fun line member => ?_⟩
  rcases List.mem_append.mp member with member | member
  · obtain ⟨k, found⟩ := List.getElem?_of_mem member
    have inside : k < nodes.length := lets.length ▸ (List.getElem?_eq_some_iff.mp found).1
    exact (lets.each k _ line (List.getElem?_eq_getElem inside) found).inline
  · rw [List.mem_singleton.mp member]
    exact (storeLine_isStoreLine target).inline

theorem Program.mem_bufferLines {slot : Nat} {i : Input} (bound : p.inputs[slot]? = some i) :
    Program.bufferLine slot i.storage.text "read" ∈ p.bufferLines := by
  have held : (i, slot) ∈ p.inputs.zipIdx := List.mem_zipIdx_iff_getElem?.mpr bound
  unfold Program.bufferLines
  exact List.mem_append_left _ (List.mem_map.mpr ⟨(i, slot), held, rfl⟩)

theorem Program.mem_headLines {line : String} (member : line ∈ p.bufferLines) :
    line ∈ p.headLines := by
  unfold Program.headLines
  exact List.mem_cons_of_mem _
    (List.mem_append_left _ (List.mem_append_right _ (List.mem_cons_of_mem _ member)))

/-- The body of a kernel has one line for each operator of its query, however often the operator is
used, and after them one line that stores the value of the query. A line reads the values of earlier
lines, which are those of its own sources, and declared inputs. -/
theorem compile_body (faithful : root.Faithful) (compiled : compile workgroupSize root = .ok p) :
    ∃ nodes, AreStepLines root p.inputs.length nodes (Program.letLines p.lets) ∧
      IsStoreLine p.outputSlot nodes.length p.storeLine ∧
      readLines p.text = p.headLines ++ Program.entryLines p.outputSlot ++
        (Program.letLines p.lets ++ [p.storeLine]).map ("    " ++ ·) ++ ["\x7d", ""] ∧
      ∀ slot < p.inputs.length, ∃ element, Program.bufferLine slot element "read" ∈ p.headLines := by
  obtain ⟨nodes, lets, target⟩ := compile_letLines faithful compiled
  refine ⟨nodes, lets, storeLine_isStoreLine target, ?_, fun slot inside => ?_⟩
  · rw [Program.readLines_text (compile_spelled faithful compiled), Program.lines, Program.bodyLines,
      List.append_assoc _ _ [""]]
    rfl
  · exact ⟨_, Program.mem_headLines (Program.mem_bufferLines (List.getElem?_eq_getElem inside))⟩

end Compiled

def doubledQuery : Expr :=
  let values : SharedArray := ⟨1, .ofList [(5 : Int32), -7, 9]⟩
  let x : Parameter := ⟨"x", .i32⟩
  let y : Parameter := ⟨"y", .i32⟩
  let squares := Expr.select 2 (.array values) [x] (.binary .mul (.parameter x) (.parameter x) .i32)
  .zip 3 squares squares [x, y] (.binary .add (.parameter x) (.parameter y) .i32)

theorem doubledQuery_faithful : doubledQuery.Faithful := by
  constructor <;>
  · simp [doubledQuery, Expr.queries, Expr.arrays, Expr.stepTag?]

/-- The squares are used twice, and have one line. -/
theorem doubledQuery_body : ∃ p nodes, compile 64 doubledQuery = .ok p ∧
    AreStepLines doubledQuery 1 nodes
      ["let v1: i32 = (buf0[gid.x] * buf0[gid.x]);", "let v2: i32 = (v1 + v1);"] ∧
    IsStoreLine 1 nodes.length "buf1[gid.x] = v2;" ∧
    readLines p.text = p.headLines ++ Program.entryLines 1 ++
      ["    let v1: i32 = (buf0[gid.x] * buf0[gid.x]);", "    let v2: i32 = (v1 + v1);",
        "    buf1[gid.x] = v2;", "\x7d", ""] := by
  have compiled : compile 64 doubledQuery = .ok _ := rfl
  obtain ⟨nodes, lets, store, text, _⟩ := compile_body doubledQuery_faithful compiled
  exact ⟨_, nodes, compiled, lets, store, text⟩

end ArrayQuery.Kernel
