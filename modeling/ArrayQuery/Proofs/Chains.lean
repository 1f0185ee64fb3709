import ArrayQuery.Device.Run
import ArrayQuery.Proofs.StepLines

/-! Chains of queries. What a query goes on from is compiled first, into a kernel that is still empty, and
everything after it only adds to that kernel: the longer one starts as the shorter one does. -/

set_option autoImplicit false
namespace ArrayQuery

/-- Whether a query goes on from another one, as the source of a `select` or the first source of a `zip`,
by any number of operators. -/
inductive Expr.Continues (q : Expr) : Expr → Prop where
  | self : Expr.Continues q q
  | select {source : Expr} (tag : Tag) (params : List Parameter) (body : Expr)
      (chain : Expr.Continues q source) : Expr.Continues q (.select tag source params body)
  | zip {first : Expr} (tag : Tag) (second : Expr) (params : List Parameter) (body : Expr)
      (chain : Expr.Continues q first) : Expr.Continues q (.zip tag first second params body)

namespace Kernel

open Compile

theorem declare_typed {node : Expr} {t : ElementType} {d e : Draft} {k : KernelType}
    (typed : d.records.typeOf t = .ok k) (run : declare node t d = .ok ((), e)) : e = d := by
  cases t with
  | leaf l => exact declare_leaf run
  | record name fields =>
    rcases declare_record_ok run with ⟨_, same⟩ | ⟨absent, _⟩
    · exact same
    · simp [RecordNames.typeOf, RecordNames.require, absent, Except.map] at typed

theorem emit_typed {node body : Expr} {tag : Tag} {params : List Parameter} {inputs : List Operand}
    {d e : Draft} {o : Operand} (run : emit node tag params body inputs d = .ok (o, e)) :
    ∃ k, e.records.typeOf body.type = .ok k := by
  obtain ⟨_, k, b, value, c, typed, translated, _, rfl⟩ := emit_ok run
  have known := (valueType_ok.mp typed).2
  exact ⟨k, RecordNames.typeOf_extends (translate_grows translated).records known⟩

theorem step_typed {q : Expr} (query : q.isQuery = true) {d : Draft} {o : Operand}
    (run : step q {} = .ok (o, d)) : ∃ k, d.records.typeOf q.type = .ok k := by
  cases q with
  | select tag source params body =>
    rcases step_select_ok run with ⟨found, _⟩ | ⟨_, _, _, _, last⟩
    · exact nomatch found
    · obtain ⟨k, typed⟩ := emit_typed last
      exact ⟨k, typed⟩
  | zip tag first second params body =>
    rcases step_zip_ok run with ⟨found, _⟩ | ⟨_, _, _, _, _, _, _, last⟩
    · exact nomatch found
    · obtain ⟨k, typed⟩ := emit_typed last
      exact ⟨k, typed⟩
  | _ => exact nomatch query

theorem compile_step {q : Expr} {workgroupSize : Nat} {p : Program}
    (compiled : compile workgroupSize q = .ok p) :
    ∃ o d, step q {} = .ok (o, d) ∧ p.structs = d.structs ∧ p.inputs = d.inputs ∧ p.lets = d.lets := by
  obtain ⟨_, _, e, rooted, rfl⟩ := compile_ok compiled
  obtain ⟨query, o, d, stepped, _, stored⟩ := root_ok rooted
  obtain ⟨k, typed⟩ := step_typed query stepped
  obtain rfl := declare_typed typed (storageType_ok.mp stored).1
  exact ⟨o, _, stepped, rfl, rfl, rfl⟩

/-- A query that goes on from another one is compiled by way of it. Nothing has been compiled before, so
that the one it goes on from is not found among the operators that have been. -/
theorem step_continues {q r : Expr} (chain : q.Continues r) {e : Draft} {o : Operand}
    (run : step r {} = .ok (o, e)) : ∃ x d, step q {} = .ok (x, d) ∧ Later d e := by
  induction chain generalizing e o with
  | self => exact ⟨o, e, run, .refl e⟩
  | select tag params body _ ih =>
    rcases step_select_ok run with ⟨found, _⟩ | ⟨_, _, c, first, last⟩
    · exact nomatch found
    · obtain ⟨x, d, start, later⟩ := ih first
      exact ⟨x, d, start, later.trans (emit_later last)⟩
  | zip tag second params body _ ih =>
    rcases step_zip_ok run with ⟨found, _⟩ | ⟨_, _, _, b, c, first, other, last⟩
    · exact nomatch found
    · obtain ⟨x, d, start, later⟩ := ih first
      have between := (steps_of_step second other).later
      exact ⟨x, d, start, later.trans (between.trans (emit_later last))⟩

namespace Program

def inputLines (p : Program) : List String :=
  p.inputs.zipIdx.map fun i => bufferLine i.2 i.1.storage.text "read"

structure Starts (p longer : Program) : Prop where
  structs : p.structs <+: longer.structs
  inputs : p.inputs <+: longer.inputs
  lets : p.lets <+: longer.lets

theorem zipIdx_starts {α : Type} {xs ys : List α} (n : Nat) (more : xs <+: ys) :
    xs.zipIdx n <+: ys.zipIdx n := by
  obtain ⟨rest, rfl⟩ := more
  rw [List.zipIdx_append]
  exact List.prefix_append _ _

variable {p longer : Program}

theorem Starts.structLines (starts : Starts p longer) :
    p.structs.map structLines <+: longer.structs.map structLines :=
  starts.structs.map _

theorem Starts.inputLines (starts : Starts p longer) : p.inputLines <+: longer.inputLines :=
  (zipIdx_starts 0 starts.inputs).map _

theorem Starts.letLines (starts : Starts p longer) : letLines p.lets <+: letLines longer.lets :=
  (zipIdx_starts 1 starts.lets).map _

theorem Starts.buffers (starts : Starts p longer) :
    (CompiledQuery.ofProgram p).inputs <+: (CompiledQuery.ofProgram longer).inputs :=
  (zipIdx_starts 0 starts.inputs).map _

end Program

theorem compile_starts {q r : Expr} (chain : q.Continues r) {workgroupSize : Nat} {p longer : Program}
    (first : compile workgroupSize q = .ok p) (second : compile workgroupSize r = .ok longer) :
    p.Starts longer := by
  obtain ⟨_, e, run, structs', inputs', lets'⟩ := compile_step second
  obtain ⟨_, d, start, later⟩ := step_continues chain run
  obtain ⟨_, d', own, structs, inputs, lets⟩ := compile_step first
  -- Both kernels compile the shorter query from nothing, with the same outcome.
  obtain ⟨rfl, rfl⟩ : _ ∧ d' = d := by simpa using own.symm.trans start
  exact ⟨by rw [structs, structs']; exact later.structs, by rw [inputs, inputs']; exact later.inputs,
    by rw [lets, lets']; exact later.lets⟩

theorem compiled_program {c : Config} {q : Expr} {k : CompiledQuery}
    (compiled : CompiledQuery.compile c q = .ok k) :
    ∃ p, compile c.workgroupSize q = .ok p ∧ k = .ofProgram p := by
  unfold CompiledQuery.compile at compiled
  cases run : compile c.workgroupSize q with
  | error => simp [run, Except.map] at compiled
  | ok p => exact ⟨p, rfl, by simpa [run, Except.map] using compiled.symm⟩

/-- A query that goes on from another one, both of which compile, is bound to the inputs of the other,
to the same slots, before any of its own. Its kernel declares the structs and the inputs of the other
kernel first and in the same lines, and its first values are on the lines of the other's values. -/
theorem compile_continues {q r : Expr} (chain : q.Continues r) {c : Config} {k l : CompiledQuery}
    (first : CompiledQuery.compile c q = .ok k) (second : CompiledQuery.compile c r = .ok l) :
    k.inputs <+: l.inputs ∧ ∃ p longer : Program,
      compile c.workgroupSize q = .ok p ∧ compile c.workgroupSize r = .ok longer ∧
        k.source = unlines p.lines ∧ l.source = unlines longer.lines ∧
        p.structs.map Program.structLines <+: longer.structs.map Program.structLines ∧
        p.inputLines <+: longer.inputLines ∧
        Program.letLines p.lets <+: Program.letLines longer.lets := by
  obtain ⟨p, ran, rfl⟩ := compiled_program first
  obtain ⟨longer, ran', rfl⟩ := compiled_program second
  have starts := compile_starts chain ran ran'
  exact ⟨starts.buffers, p, longer, ran, ran', p.text_lines, longer.text_lines, starts.structLines,
    starts.inputLines, starts.letLines⟩

def pairsQuery : Expr :=
  let pair : RecordType := ⟨"pair", [("a", .i32), ("b", .i32)]⟩
  let x := Expr.parameter ⟨"x", .i32⟩
  .select 2 (.array ⟨1, .ofList [(5 : Int32), -7, 9]⟩) [⟨"x", .i32⟩] (.construct pair [x, x])

def differencesQuery : Expr :=
  let pair : RecordType := ⟨"pair", [("a", .i32), ("b", .i32)]⟩
  let a := Expr.member (.parameter ⟨"p", pair.type⟩) "a" .i32
  .zip 4 pairsQuery (.array ⟨3, .ofList [(1 : Int32), 2, 3]⟩) [⟨"p", pair.type⟩, ⟨"y", .i32⟩]
    (.binary .sub a (.parameter ⟨"y", .i32⟩) .i32)

theorem differencesQuery_continues : pairsQuery.Continues differencesQuery ∧
    ∃ k l, CompiledQuery.compile {} pairsQuery = .ok k ∧
      CompiledQuery.compile {} differencesQuery = .ok l ∧ k.inputs <+: l.inputs ∧
      ∃ p longer : Program, compile 256 pairsQuery = .ok p ∧ compile 256 differencesQuery = .ok longer ∧
        k.source = unlines p.lines ∧ l.source = unlines longer.lines ∧
        p.structs.map Program.structLines <+: longer.structs.map Program.structLines ∧
        p.inputLines <+: longer.inputLines ∧
        Program.letLines p.lets <+: Program.letLines longer.lets := by
  have chain : pairsQuery.Continues differencesQuery := .zip _ _ _ _ .self
  have first : CompiledQuery.compile {} pairsQuery = .ok _ := rfl
  have second : CompiledQuery.compile {} differencesQuery = .ok _ := rfl
  exact ⟨chain, _, _, first, second, compile_continues chain first second⟩

end Kernel
end ArrayQuery
