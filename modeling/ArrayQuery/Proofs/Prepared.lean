import ArrayQuery.Device.Run
import ArrayQuery.Proofs.Outcomes
import ArrayQuery.Proofs.Strides

/-! What a query is prepared to. The inputs come with their data and the output without any; and an
element of the output takes space, since the kernel language has no structs without members. -/

set_option autoImplicit false
namespace ArrayQuery

/-- Whether a compiler keeps to the kernel language, in which a struct has at least one member. -/
def ShaderCompiler.IsStrict (compiler : ShaderCompiler) : Prop :=
  ∀ ⦃workgroupSize : Nat⦄ ⦃root : Expr⦄ ⦃p : Kernel.Program⦄ ⦃shader : ShaderModule⦄,
    Kernel.compile workgroupSize root = .ok p → compiler (.ofProgram p) = .ok shader →
    ∀ s ∈ p.structs, s.fields ≠ []

namespace Kernel

open Compile

/-- A record that nothing is in is declared by a struct without members, or has such a record
inside. -/
theorem Arranged.hollow {d : Draft} (arranged : Arranged d) {j : Nat} :
    ∀ {r : RecordType}, DeclaresAt d.records d.structs j r → r.type.leaves = [] →
      ∃ s ∈ d.structs, s.fields = [] := by
  -- The records inside a record are declared before it, so the search ends.
  induction j using Nat.strong_induction_on with
  | _ j ih =>
    rintro ⟨name, fields⟩ declared none
    cases fields with
    | nil =>
      obtain ⟨_, s, _, place, declares⟩ := declared
      exact ⟨s, List.mem_of_getElem? place, List.forall₂_nil_left_iff.mp declares.members⟩
    | cons field rest =>
      obtain ⟨label, t⟩ := field
      have inner : t.leaves = [] := (List.append_eq_nil_iff.mp none).1
      cases t with
      | leaf l => cases inner
      | record inside more =>
        obtain ⟨i, before, deeper⟩ :=
          arranged.fields (s := ⟨inside, more⟩) declared List.mem_cons_self rfl
        exact ih i before deeper inner

section Compiled

variable {root : Expr} {workgroupSize : Nat} {p : Program}

theorem compile_result (compiled : compile workgroupSize root = .ok p) :
    p.result.type = root.type := by
  obtain ⟨result, storage, d, rooted, rfl⟩ := compile_ok compiled
  obtain ⟨_, _, _, _, rfl, _⟩ := root_ok rooted
  rfl

theorem compile_hollow (compiled : compile workgroupSize root = .ok p)
    (none : root.type.leaves = []) : ∃ s ∈ p.structs, s.fields = [] := by
  obtain ⟨result, storage, d, rooted, rfl⟩ := compile_ok compiled
  have arranged := root_arranged rooted
  obtain ⟨_, _, _, _, _, stored⟩ := root_ok rooted
  have spelled := (storageType_ok.mp stored).2
  generalize root.type = t at none spelled
  cases t with
  | leaf l => cases none
  | record name fields =>
    rw [RecordNames.storageOf, if_neg nofun] at spelled
    obtain ⟨_, named, _⟩ := RecordNames.typeOf_record_ok.mp spelled
    obtain ⟨j, place, _⟩ := arranged.complete named
    exact arranged.hollow place none

end Compiled

theorem unlines_inside {xs ys : List String} (inside : xs <:+: ys) :
    (unlines xs).toList <:+: (unlines ys).toList := by
  obtain ⟨before, after, rfl⟩ := inside
  rw [unlines_append, unlines_append, String.toList_append, String.toList_append]
  exact List.infix_append _ _ _

theorem toList_unlines (lines : List String) :
    (unlines lines).toList = lines.flatMap fun line => line.toList ++ ['\n'] := by
  induction lines with
  | nil => rfl
  | cons line rest ih =>
    rw [unlines, String.toList_append, String.toList_append, ih]
    rfl

theorem Program.text_hollow {p : Program} {s : Struct} (member : s ∈ p.structs)
    (empty : s.fields = []) : " \x7b\n\x7d".toList <:+: p.text.toList := by
  have own : structLines s <:+: p.structs.flatMap structLines := by
    obtain ⟨before, after, split⟩ := List.append_of_mem member
    rw [split, List.flatMap_append, List.flatMap_cons, ← List.append_assoc]
    exact List.infix_append _ _ _
  have text : (unlines (structLines s)).toList =
      ("struct ".toList ++ s.name.toList) ++ (" \x7b\n\x7d".toList ++ ['\n']) := by
    rw [structLines, empty]
    simp only [List.map_nil, List.cons_append, List.nil_append, unlines, String.toList_append,
      List.append_assoc]
    rfl
  have shown : " \x7b\n\x7d".toList <:+: (unlines (structLines s)).toList := by
    rw [text, ← List.append_assoc]
    exact List.infix_append _ _ _
  rw [text_lines]
  exact shown.trans (unlines_inside (own.trans p.structLines_isInfix))

end Kernel

namespace ShaderCompiler

def memberwise : ShaderCompiler := fun q =>
  if " \x7b\n\x7d".toList <:+: q.source.toList then
    .error (.shaderCompile "invalid kernel" "structs have at least one member")
  else accepting q

theorem memberwise_isStrict : memberwise.IsStrict := by
  intro workgroupSize root p shader _ accepted s member empty
  have refused : memberwise (.ofProgram p) = .error _ := if_pos (Kernel.Program.text_hollow member empty)
  cases refused.symm.trans accepted

/-- The lines of a kernel are enough to see that there is nothing wrong with it. -/
theorem memberwise_accepts {p : Kernel.Program}
    (members : ¬" \x7b\n\x7d".toList <:+: p.lines.flatMap fun line => line.toList ++ ['\n']) :
    memberwise (.ofProgram p) = accepting (.ofProgram p) := by
  refine if_neg ?_
  show ¬" \x7b\n\x7d".toList <:+: p.text.toList
  rwa [Kernel.Program.text_lines, Kernel.toList_unlines]

end ShaderCompiler

namespace ExecutionContext

structure Stocked (c : ExecutionContext) : Prop where
  supplied : ∀ b ∈ c.inputs, b.host.isSome = true
  layout : c.output.layout = .of c.output.element
  positive : 0 < c.output.element.hostStride

structure Untouched (c : ExecutionContext) : Prop where
  stocked : c.Stocked
  fresh : ∀ b ∈ c.buffers, b.isInitialized = false
  resultless : c.output.host = none

end ExecutionContext

namespace DeviceHandle

variable {h : DeviceHandle} {compiler : ShaderCompiler} {root : Expr} {c : ExecutionContext}

theorem prepare_ok : h.prepare compiler root = .ok c ↔ ∃ p shader,
    Kernel.compile h.config.workgroupSize root = .ok p ∧ compiler (.ofProgram p) = .ok shader ∧
      c = ⟨(CompiledQuery.ofProgram p).inputs, (CompiledQuery.ofProgram p).output, shader,
        p.workgroupSize⟩ := by
  unfold prepare CompiledQuery.compile
  cases compiled : Kernel.compile h.config.workgroupSize root with
  | error e => simp [Except.map, bind, Except.bind]
  | ok p =>
    cases accepted : compiler (.ofProgram p) with
    | error e => simp [Except.map, bind, Except.bind, accepted]
    | ok shader =>
      simp only [Except.map, bind, Except.bind, accepted]
      constructor
      · intro prepared
        exact ⟨p, shader, rfl, accepted, (Except.ok.inj prepared).symm⟩
      · rintro ⟨_, _, ⟨⟩, accepted', rfl⟩
        cases accepted.symm.trans accepted'
        rfl

theorem inputs_ofProgram {p : Kernel.Program} {b : Buffer}
    (member : b ∈ (CompiledQuery.ofProgram p).inputs) : ∃ slot a, b = .input slot a := by
  obtain ⟨i, _, rfl⟩ := List.mem_map.mp member
  exact ⟨_, _, rfl⟩

theorem prepare_fresh (prepared : h.prepare compiler root = .ok c) :
    ∀ b ∈ c.buffers, b.isInitialized = false := by
  obtain ⟨p, shader, compiled, accepted, rfl⟩ := prepare_ok.mp prepared
  refine ExecutionContext.forall_buffers.mpr ⟨fun b member => ?_, rfl⟩
  obtain ⟨slot, a, rfl⟩ := inputs_ofProgram member
  rfl

theorem prepare_untouched (strict : compiler.IsStrict) (prepared : h.prepare compiler root = .ok c) :
    c.Untouched := by
  have fresh := prepare_fresh prepared
  obtain ⟨p, shader, compiled, accepted, rfl⟩ := prepare_ok.mp prepared
  have nonempty : root.type.leaves ≠ [] := by
    intro none
    obtain ⟨s, member, empty⟩ := Kernel.compile_hollow compiled none
    exact strict compiled accepted s member empty
  refine ⟨⟨?_, rfl, ?_⟩, fresh, rfl⟩
  · intro b member
    obtain ⟨slot, a, rfl⟩ := inputs_ofProgram member
    rfl
  · show 0 < p.result.type.hostStride
    rw [Kernel.compile_result compiled]
    exact ElementType.size_pos .host _ nonempty

end DeviceHandle

def wordsQuery : Expr :=
  let w : Parameter := ⟨"w", .u32⟩
  .select 2 (.array ⟨1, .ofList [(5 : UInt32), 7, 9]⟩) [w]
    (.binary .mul (.parameter w) (.parameter w) .u32)

def wordsKernel : Kernel.Program :=
  let w : Kernel.Operand := ⟨.buffer 0, .u32⟩
  ⟨256, [], [⟨1, .ofList [(5 : UInt32), 7, 9], .u32⟩], [⟨.u32, .binary .mul w.term w.term⟩],
    ⟨.step 1, .u32⟩, .u32⟩

theorem wordsQuery_compiled : Kernel.compile 256 wordsQuery = .ok wordsKernel := rfl

end ArrayQuery
