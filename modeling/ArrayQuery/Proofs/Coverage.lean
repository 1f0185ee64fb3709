import ArrayQuery.Proofs.Acceptance
import ArrayQuery.Proofs.Strides

/-! Invocations and elements. A dispatch rounds up to whole workgroups; the guard of the kernel lets an
invocation for each element through, and no others. -/

set_option autoImplicit false
namespace ArrayQuery

namespace Kernel

def entryLine : String :=
  "fn main(@builtin(global_invocation_id) gid: vec3<u32>) \x7b"

def mainLines (text : String) : List String :=
  ((readLines text).dropWhile (· != entryLine)).tail

def guardLine (buffer : String) : String :=
  "    if (gid.x >= arrayLength(&" ++ buffer ++ ")) \x7b"

def guardLines (buffer : String) : List String :=
  [guardLine buffer, "        return;", "    \x7d"]

/-- Whether an invocation gets past all guards in some lines, where the arrays in the buffers have the
given lengths. -/
def Passes (length : String → Nat) (gid : UInt32) (lines : List String) : Prop :=
  ∀ buffer, guardLines buffer <:+: lines → gid.toNat < length buffer

namespace Program

theorem structLines_start (s : Struct) : ∀ line ∈ structLines s, charAt? line 0 ≠ some 'f' := by
  intro line member
  obtain member | member := List.mem_append.mp member
  · obtain rfl | member := List.mem_cons.mp member
    · rw [String.append_assoc, charAt_append _ (by decide)]
      decide
    · obtain ⟨m, _, rfl⟩ := List.mem_map.mp member
      rw [margin_start]
      decide
  · rw [List.mem_singleton.mp member]
    decide

theorem headLines_start (p : Program) : ∀ line ∈ p.headLines, charAt? line 0 ≠ some 'f' := by
  intro line member
  simp only [headLines, List.mem_cons, List.mem_append, List.not_mem_nil, or_false] at member
  obtain rfl | (member | rfl | member) | rfl := member
  · rw [p.sizeLine_start]
    decide
  · obtain rfl | member := mem_regionLines member
    · decide
    · obtain ⟨s, _, held⟩ := List.mem_flatMap.mp member
      exact structLines_start s line held
  · decide
  · rw [p.bufferLines_start line member]
    decide
  · decide

theorem structLines_readLines {p : Program} (spelled : p.IsSpelled) :
    p.structs.flatMap structLines <:+: readLines p.text := by
  rw [readLines_text spelled]
  exact p.structLines_isInfix.trans (List.prefix_append _ _).isInfix

theorem outputLine_mem {p : Program} (spelled : p.IsSpelled) :
    bufferLine p.outputSlot p.storage.text "read_write" ∈ readLines p.text := by
  have head : bufferLine p.outputSlot p.storage.text "read_write" ∈ p.headLines :=
    mem_headLines (List.mem_append_right _ List.mem_cons_self)
  rw [readLines_text spelled]
  exact List.mem_append_left _ (List.mem_append_left _ (List.mem_append_left _
    (List.mem_append_left _ head)))

theorem mainLines_text {p : Program} (spelled : p.IsSpelled) :
    mainLines p.text = guardLines (bufferName p.outputSlot) ++ p.bodyLines ++ ["\x7d", ""] := by
  have parts : p.lines ++ [""] = (p.headLines ++ ["@compute @workgroup_size(WORKGROUP_SIZE)"]) ++
      (entryLine :: (guardLines (bufferName p.outputSlot) ++ p.bodyLines ++ ["\x7d", ""])) := by
    change p.headLines ++ (["@compute @workgroup_size(WORKGROUP_SIZE)"] ++
      (entryLine :: guardLines (bufferName p.outputSlot))) ++ p.bodyLines ++ ["\x7d"] ++ [""] = _
    simp only [List.append_assoc, List.cons_append, List.nil_append]
  have before : ∀ line ∈ p.headLines ++ ["@compute @workgroup_size(WORKGROUP_SIZE)"],
      (line != entryLine) = true := by
    intro line member
    rw [bne_iff_ne]
    rintro rfl
    obtain member | member := List.mem_append.mp member
    · exact p.headLines_start _ member (by decide)
    · exact absurd (List.mem_singleton.mp member) (by decide)
  rw [mainLines, readLines_text spelled, parts, List.dropWhile_append_of_pos before,
    List.dropWhile_cons_of_neg (by simp), List.tail_cons]

theorem guardLine_injective {b c : String} (same : guardLine b = guardLine c) : b = c := by
  unfold guardLine at same
  exact (String.append_right_inj _).mp ((String.append_left_inj _).mp same)

theorem guardLine_start (buffer : String) : charAt? (guardLine buffer) 4 = some 'i' := by
  unfold guardLine
  rw [String.append_assoc]
  exact charAt_append _ (by decide)

theorem bodyLines_unguarded {p : Program} : ∀ line ∈ p.bodyLines, charAt? line 4 ≠ some 'i' := by
  intro line member
  obtain ⟨inner, held, rfl⟩ := List.mem_map.mp member
  obtain held | held := List.mem_append.mp held
  · obtain ⟨l, _, rfl⟩ := List.mem_map.mp held
    simp only [letLine, String.append_assoc]
    rw [← String.append_assoc, charAt_append _ (by decide)]
    decide
  · rw [List.mem_singleton.mp held]
    simp only [storeLine, bufferName, Variable.name, String.append_assoc]
    rw [← String.append_assoc, charAt_append _ (by decide)]
    decide

/-- There is one guard, which compares with the length of the output. -/
theorem guard_output {p : Program} {buffer : String}
    (guard : guardLines buffer <:+: guardLines (bufferName p.outputSlot) ++ p.bodyLines ++
      ["\x7d", ""]) : buffer = bufferName p.outputSlot := by
  have start := guardLine_start buffer
  have member := guard.subset List.mem_cons_self
  simp only [guardLines, List.mem_append, List.mem_cons, List.not_mem_nil, or_false] at member
  obtain ((same | same | same) | body) | same | same := member
  · exact guardLine_injective same
  case inl.inr => exact absurd start (bodyLines_unguarded _ body)
  all_goals
    rw [same] at start
    exact absurd start (by decide)

theorem passes_iff {p : Program} (spelled : p.IsSpelled) (length : String → Nat) (gid : UInt32) :
    Passes length gid (mainLines p.text) ↔ gid.toNat < length (bufferName p.outputSlot) := by
  rw [mainLines_text spelled]
  constructor
  · intro passes
    refine passes _ ?_
    rw [List.append_assoc]
    exact (List.prefix_append _ _).isInfix
  · intro below buffer guard
    rw [guard_output guard]
    exact below

end Program
end Kernel

namespace Buffer

theorem deviceSize_pos {b : Buffer} {t : ElementType} (layout : b.layout = .of t)
    (nonempty : t.leaves ≠ []) (elements : 0 < b.count) : 0 < b.deviceSize := by
  unfold deviceSize
  rw [layout]
  exact Nat.mul_pos elements (ElementType.deviceStride_pos nonempty)

theorem deviceSize_le_alignedSize (b : Buffer) : b.deviceSize ≤ b.alignedSize :=
  (le_max_left _ _).trans (le_alignUp _ _)

end Buffer

namespace ExecutionContext

variable {c : ExecutionContext}

theorem invocations_eq (grouped : 1 ≤ c.workgroupSize) :
    c.workgroups * c.workgroupSize = Kernel.roundUp c.workgroupSize c.output.count := by
  unfold workgroups Kernel.roundUp
  rw [max_eq_left grouped]

theorem count_le_invocations (grouped : 1 ≤ c.workgroupSize) :
    c.output.count ≤ c.workgroups * c.workgroupSize := by
  rw [invocations_eq grouped, ← alignUp_eq_roundUp _ grouped]
  exact le_alignUp _ _

theorem workgroups_le (grouped : 1 ≤ c.workgroupSize) {m : Nat}
    (covered : ∀ i < c.output.count, i < m * c.workgroupSize) : c.workgroups ≤ m := by
  have bound : c.output.count ≤ m * c.workgroupSize := by
    by_contra short
    exact absurd (covered _ (Nat.lt_of_not_le short)) (lt_irrefl _)
  unfold workgroups
  rw [max_eq_left grouped]
  refine Nat.le_of_lt_succ ((Nat.div_lt_iff_lt_mul grouped).mpr ?_)
  rw [Nat.succ_mul]
  omega

end ExecutionContext

namespace Kernel

/-- Whether the entry point of a kernel returns for the invocations that have no element, and for no
others. -/
structure Guards (c : ExecutionContext) (p : Program) : Prop where
  structs : p.structs.flatMap Program.structLines <:+: readLines p.text
  output : Program.bufferLine p.outputSlot p.storage.text "read_write" ∈ readLines p.text
  /-- The guard comes first. The last line of the body stores the element of the invocation. -/
  text : mainLines p.text =
    guardLines (Program.bufferName p.outputSlot) ++ p.bodyLines ++ ["\x7d", ""]
  /-- The length of the output is what is bound of it, in whole strides. -/
  passing : ∃ stride, p.stride? = some stride ∧
    ∀ length : String → Nat, length (Program.bufferName p.outputSlot) = c.output.boundSize / stride →
      ∀ i, i < c.workgroups * c.workgroupSize ∧ Passes length (UInt32.ofNat i) (mainLines p.text) ↔
        i < c.output.count

/-- Whether a dispatch computes each element of an output once, where the elements have the type. -/
structure Covers (c : ExecutionContext) (t : ElementType) : Prop where
  /-- All elements are bound, and nothing of the padding after them. -/
  bound : c.output.boundSize = c.output.deviceSize
  /-- With strides of 32 bits the size of the elements is what the layout gives in 64. -/
  sized : t.deviceStride < UInt32.size →
    c.output.layout.deviceSize c.output.count = c.output.deviceSize
  padded : c.output.boundSize ≤ c.output.alignedSize
  /-- There are kernels for the type. -/
  compiled : ∃ root p, root.Faithful ∧ root.type = t ∧ compile c.workgroupSize root = .ok p
  guards : ∀ root p, root.Faithful → root.type = t → compile c.workgroupSize root = .ok p → Guards c p
  /-- Fewer workgroups would leave elements out. -/
  least : ∀ m, (∀ i < c.output.count, i < m * c.workgroupSize) → c.workgroups ≤ m

def elementsQuery (a : SharedArray) : Expr :=
  let x : Parameter := ⟨"x", a.data.element⟩
  .select 2 (.array a) [x] (.parameter x)

theorem elementsQuery_compiles {a : SharedArray} (spellable : a.data.element.IsSpellable)
    (workgroupSize : Nat) : (elementsQuery a).Faithful ∧
      ∃ p, compile workgroupSize (elementsQuery a) = .ok p := by
  have faithful : (elementsQuery a).Faithful := by
    constructor <;> simp [elementsQuery, Expr.queries, Expr.arrays, Expr.stepTag?]
  have formed : (elementsQuery a).HasFormed := by
    simp [elementsQuery, Expr.HasFormed, Expr.lambdas, Expr.IsFormed]
  have separate : (elementsQuery a).IsSeparate := List.nodup_nil
  have supported : (elementsQuery a).IsSupportedChain a.data.count :=
    supported_select.mpr ⟨supported_array.mpr ⟨rfl, spellable⟩, rfl, spellable, List.mem_cons_self⟩
  exact ⟨faithful, (compile_supported faithful formed separate _).mpr ⟨rfl, _, supported⟩⟩

/-- A dispatch computes each element once, whatever the elements are made of. -/
theorem elements_covered {c : ExecutionContext} {t : ElementType} (storable : t.IsSpellable)
    (nonempty : t.leaves ≠ []) (layout : c.output.layout = .of t) (elements : 0 < c.output.count)
    (grouped : 1 ≤ c.workgroupSize) (fits : c.workgroups * c.workgroupSize ≤ UInt32.size) :
    Covers c t := by
  have bound : c.output.boundSize = c.output.deviceSize := by
    have positive := Buffer.deviceSize_pos layout nonempty elements
    rw [Buffer.boundSize, if_neg positive.ne']
  have length : c.output.boundSize / t.deviceStride = c.output.count := by
    rw [bound, Buffer.deviceSize, layout]
    exact Nat.mul_div_cancel _ (ElementType.deviceStride_pos nonempty)
  refine ⟨bound, fun narrow => ?_, ?_, ?_, ?_, fun m => ExecutionContext.workgroups_le grouped⟩
  · have few : c.output.count ≤ UInt32.size :=
      (ExecutionContext.count_le_invocations grouped).trans fits
    have counted : c.output.count * t.deviceStride < UInt32.size * UInt32.size :=
      Nat.mul_lt_mul_of_le_of_lt few narrow (by decide)
    rw [Buffer.deviceSize, layout]
    exact wordSize_eq_iff.mpr counted
  · rw [bound]
    exact Buffer.deviceSize_le_alignedSize _
  · -- Some query has this type: the one for the elements of an array, which may be empty.
    have none : t.hostStride ∣ 0 := ⟨0, rfl⟩
    let a : SharedArray := ⟨1, ⟨t, [], ElementType.size_pos .host t nonempty, none⟩⟩
    obtain ⟨faithful, p, compiled⟩ := elementsQuery_compiles (a := a) storable c.workgroupSize
    exact ⟨_, p, faithful, rfl, compiled⟩
  · rintro root p faithful rfl compiled
    have spelled := compile_spelled faithful compiled
    refine ⟨Program.structLines_readLines spelled, Program.outputLine_mem spelled,
      Program.mainLines_text spelled, _, compile_stride faithful compiled, ?_⟩
    intro lengths known i
    rw [Program.passes_iff spelled, known, length]
    -- The number of an invocation is a word. No number of this dispatch wraps around.
    have whole (inside : i < c.workgroups * c.workgroupSize) : (UInt32.ofNat i).toNat = i :=
      UInt32.toNat_ofNat_of_lt' (inside.trans_le fits)
    constructor
    · rintro ⟨inside, below⟩
      rwa [whole inside] at below
    · intro below
      have inside := below.trans_le (ExecutionContext.count_le_invocations grouped)
      exact ⟨inside, (whole inside).symm ▸ below⟩

/-- A record that is padded on the device, both before its vector and after it. -/
def surfaceType : ElementType :=
  .record "Surface" [("weight", .f32), ("normal", .vector3)]

theorem surface_covered :
    let c : ExecutionContext := ⟨[], .output 1 surfaceType 100, ⟨entryPoint, 64⟩, 64⟩
    surfaceType.deviceStride = 32 ∧ c.workgroups = 2 ∧ Covers c surfaceType :=
  ⟨by decide, by decide, elements_covered (by decide) (by decide) rfl (by decide) (by decide)
    (by decide)⟩

end Kernel
end ArrayQuery
