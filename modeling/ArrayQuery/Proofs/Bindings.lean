import ArrayQuery.Device.Run
import ArrayQuery.Proofs.StepLines

/-! The inputs of a kernel: the arrays that its query is applied to and those that its bodies take
elements of, each once. The first of them is a source, and all sources have its length. -/

set_option autoImplicit false
namespace ArrayQuery

namespace Expr

def sources : Expr → List SharedArray
  | array a => [a]
  | select _ source _ _ => source.sources
  | zip _ first second _ _ => first.sources ++ second.sources
  | _ => []

mutual
def captures : Expr → List SharedArray
  | index (array a) i _ => a :: i.captures
  | binary _ l r _ => l.captures ++ r.captures
  | negate e _ | convert _ e _ | member e _ _ => e.captures
  | construct _ args | call _ args _ => capturesAll args
  | _ => []

def capturesAll : List Expr → List SharedArray
  | [] => []
  | e :: rest => e.captures ++ capturesAll rest
end

/-- The arrays of a query that are sources, or that a body takes elements of. -/
def bound (root : Expr) : List SharedArray :=
  root.sources ++ root.lambdas.flatMap captures

def body? : Expr → Option Expr
  | select _ _ _ body | zip _ _ _ _ body => some body
  | _ => none

theorem operand_of_mem_sources {a : SharedArray} : ∀ node : Expr, a ∈ node.sources →
    node = array a ∨ ∃ q ∈ node.queries, array a ∈ q.operands
  | array _, inside => by
    rw [List.mem_singleton.mp inside]
    exact .inl rfl
  | select _ source _ _, inside => by
    rcases operand_of_mem_sources source inside with rfl | ⟨q, held, operand⟩
    · exact .inr ⟨_, List.mem_cons_self, List.mem_cons_self⟩
    · exact .inr ⟨q, List.mem_cons_of_mem _ held, operand⟩
  | zip _ first second _ _, inside => by
    rcases List.mem_append.mp inside with inside | inside
    · rcases operand_of_mem_sources first inside with rfl | ⟨q, held, operand⟩
      · exact .inr ⟨_, List.mem_cons_self, List.mem_cons_self⟩
      · exact .inr ⟨q, List.mem_cons_of_mem _ (List.mem_append_left _ held), operand⟩
    · rcases operand_of_mem_sources second inside with rfl | ⟨q, held, operand⟩
      · exact .inr ⟨_, List.mem_cons_self, List.mem_cons_of_mem _ List.mem_cons_self⟩
      · exact .inr ⟨q, List.mem_cons_of_mem _ (List.mem_append_right _ held), operand⟩

theorem lambdas_eq : ∀ node : Expr, node.lambdas = node.queries.filterMap body?
  | select _ source _ _ => by
    rw [lambdas, queries, lambdas_eq source]
    rfl
  | zip _ first second _ _ => by
    rw [lambdas, queries, lambdas_eq first, lambdas_eq second, ← List.filterMap_append]
    rfl
  | constant _ | parameter _ | binary .. | negate .. | convert .. | .member .. | index ..
  | construct .. | call .. | array _ => rfl

theorem arrays_of_mem_queries {q : Expr} {a : SharedArray} (inside : a ∈ q.arrays) :
    ∀ root : Expr, q ∈ root.queries → a ∈ root.arrays
  | select _ source _ _, held => by
    rcases List.mem_cons.mp held with rfl | held
    · exact inside
    · exact List.mem_append_left _ (arrays_of_mem_queries inside source held)
  | zip _ first second _ _, held => by
    rcases List.mem_cons.mp held with rfl | held
    · exact inside
    · rcases List.mem_append.mp held with held | held
      · exact List.mem_append_left _ (arrays_of_mem_queries inside first held)
      · exact List.mem_append_right _
          (List.mem_append_left _ (arrays_of_mem_queries inside second held))

theorem arrays_of_body {node body : Expr} {a : SharedArray} (bodied : node.body? = some body)
    (inside : a ∈ body.arrays) : a ∈ node.arrays := by
  cases node with
  | select =>
    obtain rfl := Option.some.inj bodied
    exact List.mem_append_right _ inside
  | zip =>
    obtain rfl := Option.some.inj bodied
    exact List.mem_append_right _ (List.mem_append_right _ inside)
  | _ => exact nomatch bodied

theorem mem_bound {root : Expr} {a : SharedArray} :
    a ∈ root.bound ↔ a ∈ root.sources ∨ ∃ body ∈ root.lambdas, a ∈ body.captures := by
  rw [bound, List.mem_append, List.mem_flatMap]

theorem bound_operand {node source : Expr} {a : SharedArray} (operand : source ∈ node.operands)
    (inside : a ∈ source.bound) : a ∈ node.bound := by
  rw [mem_bound] at inside ⊢
  cases node with
  | select =>
    obtain rfl := List.mem_singleton.mp operand
    exact inside.imp id fun ⟨body, held, captured⟩ => ⟨body, List.mem_cons_of_mem _ held, captured⟩
  | zip =>
    rcases List.mem_cons.mp operand with rfl | operand
    · exact inside.imp (List.mem_append_left _) fun ⟨body, held, captured⟩ =>
        ⟨body, List.mem_cons_of_mem _ (List.mem_append_left _ held), captured⟩
    · obtain rfl := List.mem_singleton.mp operand
      exact inside.imp (List.mem_append_right _) fun ⟨body, held, captured⟩ =>
        ⟨body, List.mem_cons_of_mem _ (List.mem_append_right _ held), captured⟩
  | _ => exact nomatch operand

theorem bound_body {node body : Expr} {a : SharedArray} (bodied : node.body? = some body)
    (captured : a ∈ body.captures) : a ∈ node.bound := by
  rw [mem_bound]
  cases node with
  | select =>
    obtain rfl := Option.some.inj bodied
    exact .inr ⟨_, List.mem_cons_self, captured⟩
  | zip =>
    obtain rfl := Option.some.inj bodied
    exact .inr ⟨_, List.mem_cons_self, captured⟩
  | _ => exact nomatch bodied

end Expr

namespace Kernel

open Compile

section Additions

variable {known xs ys : List SharedArray} {is js ks : List Input} {d e : Draft}

/-- Whether some arrays have been bound, and no others. -/
def Binds (known xs : List SharedArray) (is js : List Input) : Prop :=
  Agreed known is → Agreed known js ∧
    ∀ x, x ∈ js.map Input.shared ↔ x ∈ is.map Input.shared ∨ x ∈ xs

theorem binds_none (same : js = is) : Binds known [] is js := by
  intro agreed
  rw [same]
  exact ⟨agreed, fun x => by simp⟩

theorem Binds.append (first : Binds known xs is js) (second : Binds known ys js ks) :
    Binds known (xs ++ ys) is ks := by
  intro agreed
  obtain ⟨agreed', added⟩ := first agreed
  obtain ⟨agreed'', added'⟩ := second agreed'
  refine ⟨agreed'', fun x => ?_⟩
  rw [added', added, List.mem_append, or_assoc]

theorem Binds.after (same : js = is) (rest : Binds known xs js ks) :
    Binds known xs is ks :=
  (binds_none same).append rest

theorem inputs_kept : Kept (fun d e => e.inputs = d.inputs) (fun _ => True) fun _ => False where
  refl _ := rfl
  trans first second := second.trans first
  declared node t d _ e run := (declare_frame node t d () e run).1
  bound _ _ held := held.elim
  overridden _ _ _ := by
    intro d _ e run
    obtain rfl := modify_ok.mp run
    rfl

theorem bindArray_binds (faithful : ∀ a ∈ known, ∀ b ∈ known, a.tag = b.tag → a = b) {node : Expr}
    {a : SharedArray} {slot : Nat} (member : a ∈ known)
    (run : bindArray node a d = .ok (slot, e)) : Binds known [a] d.inputs e.inputs := by
  intro agreed
  obtain ⟨_, agreed'⟩ := bindArray_slot faithful member agreed run
  refine ⟨agreed', fun x => ?_⟩
  rcases bindArray_ok run with ⟨found, rfl⟩ | ⟨_, rfl, storage, c, stored, rfl⟩
  · -- The array is among the inputs, so that it is no addition.
    have held : a ∈ e.inputs.map Input.shared := by
      have slotted := bindArray_shared member agreed run
      rw [← List.getElem?_map] at slotted
      exact List.mem_of_getElem? slotted
    rw [List.mem_singleton]
    refine ⟨.inl, fun either => either.elim id ?_⟩
    rintro rfl
    exact held
  · have inputs := (declare_frame node _ d () c (storageType_ok.mp stored).1).1
    rw [inputs, List.map_append, List.mem_append]
    rfl

mutual
theorem translate_binds (faithful : ∀ a ∈ known, ∀ b ∈ known, a.tag = b.tag → a = b)
    {scope : Scope} : ∀ (e : Expr) {d f : Draft} {t : Term},
    (∀ a ∈ e.arrays, a ∈ known) → translate scope e d = .ok (t, f) →
      Binds known e.captures d.inputs f.inputs
  | .constant v, d, f, t, _, run => by
    obtain ⟨declared, _⟩ := translate_constant_ok run
    exact binds_none (declare_frame _ _ d () f declared).1
  | .parameter p, _, _, _, _, run => by
    obtain ⟨_, _, _, rfl⟩ := translate_parameter_ok run
    exact binds_none rfl
  | .binary op l r u, d, f, t, within, run => by
    have left : ∀ a ∈ l.arrays, a ∈ known := fun a member => within a (List.mem_append_left _ member)
    have right : ∀ a ∈ r.arrays, a ∈ known :=
      fun a member => within a (List.mem_append_right _ member)
    obtain ⟨_, _, _, c, _, ⟨_, run₁, run₂⟩ | ⟨_, run₁, run₂⟩⟩ := translate_binary_ok run
    · -- The right operand is translated first; the arrays are the same in the other order.
      intro agreed
      obtain ⟨agreed', added⟩ := ((translate_binds faithful r right run₁).append
        (translate_binds faithful l left run₂)) agreed
      refine ⟨agreed', fun x => (added x).trans ?_⟩
      simp only [Expr.captures, List.mem_append, or_comm]
    · exact (translate_binds faithful l left run₁).append (translate_binds faithful r right run₂)
  | .negate e u, d, f, t, within, run => by
    obtain ⟨_, inside, _⟩ := translate_negate_ok run
    exact translate_binds faithful e within inside
  | .convert tag e u, d, f, t, within, run => by
    obtain ⟨c, _, _, wrapped, _, _, inside, _⟩ := translate_convert_ok run
    have same := overrideWrapper_keeps inputs_kept tag u e trivial
      (fun _ _ => trivial) d () c wrapped
    exact .after same (translate_binds faithful e within inside)
  | .member e name u, d, f, t, within, run => by
    obtain ⟨container, access, v, b, c, _, chain, followed, inside, _⟩ := translate_member_ok run
    exact .after (reached_keeps inputs_kept chain followed)
      (translate_binds faithful e within inside)
  | .index a i u, d, f, t, within, run => by
    obtain ⟨source, slot, c, _, rfl, bound, inside, _⟩ := translate_index_ok run
    exact (bindArray_binds faithful (within source List.mem_cons_self) bound).append
      (translate_binds faithful i (fun b member => within b (List.mem_cons_of_mem _ member)) inside)
  | .construct r args, d, f, t, within, run => by
    obtain ⟨_, k, c, _, typed, inside, _⟩ := translate_construct_ok run
    have same := valueType_keeps inputs_kept _ r.type d k c typed
    exact .after same (translateAll_binds faithful args within inside)
  | .call fn args u, d, f, t, within, run => by
    obtain ⟨c, _, overrides, inside, _⟩ := translate_call_ok run
    have same := overrideCall_keeps inputs_kept fn args (fun _ _ => trivial) d () c
      overrides
    exact .after same (translateAll_binds faithful args within inside)
  | .select .., _, _, _, _, run => (translate_query_ok (.inl rfl) run).elim
  | .zip .., _, _, _, _, run => (translate_query_ok (.inl rfl) run).elim
  | .array a, _, _, _, _, run => (translate_query_ok (.inr ⟨a, rfl⟩) run).elim

theorem translateAll_binds (faithful : ∀ a ∈ known, ∀ b ∈ known, a.tag = b.tag → a = b)
    {scope : Scope} : ∀ (es : List Expr) {d f : Draft} {ts : List Term},
    (∀ a ∈ Expr.arraysAll es, a ∈ known) → translateAll scope es d = .ok (ts, f) →
      Binds known (Expr.capturesAll es) d.inputs f.inputs
  | [], _, _, _, _, run => by
    obtain ⟨_, rfl⟩ := pure_ok.mp run
    exact binds_none rfl
  | e :: es, d, f, ts, within, run => by
    obtain ⟨_, _, c, first, rest, _⟩ := translateAll_cons_ok run
    have head := translate_binds faithful e
      (fun a member => within a (List.mem_append_left _ member)) first
    have tail := translateAll_binds faithful es
      (fun a member => within a (List.mem_append_right _ member)) rest
    exact head.append tail
end

theorem bindSource_binds (faithful : ∀ a ∈ known, ∀ b ∈ known, a.tag = b.tag → a = b) {node : Expr}
    {a : SharedArray} {o : Operand} (member : a ∈ known) (run : bindSource node a d = .ok (o, e)) :
    Binds known [a] d.inputs e.inputs := by
  obtain ⟨slot, bound, _⟩ := bindSource_bound run
  exact @bindArray_binds _ { d with sourceCount := some a.data.count } _ faithful _ _ _ member bound

theorem emit_binds (faithful : ∀ a ∈ known, ∀ b ∈ known, a.tag = b.tag → a = b) {node body : Expr}
    {tag : Tag} {params : List Parameter} {inputs : List Operand} {o : Operand}
    (within : ∀ a ∈ body.arrays, a ∈ known)
    (run : emit node tag params body inputs d = .ok (o, e)) :
    Binds known body.captures d.inputs e.inputs := by
  obtain ⟨_, k, b, value, c, typed, translated, _, rfl⟩ := emit_ok run
  have same := valueType_keeps inputs_kept _ body.type d k b typed
  have binds := translate_binds faithful body within translated
  exact Binds.after same binds

end Additions

/-! ## What compilation binds -/

section Queries

variable {root : Expr} {nodes : List Expr} {d e : Draft}

/-- A run binds nothing but sources and what bodies take elements of. Operators that are shared have
nothing bound for them again. -/
theorem Steps.binds (faithful : root.Faithful) {node : Expr} {o : Operand} (run : Steps node d o e)
    (within : ∀ a ∈ node.arrays, a ∈ root.arrays) :
    ∃ xs, Binds root.arrays xs d.inputs e.inputs ∧ ∀ x ∈ xs, x ∈ node.bound := by
  induction run with
  | source bound =>
    exact ⟨_, bindSource_binds faithful.arrays (within _ List.mem_cons_self) bound, fun _ => id⟩
  | shared => exact ⟨[], binds_none rfl, nofun⟩
  | select _ _ last ih =>
    obtain ⟨xs, binds, held⟩ := ih fun a member => within a (List.mem_append_left _ member)
    have binds' := emit_binds faithful.arrays
      (fun a member => within a (List.mem_append_right _ member)) last
    refine ⟨_, binds.append binds', fun x member => ?_⟩
    rcases List.mem_append.mp member with member | member
    · exact Expr.bound_operand List.mem_cons_self (held x member)
    · exact Expr.bound_body rfl member
  | zip _ _ _ last ihl ihr =>
    obtain ⟨xs, binds, held⟩ := ihl fun a member => within a (List.mem_append_left _ member)
    obtain ⟨ys, binds', held'⟩ := ihr fun a member =>
      within a (List.mem_append_right _ (List.mem_append_left _ member))
    have binds'' := emit_binds faithful.arrays
      (fun a member => within a (List.mem_append_right _ (List.mem_append_right _ member))) last
    refine ⟨_, binds.append (binds'.append binds''), fun x member => ?_⟩
    rcases List.mem_append.mp member with member | member
    · exact Expr.bound_operand List.mem_cons_self (held x member)
    · rcases List.mem_append.mp member with member | member
      · exact Expr.bound_operand (List.mem_cons_of_mem _ List.mem_cons_self) (held' x member)
      · exact Expr.bound_body rfl member

theorem Traced.source (traced : Traced root nodes d) {q : Expr} (member : q ∈ nodes) {a : SharedArray}
    (operand : .array a ∈ q.operands) :
    a ∈ d.inputs.map Input.shared ∧ d.sourceCount = some a.data.count := by
  obtain ⟨k, place⟩ := List.getElem?_of_mem member
  obtain ⟨c, f, _, _, emitted, onward⟩ := traced.emitted k q place
  have stands : ∃ x, Stands (nodes.take k) c (.array a) x := by
    cases emitted with
    | select known =>
      obtain rfl := List.mem_singleton.mp operand
      exact ⟨_, known⟩
    | zip left right =>
      rcases List.mem_cons.mp operand with rfl | operand
      · exact ⟨_, left⟩
      · obtain rfl := List.mem_singleton.mp operand
        exact ⟨_, right⟩
  obtain ⟨x, stands⟩ := stands
  have before : Onward c d := emitted.onward.trans onward
  cases stands with
  | array bound counted =>
    refine ⟨?_, before.counted _ counted⟩
    rw [← List.getElem?_map] at bound
    exact (before.inputs.map Input.shared).subset (List.mem_of_getElem? bound)
  | operator _ query => exact absurd query Bool.false_ne_true

theorem Traced.captured (traced : Traced root nodes d) (faithful : root.Faithful) {q body : Expr}
    (member : q ∈ nodes) (bodied : q.body? = some body) (within : ∀ a ∈ body.arrays, a ∈ root.arrays)
    {a : SharedArray} (captured : a ∈ body.captures) : a ∈ d.inputs.map Input.shared := by
  obtain ⟨k, place⟩ := List.getElem?_of_mem member
  obtain ⟨c, f, steady, _, emitted, onward⟩ := traced.emitted k q place
  have binds : Binds root.arrays body.captures c.inputs f.inputs := by
    cases emitted with
    | select _ run =>
      obtain rfl := Option.some.inj bodied
      exact emit_binds faithful.arrays within run
    | zip _ _ run =>
      obtain rfl := Option.some.inj bodied
      exact emit_binds faithful.arrays within run
  obtain ⟨_, added⟩ := binds steady.agreed
  exact (onward.inputs.map Input.shared).subset ((added a).mpr (.inr captured))

theorem distinct_tags_kept : Kept
    (fun d e => (d.inputs.map Input.tag).Nodup → (e.inputs.map Input.tag).Nodup) (fun _ => True)
    fun _ => True where
  toStable := stable_invariant _
  declared node t d _ e run distinct := by rwa [(declare_frame node t d () e run).1]
  bound node a _ d slot e run distinct := by
    rcases bindArray_ok run with ⟨_, rfl⟩ | ⟨absent, rfl, storage, c, stored, rfl⟩
    · exact distinct
    · have inputs := (declare_frame node _ d () c (storageType_ok.mp stored).1).1
      rw [inputs, List.map_append]
      refine distinct.append (List.nodup_singleton _) (List.disjoint_singleton.mpr fun member => ?_)
      obtain ⟨i, held, same⟩ := List.mem_map.mp member
      exact absurd (beq_iff_eq.mpr same) (by simpa using List.findIdx?_eq_none_iff.mp absent i held)
  overridden tag t _ d _ e run distinct := by
    obtain rfl := modify_ok.mp run
    exact distinct

theorem Steps.distinct_tags {node : Expr} {o : Operand} (run : Steps node d o e)
    (distinct : (d.inputs.map Input.tag).Nodup) : (e.inputs.map Input.tag).Nodup := by
  have emitted : ∀ {node body : Expr} {tag : Tag} {params : List Parameter} {inputs : List Operand}
      {d e : Draft} {o : Operand}, emit node tag params body inputs d = .ok (o, e) →
      (d.inputs.map Input.tag).Nodup → (e.inputs.map Input.tag).Nodup := by
    intro node body tag params inputs d e o run distinct
    obtain ⟨_, k, b, value, c, typed, translated, _, rfl⟩ := emit_ok run
    exact translate_keeps distinct_tags_kept _ body (fun _ _ => trivial) (fun _ _ => trivial) b value c
      translated (valueType_keeps distinct_tags_kept _ body.type d k b typed distinct)
  induction run with
  | source bound =>
    obtain ⟨slot, bound', _⟩ := bindSource_bound bound
    exact distinct_tags_kept.bound _ _ trivial _ slot _ bound' distinct
  | shared => exact distinct
  | select _ _ last ih => exact emitted last (ih distinct)
  | zip _ _ _ last ihl ihr => exact emitted last (ihr (ihl distinct))

variable {workgroupSize : Nat} {p : Program}

theorem compile_bound (faithful : root.Faithful) (compiled : compile workgroupSize root = .ok p) :
    (p.inputs.map Input.tag).Nodup ∧ ∀ a, a ∈ p.inputs.map Input.shared ↔ a ∈ root.bound := by
  obtain ⟨nodes, o, c, d, storage, run, same, _, traced, all, last, _, rfl⟩ :=
    compile_traced faithful compiled
  obtain ⟨xs, binds, held⟩ := run.binds faithful fun _ => id
  obtain ⟨_, added⟩ := binds nofun
  refine ⟨same ▸ run.distinct_tags .nil, fun a => ⟨fun inside => ?_, fun used => ?_⟩⟩
  · rw [same] at inside
    exact held a (((added a).mp inside).resolve_left nofun)
  · rcases Expr.mem_bound.mp used with source | ⟨body, lambda, captured⟩
    · rcases Expr.operand_of_mem_sources root source with rfl | ⟨q, query, operand⟩
      · exact nomatch (all _).mp (List.mem_of_getLast? last)
      · exact (traced.source ((all q).mpr query) operand).1
    · rw [Expr.lambdas_eq] at lambda
      obtain ⟨q, query, bodied⟩ := List.mem_filterMap.mp lambda
      exact traced.captured faithful ((all q).mpr query) bodied
        (fun b inside => Expr.arrays_of_mem_queries (Expr.arrays_of_body bodied inside) root query)
        captured

/-- Whether a query is bound to some arrays, in order, and after them to its result; and the text of
its kernel declares a buffer for each in the same order. Elements are spelled as they are stored, and
the structs among them are declared. -/
structure IsManifest (root : Expr) (q : CompiledQuery) (inputs : List Input) (names : RecordNames)
    (storage : KernelType) : Prop where
  once : (inputs.map Input.tag).Nodup
  all : ∀ a, a ∈ inputs.map Input.shared ↔
    a ∈ root.sources ∨ ∃ body ∈ root.lambdas, a ∈ body.captures
  slots : q.inputs = inputs.zipIdx.map fun i => .input i.2 i.1.array
  outputSlot : q.output.slot = inputs.length
  outputElement : q.output.element = root.type
  declared : (readLines q.source).filter Program.isBufferLine =
    (inputs.zipIdx.map fun i => Program.bufferLine i.2 i.1.storage.text "read") ++
      [Program.bufferLine inputs.length storage.text "read_write"]
  spelled : ∀ i ∈ inputs, names.storageOf i.array.element = .ok i.storage
  outputSpelled : names.storageOf root.type = .ok storage
  structs : ∀ named ∈ names.assigned, ∃ s, Declares names named s ∧
    ∀ line ∈ Program.structLines s, line ∈ readLines q.source

theorem Program.mem_lines {s : Struct} (member : s ∈ p.structs) {line : String}
    (inside : line ∈ Program.structLines s) : line ∈ p.lines ++ [""] :=
  List.mem_append_left _
    (p.structLines_isInfix.subset (List.mem_flatMap.mpr ⟨s, member, inside⟩))

/-- A compiled query is bound to the arrays that it uses, each once, and its kernel declares them in
the same order. -/
theorem compile_manifest {c : Config} {q : CompiledQuery} (faithful : root.Faithful)
    (compiled : CompiledQuery.compile c root = .ok q) :
    ∃ inputs names storage, IsManifest root q inputs names storage := by
  unfold CompiledQuery.compile at compiled
  cases run : compile c.workgroupSize root with
  | error =>
    rw [run] at compiled
    exact nomatch compiled
  | ok p =>
    rw [run] at compiled
    obtain rfl := Except.ok.inj compiled
    obtain ⟨once, all⟩ := compile_bound faithful run
    have text := Program.readLines_text (compile_spelled faithful run)
    obtain ⟨nodes, o, d, e, storage, _, _, _, traced, _, _, stored, same⟩ :=
      compile_traced faithful run
    have sound := traced.steady.sound
    refine ⟨p.inputs, e.records, storage, once, fun a => (all a).trans Expr.mem_bound, rfl, rfl, ?_, ?_,
      ?_, stored, ?_⟩
    · rw [same]
      rfl
    · have storages : p.storage = storage := by rw [same]
      have source : (CompiledQuery.ofProgram p).source = p.text := rfl
      rw [source, text, Program.lines_filter, Program.bufferLines, storages]
      rfl
    · rw [same]
      exact sound.storage
    · intro named assigned
      obtain ⟨s, member, declares⟩ := exists_of_forall₂ sound.structs.flip assigned
      have held : s ∈ p.structs := by
        rw [same]
        exact member
      refine ⟨s, declares, fun line inside => ?_⟩
      change line ∈ readLines p.text
      rw [text]
      exact Program.mem_lines held inside

def flaggedQuery : Expr :=
  let positions : SharedArray := ⟨1, .ofList [(2 : UInt32), 0]⟩
  let flags : SharedArray := ⟨2, .ofList [true, false, true]⟩
  let i : Parameter := ⟨"i", .u32⟩
  let b : Parameter := ⟨"b", .bool⟩
  let looked := Expr.select 3 (.array positions) [i] (.index (.array flags) (.parameter i) .bool)
  .zip 4 looked (.array positions) [b, i]
    (.binary .add (.convert 5 (.parameter b) .u32) (.parameter i) .u32)

theorem flaggedQuery_faithful : flaggedQuery.Faithful := by
  constructor <;>
  · simp [flaggedQuery, Expr.queries, Expr.arrays, Expr.stepTag?]

theorem flaggedQuery_manifest : ∃ q inputs names storage,
    CompiledQuery.compile {} flaggedQuery = .ok q ∧ q.inputs.map Buffer.count = [2, 3] ∧
      IsManifest flaggedQuery q inputs names storage := by
  have compiled : CompiledQuery.compile {} flaggedQuery = .ok _ := rfl
  obtain ⟨inputs, names, storage, manifest⟩ := compile_manifest flaggedQuery_faithful compiled
  exact ⟨_, inputs, names, storage, compiled, rfl, manifest⟩

/-! ## The length of the sources -/

def IsLed (sources : List SharedArray) (d : Draft) : Prop :=
  ∃ a ∈ sources, d.inputs.head?.map Input.shared = some a ∧ d.sourceCount = some a.data.count

theorem IsLed.onward {sources : List SharedArray} (led : IsLed sources d) (onward : Onward d e) :
    IsLed sources e := by
  obtain ⟨a, member, first, counted⟩ := led
  refine ⟨a, member, ?_, onward.counted _ counted⟩
  rw [List.head?_eq_getElem?] at first ⊢
  obtain ⟨i, found, rfl⟩ := Option.map_eq_some_iff.mp first
  rw [getElem?_extends onward.inputs found, Option.map_some]

theorem bindSource_led {node : Expr} {a : SharedArray} {o : Operand} {sources : List SharedArray}
    (member : a ∈ sources) (start : d.inputs = [] ∨ IsLed sources d)
    (run : bindSource node a d = .ok (o, e)) : IsLed sources e := by
  rcases start with empty | led
  · refine ⟨a, member, ?_, bindSource_counted run⟩
    obtain ⟨slot, bound, _⟩ := bindSource_bound run
    rcases bindArray_ok bound with ⟨found, _⟩ | ⟨_, _, storage, c, stored, rfl⟩
    · rw [show ({ d with sourceCount := some a.data.count } : Draft).inputs = [] from empty] at found
      exact nomatch found
    · have inputs : c.inputs = d.inputs := (declare_frame node _ _ () c (storageType_ok.mp stored).1).1
      rw [inputs, empty]
      rfl
  · exact led.onward (bindSource_onward run)

/-- A run that starts from nothing binds a source first, since what an operator is applied to comes
before its body. -/
theorem Steps.led {node : Expr} {o : Operand} {sources : List SharedArray} (run : Steps node d o e)
    (within : ∀ a ∈ node.sources, a ∈ sources)
    (start : (d.inputs = [] ∧ d.steps = []) ∨ IsLed sources d) : IsLed sources e := by
  induction run with
  | source bound =>
    exact bindSource_led (within _ List.mem_cons_self) (start.imp And.left id) bound
  | shared _ found =>
    -- From nothing, no operator has been compiled that could be shared.
    rcases start with ⟨_, none⟩ | led
    · rw [none] at found
      exact nomatch found
    · exact led
  | select _ _ last ih => exact (ih within start).onward (emit_onward last)
  | zip _ _ right last ihl _ =>
    have led := ihl (fun a member => within a (List.mem_append_left _ member)) start
    exact (led.onward right.onward).onward (emit_onward last)

theorem compile_led (faithful : root.Faithful) (compiled : compile workgroupSize root = .ok p) :
    ∃ a ∈ root.sources, (∀ b ∈ root.sources, b.data.count = a.data.count) ∧
      p.inputs.head?.map Input.shared = some a ∧ p.count = a.data.count := by
  obtain ⟨nodes, o, c, d, storage, run, same, counted, traced, all, last, _, rfl⟩ :=
    compile_traced faithful compiled
  obtain ⟨a, member, first, count⟩ := run.led (fun _ => id) (.inl ⟨rfl, rfl⟩)
  rw [← same] at first
  rw [← counted] at count
  refine ⟨a, member, fun b source => ?_, first, ?_⟩
  · rcases Expr.operand_of_mem_sources root source with rfl | ⟨q, query, operand⟩
    · exact nomatch (all _).mp (List.mem_of_getLast? last)
    · have own := (traced.source ((all q).mpr query) operand).2
      rw [count] at own
      exact (Option.some.inj own).symm
  · obtain ⟨i, head, rfl⟩ := Option.map_eq_some_iff.mp first
    obtain ⟨rest, inputs⟩ := List.head?_eq_some_iff.mp head
    simp only [Program.count, inputs]
    rfl

/-- The output of a compiled query is as long as each of its sources, of which the first input is one;
arrays that are only indexed may have any length. Sources of different lengths are refused. -/
theorem compile_count {c : Config} (faithful : root.Faithful) :
    (∀ q, CompiledQuery.compile c root = .ok q → ∃ a ∈ root.sources,
      (∀ b ∈ root.sources, b.data.count = a.data.count) ∧
        q.inputs.head? = some (.input 0 a.data) ∧ q.output.count = a.data.count) ∧
    ∀ a ∈ root.sources, ∀ b ∈ root.sources, a.data.count ≠ b.data.count →
      ∃ error, CompiledQuery.compile c root = .error error := by
  unfold CompiledQuery.compile
  cases run : compile c.workgroupSize root with
  | error error => exact ⟨nofun, fun _ _ _ _ _ => ⟨error, rfl⟩⟩
  | ok p =>
    obtain ⟨a, member, counts, first, count⟩ := compile_led faithful run
    refine ⟨fun q compiled => ?_, fun b source b' source' other => ?_⟩
    · obtain rfl := Except.ok.inj compiled
      obtain ⟨i, head, rfl⟩ := Option.map_eq_some_iff.mp first
      obtain ⟨rest, inputs⟩ := List.head?_eq_some_iff.mp head
      refine ⟨_, member, counts, ?_, count⟩
      simp only [CompiledQuery.ofProgram, inputs]
      rfl
    · exact absurd ((counts b source).trans (counts b' source').symm) other

/-- The flags are longer than the positions, and indexed before the positions are bound again. -/
theorem flaggedQuery_count : ∃ q, CompiledQuery.compile {} flaggedQuery = .ok q ∧ q.output.count = 2 ∧
    ∃ a ∈ flaggedQuery.sources, (∀ b ∈ flaggedQuery.sources, b.data.count = a.data.count) ∧
      q.inputs.head? = some (.input 0 a.data) := by
  have compiled : CompiledQuery.compile {} flaggedQuery = .ok _ := rfl
  obtain ⟨a, source, counts, first, _⟩ := (compile_count flaggedQuery_faithful).1 _ compiled
  exact ⟨_, compiled, rfl, a, source, counts, first⟩

end Queries

end Kernel
end ArrayQuery
