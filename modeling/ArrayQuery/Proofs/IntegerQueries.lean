import ArrayQuery.Proofs.Integers

/-! Kernels of queries over 32-bit integers compute the queries. -/

set_option autoImplicit false
namespace ArrayQuery.Kernel

open Compile

theorem Statement.exec_over {s t : Invocation} {inputs : List Input} (sees : Sees s (s.over inputs))
    (st : Statement) (run : st.exec s = some t) :
    st.exec (s.over inputs) = some (t.over inputs) ∧ t.buffers = s.buffers := by
  cases st with
  | bind name type value =>
    obtain ⟨w, found, rest⟩ := Option.bind_eq_some_iff.mp run
    have found' := Form.word?_sees sees value w found
    split at rest
    · next typed =>
      obtain rfl := Option.some.inj rest
      refine ⟨?_, rfl⟩
      simp only [Statement.exec, found', Option.bind_eq_bind, Option.bind_some, typed, if_true]
      rfl
    · exact nomatch rest
  | store place value =>
    obtain ⟨⟨buffer, j⟩, placed, rest⟩ := Option.bind_eq_some_iff.mp run
    obtain ⟨w, found, last⟩ := Option.bind_eq_some_iff.mp rest
    obtain rfl := Option.some.inj last
    have found' := Form.word?_sees sees value w found
    have placed' : place.place? (s.over inputs) = some (buffer, j) := by
      rw [← placed]
      unfold Form.place?
      rfl
    refine ⟨?_, rfl⟩
    simp only [Statement.exec, placed', found', Option.bind_eq_bind, Option.bind_some]
    rfl

theorem sees_wider {s : Invocation} {inputs inputs' : List Input}
    (buffers : s.buffers = namedBuffers inputs) (more : inputs <+: inputs') :
    Sees s (s.over inputs') := by
  have same : s.over inputs = s := by rw [Invocation.over, ← buffers]
  have wider := sees_over (s := s) more
  rwa [same] at wider

theorem exec_over {inputs inputs' : List Input} (more : inputs <+: inputs') :
    ∀ (ss : List Statement) {s t : Invocation}, s.buffers = namedBuffers inputs →
      exec ss s = some t → exec ss (s.over inputs') = some (t.over inputs') ∧
        t.buffers = s.buffers
  | [], s, t, _, run => by
    obtain rfl := Option.some.inj run
    exact ⟨rfl, rfl⟩
  | st :: ss, s, t, buffers, run => by
    simp only [exec, List.foldlM_cons] at run
    obtain ⟨u, first, rest⟩ := Option.bind_eq_some_iff.mp run
    obtain ⟨first', buffers'⟩ := Statement.exec_over (sees_wider buffers more) st first
    obtain ⟨rest', buffers''⟩ := exec_over more ss (buffers'.trans buffers) rest
    refine ⟨?_, buffers''.trans buffers'⟩
    simp only [exec, List.foldlM_cons, first', Option.bind_eq_bind, Option.bind_some]
    exact rest'

theorem letStatements_append (lets : List Let) (l : Let) :
    Program.letStatements (lets ++ [l]) =
      Program.letStatements lets ++ [l.statement (lets.length + 1)] := by
  simp [Program.letStatements, List.zipIdx_append, Nat.add_comm]

theorem exec_append {ss rest : List Statement} {s t u : Invocation} (first : exec ss s = some t)
    (second : exec rest t = some u) : exec (ss ++ rest) s = some u := by
  simp only [exec, List.foldlM_append] at first ⊢
  rw [first]
  exact second

/-! ## Steps -/

/-- Whether an operand has the value of a query at an index. -/
def Holds (i : Nat) (s : Invocation) (o : Operand) (node : Expr) : Prop :=
  ∃ w, node.wordAt i = some w ∧ .leaf w.leaf = o.type ∧ o.type = node.type ∧
    o.term.form.word? s = some w

theorem Holds.sees {i : Nat} {s t : Invocation} {o : Operand} {node : Expr}
    (holds : Holds i s o node) (sees : Sees s t) : Holds i t o node := by
  obtain ⟨w, value, leaf, type, found⟩ := holds
  exact ⟨w, value, leaf, type, Form.word?_sees sees _ w found⟩

def firstCount (inputs : List Input) : Option Nat :=
  inputs.head?.map (·.array.count)

theorem firstCount_mono {inputs inputs' : List Input} (more : inputs <+: inputs') {n : Nat}
    (first : firstCount inputs = some n) : firstCount inputs' = some n := by
  obtain ⟨rest, rfl⟩ := more
  obtain ⟨input, head, length⟩ := Option.map_eq_some_iff.mp first
  exact Option.map_eq_some_iff.mpr ⟨input, by simp [List.head?_append, head], length⟩

/-- What is true between the steps of a compilation: the statements that there are run, and leave the
operands of the steps with the values of the steps. -/
structure Computes (root : Expr) (i : Nat) (d : Draft) (s : Invocation) : Prop where
  distinct : d.records.Distinct
  readable : ∀ l ∈ d.lets, l.IsReadable
  plain : d.overrides = []
  agreed : Agreed root.arrays d.inputs
  counted : (d.sourceCount = none ∧ d.inputs = [] ∧ d.steps = []) ∨
    ∃ count, d.sourceCount = some count ∧ firstCount d.inputs = some count
  ran : exec (Program.letStatements d.lets) { index := i, buffers := namedBuffers d.inputs } = some s
  index : s.index = i
  buffers : s.buffers = namedBuffers d.inputs
  stores : s.stores = []
  named : ∀ name w, s.values.lookup name = some w →
    ∃ k ≤ d.lets.length, name = (Variable.step k).name
  memo : ∀ tag o, d.steps.lookup tag = some o → ∀ node ∈ root.queries,
    node.stepTag? = some tag → Holds i s o node

theorem signsApart_of_isInteger {params : List Parameter} : ∀ e : Expr, e.IsInteger params →
    e.SignsApart
  | .constant _, _ | .parameter _, _ => trivial
  | .binary _ l r _, integer =>
    ⟨signsApart_of_isInteger l integer.2.1, signsApart_of_isInteger r integer.2.2.1⟩
  | .negate e _, integer => ⟨integer.2.2.2, signsApart_of_isInteger e integer.1⟩
  | .convert _ e _, integer => signsApart_of_isInteger e integer.1
  | .index (.array _) i _, integer => signsApart_of_isInteger i integer.2.2.1

variable {root : Expr} {i : Nat}

theorem integer_typeOf {t : ElementType} (integer : t.isInteger = true) {names : RecordNames}
    {k : KernelType} (typed : names.typeOf t = .ok k) {w : Word} (leaf : .leaf w.leaf = t) :
    w.leaf.name = k.text := by
  rcases ElementType.isInteger_iff.mp integer with rfl | rfl
  · obtain rfl := Option.some.inj (RecordNames.typeOf_leaf_ok.mp typed)
    rw [ElementType.leaf.inj leaf]
    rfl
  · obtain rfl := Option.some.inj (RecordNames.typeOf_leaf_ok.mp typed)
    rw [ElementType.leaf.inj leaf]
    rfl

theorem declare_integer {node : Expr} {t : ElementType} (integer : t.isInteger = true) {d e : Draft}
    (run : declare node t d = .ok ((), e)) : e = d := by
  rcases ElementType.isInteger_iff.mp integer with rfl | rfl <;> exact declare_leaf run

def Invocation.extend (s : Invocation) (inputs : List Input) (number : Nat) (w : Word) :
    Invocation :=
  { s.over inputs with values := ((Variable.step number).name, w) :: s.values }

theorem Computes.sees_extend {d : Draft} {s : Invocation} (computes : Computes root i d s)
    {inputs : List Input} (more : d.inputs <+: inputs) (w : Word) :
    Sees s (s.extend inputs (d.lets.length + 1) w) := by
  refine ⟨rfl, fun name a found => ?_, fun name v found => ?_⟩
  · rw [computes.buffers] at found
    exact lookup_namedBuffers_mono more found
  · obtain ⟨k, bound, rfl⟩ := computes.named name v found
    have other : ((Variable.step k).name == (Variable.step (d.lets.length + 1)).name) = false := by
      refine beq_eq_false_iff_ne.mpr fun same => ?_
      have := stepName_injective same
      omega
    simp only [Invocation.extend, List.lookup_cons, other]
    exact found

theorem Computes.grow {d e : Draft} {s : Invocation} (computes : Computes root i d s)
    (inputs : d.inputs <+: e.inputs) (lets : e.lets = d.lets) (steps : e.steps = d.steps)
    (distinct : e.records.Distinct) (plain : e.overrides = []) (agreed : Agreed root.arrays e.inputs)
    (counted : (e.sourceCount = none ∧ e.inputs = [] ∧ e.steps = []) ∨
      ∃ count, e.sourceCount = some count ∧ firstCount e.inputs = some count) :
    Computes root i e (s.over e.inputs) ∧ Sees s (s.over e.inputs) := by
  have sees : Sees s (s.over e.inputs) := sees_wider computes.buffers inputs
  refine ⟨⟨distinct, ?_, plain, agreed, counted, ?_, computes.index, rfl, computes.stores, ?_, ?_⟩,
    sees⟩
  · rw [lets]
    exact computes.readable
  · rw [lets]
    exact (exec_over inputs _ rfl computes.ran).1
  · rw [lets]
    exact computes.named
  · rw [steps]
    exact fun tag o found node member tagged =>
      (computes.memo tag o found node member tagged).sees sees

theorem word?_extend (s : Invocation) (inputs : List Input) (number : Nat) (w : Word) :
    (Term.step number).form.word? (s.extend inputs number w) = some w := by
  simp [Term.form, Form.word?, Invocation.extend]

theorem Statement.exec_let {l : Let} {s : Invocation} {inputs : List Input} {w : Word}
    (buffers : s.buffers = namedBuffers inputs) (value : l.value.form.word? s = some w)
    (type : w.leaf.name = l.type.text) (number : Nat) :
    (l.statement number).exec s = some (s.extend inputs number w) := by
  have same : s.over inputs = s := by rw [Invocation.over, ← buffers]
  simp only [Let.statement, Statement.exec, value, type, Invocation.extend, same,
    Option.bind_eq_bind, Option.bind_some, if_true]

/-- One more statement, and the step that it is the value of. The new statement runs after those
that there are, and its variable is none of theirs. -/
theorem Computes.push {d : Draft} {s : Invocation} (computes : Computes root i d s)
    (started : d.sourceCount ≠ none) {l : Let} {w : Word} {tag : Tag} {t : ElementType}
    (readable : l.IsReadable) (value : l.value.form.word? s = some w)
    (type : w.leaf.name = l.type.text) (leaf : .leaf w.leaf = t)
    (only : ∀ q ∈ root.queries, q.stepTag? = some tag → q.wordAt i = some w ∧ q.type = t) :
    Computes root i { d with
      lets := d.lets ++ [l], steps := (tag, ⟨.step (d.lets.length + 1), t⟩) :: d.steps }
      (s.extend d.inputs (d.lets.length + 1) w) where
  distinct := computes.distinct
  readable l' member := by
    rcases List.mem_append.mp member with member | member
    · exact computes.readable l' member
    · obtain rfl := List.mem_singleton.mp member
      exact readable
  plain := computes.plain
  agreed := computes.agreed
  counted := by
    rcases computes.counted with ⟨none, _⟩ | known
    · exact absurd none started
    · exact .inr known
  ran := by
    rw [letStatements_append]
    refine exec_append computes.ran ?_
    simp only [exec, List.foldlM_cons, List.foldlM_nil, Statement.exec_let computes.buffers value type,
      Option.bind_eq_bind, Option.bind_some, Option.pure_def]
  index := computes.index
  buffers := rfl
  stores := computes.stores
  named name v found := by
    simp only [Invocation.extend, List.lookup_cons] at found
    rw [List.length_append]
    split at found
    · next named => exact ⟨d.lets.length + 1, Nat.le_refl _, beq_iff_eq.mp named⟩
    · obtain ⟨number, below, rfl⟩ := computes.named name v found
      exact ⟨number, Nat.le_succ_of_le below, rfl⟩
  memo tag' o found q member tagged := by
    simp only [List.lookup_cons] at found
    split at found
    · next same =>
      obtain rfl := Option.some.inj found
      obtain rfl := beq_iff_eq.mp same
      obtain ⟨word, typed⟩ := only q member tagged
      exact ⟨w, word, leaf, typed.symm, word?_extend ..⟩
    · exact (computes.memo tag' o found q member tagged).sees
        (computes.sees_extend List.prefix_rfl w)

theorem emit_computes (faithful : root.Faithful) {node body : Expr} {tag : Tag}
    {params : List Parameter} {inputs : List Operand} {bindings : List (String × Word)}
    {d e : Draft} {s : Invocation} {o : Operand} (computes : Computes root i d s)
    (started : d.sourceCount ≠ none) (integer : body.IsInteger params)
    (typed : body.type.isInteger = true) (within : ∀ a ∈ body.arrays, a ∈ root.arrays)
    (inRange : body.InRange bindings) (bound : Bound params (scopeOf params inputs) bindings s)
    (only : ∀ q ∈ root.queries, q.stepTag? = some tag → q.wordAt i = body.word? bindings ∧
      q.type = body.type)
    (run : emit node tag params body inputs d = .ok (o, e)) :
    ∃ t w, Computes root i e t ∧ Sees s t ∧ body.word? bindings = some w ∧
      .leaf w.leaf = o.type ∧ o.type = body.type ∧ o.term.form.word? t = some w := by
  obtain ⟨_, k, b, value, c, known, translated, rfl, rfl⟩ := emit_ok run
  obtain ⟨declared, spelled⟩ := valueType_ok.mp known
  obtain rfl := declare_integer typed declared
  have grows := translate_grows translated
  obtain ⟨w, result, leaf, word, agreed, plain⟩ := translate_computes faithful.arrays body integer
    within inRange computes.agreed computes.plain (bound.sees (sees_wider computes.buffers List.prefix_rfl))
    translated
  -- The translation of the body adds inputs and no statements; the statement of the step comes last.
  have started' : c.sourceCount ≠ none := grows.sourceCount ▸ started
  have counted : ∃ count, c.sourceCount = some count ∧ firstCount c.inputs = some count := by
    rcases computes.counted with ⟨none, _⟩ | ⟨count, known⟩
    · exact absurd none started
    · exact ⟨count, grows.sourceCount.trans known.1, firstCount_mono grows.inputs known.2⟩
  obtain ⟨grown, sees⟩ := computes.grow grows.inputs grows.lets grows.steps
    (translate_distinct translated computes.distinct) plain agreed (.inr counted)
  have readable : (Let.mk k value).IsReadable :=
    ⟨RecordNames.typeOf_readable computes.distinct spelled,
      translate_readable body computes.distinct (signsApart_of_isInteger body integer) translated⟩
  refine ⟨s.extend c.inputs (c.lets.length + 1) w, w, ?_, sees.trans
    (grown.sees_extend List.prefix_rfl w), result, leaf, rfl, word?_extend ..⟩
  refine grown.push started' readable word (integer_typeOf typed spelled leaf) leaf ?_
  intro q member tagged
  obtain ⟨value, type⟩ := only q member tagged
  exact ⟨value.trans result, type⟩

theorem integer_type {params : List Parameter}
    (known : ∀ p ∈ params, p.type.isInteger = true) : ∀ e : Expr, e.IsInteger params →
      e.type.isInteger = true
  | .constant (.i32 _), _ | .constant (.u32 _), _ => rfl
  | .parameter p, integer => known p integer
  | .binary _ l _ _, integer => by
    have left := integer_type known l integer.2.1
    rw [integer.2.2.2.1] at left
    exact left
  | .negate _ t, integer => by
    have same : t = .i32 := integer.2.2.1
    rw [Expr.type, same]
    rfl
  | .convert _ _ _, integer => integer.2
  | .index (.array _) _ _, integer => integer.2.1

theorem integerQuery_type : ∀ node : Expr, node.IsIntegerQuery → node.type.isInteger = true
  | .array _, integer => integer
  | .select _ source _ body, ⟨before, p, _, type, inner⟩ => by
    refine integer_type (fun q member => ?_) body inner
    obtain rfl := List.mem_singleton.mp member
    rw [type]
    exact integerQuery_type source before
  | .zip _ first second _ body, ⟨before, before', p, q, _, type, type', _, inner⟩ => by
    refine integer_type (fun r member => ?_) body inner
    rcases List.mem_cons.mp member with rfl | member
    · rw [type]
      exact integerQuery_type first before
    · obtain rfl := List.mem_singleton.mp member
      rw [type']
      exact integerQuery_type second before'

theorem bindSource_computes (faithful : root.Faithful) {node : Expr} {a : SharedArray}
    {d e : Draft} {s : Invocation} {o : Operand} (integer : a.data.element.isInteger = true)
    (member : a ∈ root.arrays) (computes : Computes root i d s)
    (run : bindSource node a d = .ok (o, e)) (inside : ∀ n, firstCount e.inputs = some n → i < n) :
    ∃ t, Computes root i e t ∧ Sees s t ∧ Holds i t o (.array a) ∧ e.sourceCount ≠ none := by
  obtain ⟨slot, c, started, bound, rfl⟩ := bindSource_ok run
  have grows := bindArray_grows bound
  have kept : c.inputs = d.inputs ∧ c.lets = d.lets ∧ c.steps = d.steps ∧
      c.overrides = d.overrides ∧ c.records = d.records ∧ c.sourceCount = some a.data.count ∧
      ∀ count, d.sourceCount = some count → count = a.data.count := by
    rcases started with ⟨none, rfl⟩ | ⟨counted, rfl⟩
    · exact ⟨rfl, rfl, rfl, rfl, rfl, rfl, fun _ known => nomatch none.symm.trans known⟩
    · exact ⟨rfl, rfl, rfl, rfl, rfl, counted, fun _ known =>
        Option.some.inj (known.symm.trans counted)⟩
  obtain ⟨inputs, lets, steps, overrides, records, counted, one⟩ := kept
  have settled : e.sourceCount = some a.data.count := grows.sourceCount.trans counted
  obtain ⟨held, agreed⟩ := bindArray_slot faithful.arrays member (inputs ▸ computes.agreed) bound
  have first : firstCount e.inputs = some a.data.count := by
    rcases computes.counted with ⟨_, empty, _⟩ | ⟨count, same, head⟩
    · rcases bindArray_ok bound with ⟨found, _⟩ | ⟨_, _, storage, f, stored, rfl⟩
      · simp [inputs, empty] at found
      · have frame := (declare_frame node _ c () f (storageType_ok.mp stored).1).1
        simp [firstCount, frame, inputs, empty]
    · obtain rfl := one count same
      rw [← inputs] at head
      exact firstCount_mono grows.inputs head
  have distinct : e.records.Distinct :=
    distinct_kept.bound node a trivial c slot e bound (records ▸ computes.distinct)
  obtain ⟨grown, sees⟩ := computes.grow (inputs ▸ grows.inputs) (grows.lets.trans lets)
    (grows.steps.trans steps) distinct ((bindArray_overrides bound).trans
      (overrides.trans computes.plain)) agreed (.inr ⟨_, settled, first⟩)
  obtain ⟨w, value, leaf⟩ := HostArray.word?_exists integer (inside _ first)
  refine ⟨s.over e.inputs, grown, sees, ⟨w, value, leaf, rfl, ?_⟩, by simp [settled]⟩
  have numeric : a.data.element ≠ .bool := by
    intro same
    rw [same] at integer
    exact absurd integer (by decide)
  have buffer : (s.over e.inputs).buffers.lookup (Program.bufferName slot) = some a.data :=
    (lookup_namedBuffers e.inputs slot).trans held
  simp only [Operand.term, if_neg numeric, Term.form, invocationForm, Form.word?]
  change ((s.over e.inputs).buffers.lookup (Program.bufferName slot)).bind _ = _
  rw [buffer]
  exact (congrArg a.data.word? computes.index).trans value

theorem Computes.started {d : Draft} {s : Invocation} (computes : Computes root i d s) {tag : Tag}
    {o : Operand} (found : d.steps.lookup tag = some o) : d.sourceCount ≠ none := by
  rcases computes.counted with ⟨_, _, empty⟩ | ⟨count, counted, _⟩
  · rw [empty] at found
    exact nomatch found
  · simp [counted]

theorem bound_one {p : Parameter} {o : Operand} {w : Word} {s : Invocation}
    (type : .leaf w.leaf = p.type) (word : o.term.form.word? s = some w) :
    Bound [p] (scopeOf [p] [o]) ([p.name].zip [w]) s := by
  intro r member
  obtain rfl := List.mem_singleton.mp member
  exact ⟨o, w, by simp [scopeOf], by simp, type, word⟩

/-- The scope holds the parameters in reverse; their names are distinct. -/
theorem bound_two {p q : Parameter} {x y : Operand} {v w : Word} {s : Invocation}
    (distinct : p.name ≠ q.name) (type : .leaf v.leaf = p.type) (word : x.term.form.word? s = some v)
    (type' : .leaf w.leaf = q.type) (word' : y.term.form.word? s = some w) :
    Bound [p, q] (scopeOf [p, q] [x, y]) ([p.name, q.name].zip [v, w]) s := by
  have other : (p.name == q.name) = false := beq_eq_false_iff_ne.mpr distinct
  have other' : (q.name == p.name) = false := beq_eq_false_iff_ne.mpr distinct.symm
  intro r member
  rcases List.mem_cons.mp member with rfl | member
  · exact ⟨x, v, by simp [scopeOf, List.lookup_cons, other], by simp, type, word⟩
  · obtain rfl := List.mem_singleton.mp member
    exact ⟨y, w, by simp [scopeOf], by simp [List.lookup_cons, other'], type', word'⟩

theorem step_computes (faithful : root.Faithful) : ∀ (node : Expr) {d e : Draft} {s : Invocation}
    {o : Operand}, node.IsIntegerQuery → node.InRangeAt i →
    (∀ q ∈ node.queries, q ∈ root.queries) → (∀ a ∈ node.arrays, a ∈ root.arrays) →
    Computes root i d s → step node d = .ok (o, e) →
    (∀ n, firstCount e.inputs = some n → i < n) →
    ∃ t, Computes root i e t ∧ Sees s t ∧ Holds i t o node ∧ e.sourceCount ≠ none
  | .array a, d, e, s, o, integer, _, _, member, computes, run, inside =>
    bindSource_computes faithful integer (member a List.mem_cons_self) computes run inside
  | .select tag source params body, d, e, s, o, integer, inRange, known, within, computes, run,
      inside => by
    have member := known (.select tag source params body) List.mem_cons_self
    -- A step that there is has its value already; a new one comes after its source.
    rcases step_select_ok run with ⟨found, rfl⟩ | ⟨_, input, c, compiled, emitted⟩
    · exact ⟨s, computes, .refl s, computes.memo tag o found _ member rfl, computes.started found⟩
    · obtain ⟨counted, more⟩ := emit_inputs emitted
      obtain ⟨t, computes', sees, holds, started⟩ := step_computes faithful source integer.1 inRange.1
        (fun q inner => known q (List.mem_cons_of_mem _ inner))
        (fun a inner => within a (List.mem_append_left _ inner)) computes compiled
        (fun n same => inside n (firstCount_mono more same))
      have typed := integerQuery_type _ integer
      obtain ⟨v, value, leaf, type, word⟩ := holds
      obtain ⟨_, p, rfl, same, inner⟩ := integer
      obtain ⟨u, w, computes'', sees', result, leaf', type', word'⟩ := emit_computes faithful
        computes' started inner typed (fun a inner => within a (List.mem_append_right _ inner))
        (inRange.2 v value) (bound_one (leaf.trans (type.trans same.symm)) word)
        (fun q inner tagged => by
          obtain rfl := faithful.queries q inner _ member tagged
          simp [Expr.wordAt, value, Expr.type]) emitted
      refine ⟨u, computes'', sees.trans sees', ⟨w, ?_, leaf', type', word'⟩, by rwa [counted]⟩
      simpa [Expr.wordAt, value] using result
  | .zip tag first second params body, d, e, s, o, integer, inRange, known, within, computes, run,
      inside => by
    have member := known (.zip tag first second params body) List.mem_cons_self
    rcases step_zip_ok run with ⟨found, rfl⟩ | ⟨_, x, y, b, c, compiled, compiled', emitted⟩
    · exact ⟨s, computes, .refl s, computes.memo tag o found _ member rfl, computes.started found⟩
    · obtain ⟨counted, more⟩ := emit_inputs emitted
      -- The length is that of the first input, and holds for the sources as it does in the end.
      have insideSecond : ∀ n, firstCount c.inputs = some n → i < n :=
        fun n same => inside n (firstCount_mono more same)
      obtain ⟨s', before, sees, holds, started⟩ := step_computes faithful first integer.1 inRange.1
        (fun q inner => known q (List.mem_cons_of_mem _ (List.mem_append_left _ inner)))
        (fun a inner => within a (List.mem_append_left _ inner)) computes compiled
        (fun n same => insideSecond n (firstCount_mono (step_inputs second compiled') same))
      obtain ⟨t, computes', sees', holds', started'⟩ := step_computes faithful second integer.2.1
        inRange.2.1 (fun q inner => known q (List.mem_cons_of_mem _ (List.mem_append_right _ inner)))
        (fun a inner => within a (List.mem_append_right _ (List.mem_append_left _ inner))) before
        compiled' insideSecond
      have typed := integerQuery_type _ integer
      obtain ⟨v, value, leaf, type, word⟩ := holds.sees sees'
      obtain ⟨w, value', leaf', type', word'⟩ := holds'
      obtain ⟨_, _, p, q, rfl, same, same', distinct, inner⟩ := integer
      obtain ⟨u, z, computes'', sees'', result, leaf'', type'', word''⟩ := emit_computes faithful
        computes' started' inner typed
        (fun a inner => within a (List.mem_append_right _ (List.mem_append_right _ inner)))
        (inRange.2.2 v w value value')
        (bound_two distinct (leaf.trans (type.trans same.symm)) word
          (leaf'.trans (type'.trans same'.symm)) word')
        (fun q inner tagged => by
          obtain rfl := faithful.queries q inner _ member tagged
          simp [Expr.wordAt, value, value', Expr.type]) emitted
      refine ⟨u, computes'', sees.trans (sees'.trans sees''), ⟨z, ?_, leaf'', type'', word''⟩,
        by rwa [counted]⟩
      simpa [Expr.wordAt, value, value'] using result

theorem computes_start (root : Expr) (i : Nat) :
    Computes root i {} { index := i, buffers := namedBuffers [] } where
  distinct := ⟨nofun, .nil⟩
  readable _ member := nomatch member
  plain := rfl
  agreed _ _ _ member := nomatch member
  counted := .inl ⟨rfl, rfl, rfl⟩
  ran := rfl
  index := rfl
  buffers := rfl
  stores := rfl
  named _ _ found := nomatch found
  memo _ _ found := nomatch found

theorem Program.stores_eq {p : Program} {s : Invocation} {v : Word}
    (readable : ∀ l ∈ p.lets, l.IsReadable)
    (ran : exec (letStatements p.lets) (p.invocation i) = some s) (index : s.index = i)
    (none : s.stores = []) (word : (stored p.result).form.word? s = some v) :
    p.stores i = some [⟨bufferName p.outputSlot, i, v⟩] := by
  have last : exec [p.storeStatement] s =
      some { s with stores := [⟨bufferName p.outputSlot, i, v⟩] } := by
    simp only [exec, List.foldlM_cons, List.foldlM_nil, storeStatement, Statement.exec, Term.form,
      invocationForm, Form.place?, word, index, none]
    rfl
  rw [stores, readBody_bodyText readable, statements]
  change (exec (letStatements p.lets ++ [p.storeStatement]) (p.invocation i)).bind _ = _
  rw [exec_append ran last]
  rfl

/-- The body of the kernel of a query over 32-bit integers, as it is read, stores the element that
the query has at the index, at that index of the output. -/
theorem compile_stores {root : Expr} {workgroupSize i : Nat} {p : Program}
    (faithful : root.Faithful) (integer : root.IsIntegerQuery)
    (compiled : compile workgroupSize root = .ok p) (inside : i < p.count)
    (inRange : root.InRangeAt i) :
    ∃ v, root.wordAt i = some v ∧
      p.stores i = some [⟨Program.bufferName p.outputSlot, i, v⟩] := by
  obtain ⟨result, storage, d, rooted, rfl⟩ := compile_ok compiled
  obtain ⟨_, o, c, stepped, rfl, stored⟩ := root_ok rooted
  have typed := integerQuery_type root integer
  obtain rfl := declare_integer typed (storageType_ok.mp stored).1
  have counted : ∀ n, firstCount d.inputs = some n → i < n := by
    intro n first
    obtain ⟨input, head, rfl⟩ := Option.map_eq_some_iff.mp first
    obtain ⟨rest, inputs⟩ := List.head?_eq_some_iff.mp head
    simpa [Program.count, inputs] using inside
  obtain ⟨s, computes, _, ⟨v, value, leaf, type, word⟩, _⟩ := step_computes faithful root integer
    inRange (fun _ => id) (fun _ => id) (computes_start root i) stepped counted
  refine ⟨v, value, ?_⟩
  have same : (⟨o.target, root.type⟩ : Operand) = o := by rw [← type]
  have numeric : root.type ≠ .bool := by
    intro other
    rw [other] at typed
    exact absurd typed (by decide)
  have final : (Program.stored ⟨o.target, root.type⟩).form.word? s = some v := by
    rw [Program.stored, if_neg numeric, same]
    exact word
  exact Program.stores_eq computes.readable computes.ran computes.index computes.stores final

def squaresQuery : Expr :=
  let values : SharedArray := ⟨1, .ofList [(5 : Int32), -7, 9]⟩
  let positions : SharedArray := ⟨2, .ofList [(2 : UInt32), 1, 0]⟩
  let x : Parameter := ⟨"x", .i32⟩
  let y : Parameter := ⟨"y", .u32⟩
  let squares := Expr.select 3 (.array values) [x] (.binary .mul (.parameter x) (.parameter x) .i32)
  .zip 4 squares (.array positions) [x, y]
    (.binary .sub (.parameter x) (.index (.array values) (.parameter y) .i32) .i32)

theorem squaresQuery_faithful : squaresQuery.Faithful := by
  constructor <;>
  · simp [squaresQuery, Expr.queries, Expr.arrays, Expr.stepTag?]

theorem squaresQuery_integer : squaresQuery.IsIntegerQuery := by
  refine ⟨⟨rfl, _, rfl, rfl, ?_⟩, rfl, _, _, rfl, rfl, rfl, by decide, ?_⟩
  · exact ⟨.inr (.inr rfl), List.mem_cons_self, List.mem_cons_self, rfl, rfl⟩
  · exact ⟨.inr (.inl rfl), List.mem_cons_self,
      ⟨rfl, rfl, List.mem_cons_of_mem _ List.mem_cons_self, rfl⟩, rfl, rfl⟩

theorem squaresQuery_inRange : squaresQuery.InRangeAt 0 := by
  refine ⟨⟨trivial, fun _ _ => ⟨trivial, trivial⟩⟩, trivial, fun v w _ second => ?_⟩
  obtain rfl : .unsigned 2 = w := Option.some.inj second
  refine ⟨trivial, trivial, fun u found => ?_⟩
  obtain rfl : .unsigned 2 = u := Option.some.inj found
  decide

/-- The first value is 5, and the value at the first position 9. -/
theorem squaresQuery_stores : ∃ p, compile 64 squaresQuery = .ok p ∧ 0 < p.count ∧
    p.stores 0 = some [⟨"buf2", 0, .signed 16⟩] := by
  have compiled : compile 64 squaresQuery = .ok _ := rfl
  have inside : 0 < 3 := by decide
  obtain ⟨v, value, stored⟩ := compile_stores squaresQuery_faithful squaresQuery_integer compiled
    inside squaresQuery_inRange
  obtain rfl : .signed 16 = v := Option.some.inj value
  exact ⟨_, compiled, inside, stored⟩

end ArrayQuery.Kernel
