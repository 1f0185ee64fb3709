import ArrayQuery.Proofs.TypedQueries

/-! The operators of a query in the order in which they are compiled. Each is compiled once, however
often it is used, and after what it is applied to. -/

set_option autoImplicit false
namespace ArrayQuery

namespace Expr

def operands : Expr → List Expr
  | select _ source _ _ => [source]
  | zip _ first second _ _ => [first, second]
  | _ => []

theorem mem_queries_self {node : Expr} (query : node.isQuery = true) : node ∈ node.queries := by
  cases node with
  | select => exact List.mem_cons_self
  | zip => exact List.mem_cons_self
  | _ => exact absurd query Bool.false_ne_true

theorem mem_queries_iff {node q : Expr} :
    q ∈ node.queries ↔ (q = node ∧ node.isQuery = true) ∨
      ∃ source ∈ node.operands, q ∈ source.queries := by
  cases node <;> simp [queries, operands, isQuery]

theorem sizeOf_le_of_mem_queries {node : Expr} : ∀ {root : Expr}, node ∈ root.queries →
    sizeOf node ≤ sizeOf root
  | select tag source params body, held => by
    rcases List.mem_cons.mp held with rfl | inside
    · exact Nat.le_refl _
    · have smaller := sizeOf_le_of_mem_queries inside
      simp only [select.sizeOf_spec]
      omega
  | zip tag first second params body, held => by
    rcases List.mem_cons.mp held with rfl | inside
    · exact Nat.le_refl _
    · simp only [zip.sizeOf_spec]
      rcases List.mem_append.mp inside with inside | inside
      · have smaller := sizeOf_le_of_mem_queries inside
        omega
      · have smaller := sizeOf_le_of_mem_queries inside
        omega

theorem not_mem_operand_queries {node source : Expr} (member : source ∈ node.operands) :
    node ∉ source.queries := by
  intro inside
  have larger := sizeOf_le_of_mem_queries inside
  cases node with
  | select =>
    obtain rfl := List.mem_singleton.mp member
    simp only [select.sizeOf_spec] at larger
    omega
  | zip =>
    rcases List.mem_cons.mp member with rfl | member
    · simp only [zip.sizeOf_spec] at larger
      omega
    · obtain rfl := List.mem_singleton.mp member
      simp only [zip.sizeOf_spec] at larger
      omega
  | _ => exact nomatch member

end Expr

namespace Kernel

open Compile

def Input.shared (i : Input) : SharedArray :=
  ⟨i.tag, i.array⟩

/-- Whether a draft is what a run has come to from another one. -/
structure Onward (d e : Draft) : Prop extends Later d e where
  counted : ∀ n, d.sourceCount = some n → e.sourceCount = some n

theorem Onward.refl (d : Draft) : Onward d d :=
  ⟨.refl d, fun _ => id⟩

theorem Onward.trans {d e f : Draft} (first : Onward d e) (second : Onward e f) : Onward d f :=
  ⟨first.toLater.trans second.toLater, fun _ known => second.counted _ (first.counted _ known)⟩

theorem emit_onward {node body : Expr} {tag : Tag} {params : List Parameter} {inputs : List Operand}
    {d e : Draft} {o : Operand} (run : emit node tag params body inputs d = .ok (o, e)) :
    Onward d e :=
  ⟨emit_later run, fun _ known => (emit_inputs run).1.trans known⟩

theorem bindSource_counted {node : Expr} {a : SharedArray} {d e : Draft} {o : Operand}
    (run : bindSource node a d = .ok (o, e)) : e.sourceCount = some a.data.count := by
  obtain ⟨slot, bound, _⟩ := bindSource_bound run
  exact (bindArray_grows bound).sourceCount

theorem bindSource_onward {node : Expr} {a : SharedArray} {d e : Draft} {o : Operand}
    (run : bindSource node a d = .ok (o, e)) : Onward d e := by
  refine ⟨bindSource_later run, fun n known => ?_⟩
  obtain ⟨_, _, _, none | counted⟩ := bindSource_bound run
  · exact nomatch none.symm.trans known
  · rw [bindSource_counted run, ← counted, known]

theorem Steps.onward {node : Expr} {d e : Draft} {o : Operand} (run : Steps node d o e) :
    Onward d e := by
  induction run with
  | source bound => exact bindSource_onward bound
  | shared => exact .refl _
  | select _ _ last ih => exact ih.trans (emit_onward last)
  | zip _ _ _ last ihl ihr => exact ihl.trans (ihr.trans (emit_onward last))

/-- Whether an operand stands for a source: an element of the array, in the slot it is bound to, or the
value of the operator, which has the number of its place. -/
inductive Stands (nodes : List Expr) (d : Draft) : Expr → Operand → Prop where
  | array {a : SharedArray} {slot : Nat} (bound : d.inputs[slot]?.map Input.shared = some a)
      (counted : d.sourceCount = some a.data.count) :
      Stands nodes d (.array a) ⟨.buffer slot, a.data.element⟩
  | operator {node : Expr} {k : Nat} (known : nodes[k]? = some node)
      (query : node.isQuery = true) : Stands nodes d node ⟨.step (k + 1), node.type⟩

theorem Stands.later {nodes : List Expr} {d e : Draft} {source : Expr} {o : Operand}
    (stands : Stands nodes d source o) (onward : Onward d e) (more : List Expr) :
    Stands (nodes ++ more) e source o := by
  cases stands with
  | array bound counted =>
    obtain ⟨i, found, rfl⟩ := Option.map_eq_some_iff.mp bound
    refine .array ?_ (onward.counted _ counted)
    rw [getElem?_extends onward.inputs found, Option.map_some]
  | operator known query =>
    exact .operator (getElem?_extends (List.prefix_append _ _) known) query

/-- How an operator was compiled: from operands that stand for its sources. -/
inductive Emitted (nodes : List Expr) : Expr → Draft → Draft → Prop where
  | select {tag : Tag} {source body : Expr} {params : List Parameter} {x o : Operand} {d e : Draft}
      (known : Stands nodes d source x)
      (run : emit (.select tag source params body) tag params body [x] d = .ok (o, e)) :
      Emitted nodes (.select tag source params body) d e
  | zip {tag : Tag} {first second body : Expr} {params : List Parameter} {x y o : Operand}
      {d e : Draft} (left : Stands nodes d first x) (right : Stands nodes d second y)
      (run : emit (.zip tag first second params body) tag params body [x, y] d = .ok (o, e)) :
      Emitted nodes (.zip tag first second params body) d e

/-! ## Traces -/

theorem getElem?_concat {α : Type} {xs : List α} {x y : α} {k : Nat}
    (found : (xs ++ [x])[k]? = some y) : xs[k]? = some y ∨ (k = xs.length ∧ y = x) := by
  rcases Nat.lt_or_ge k xs.length with inside | outside
  · rw [List.getElem?_append_left inside] at found
    exact .inl found
  · rw [List.getElem?_append_right outside] at found
    obtain ⟨last, same⟩ := List.getElem?_eq_some_iff.mp found
    rw [List.length_singleton] at last
    exact .inr ⟨by omega, by simpa using same.symm⟩

/-- What is true of a draft when the operators of a list have been compiled, in the order of the
list. -/
structure Traced (root : Expr) (nodes : List Expr) (d : Draft) : Prop where
  steady : Steady root.arrays [] d
  length : d.lets.length = nodes.length
  within : ∀ node ∈ nodes, node ∈ root.queries
  distinct : (nodes.map Expr.stepTag?).Nodup
  complete : ∀ node ∈ nodes, ∀ q ∈ node.queries, q ∈ nodes
  memo : ∀ tag o, d.steps.lookup tag = some o ↔
    ∃ k node, nodes[k]? = some node ∧ node.stepTag? = some tag ∧ o = ⟨.step (k + 1), node.type⟩
  emitted : ∀ k node, nodes[k]? = some node → ∃ c e, Steady root.arrays [] c ∧ c.lets.length = k ∧
    Emitted (nodes.take k) node c e ∧ Onward e d

theorem traced_start (root : Expr) : Traced root [] {} where
  steady := steady_start _ _
  length := rfl
  within _ member := nomatch member
  distinct := .nil
  complete _ member := nomatch member
  memo _ _ := ⟨nofun, fun ⟨_, _, known, _⟩ => nomatch known⟩
  emitted _ _ known := nomatch known

section Runs

variable {root : Expr} {nodes : List Expr} {d e : Draft}

theorem Traced.found (traced : Traced root nodes d) (faithful : root.Faithful) {node : Expr}
    {tag : Tag} {o : Operand} (member : node ∈ root.queries) (tagged : node.stepTag? = some tag)
    (known : d.steps.lookup tag = some o) :
    ∃ k : Nat, nodes[k]? = some node ∧ o = ⟨.step (k + 1), node.type⟩ := by
  obtain ⟨k, other, place, tagged', rfl⟩ := (traced.memo tag o).mp known
  have held := traced.within other (List.mem_of_getElem? place)
  obtain rfl := faithful.queries other held node member (tagged'.trans tagged.symm)
  exact ⟨k, place, rfl⟩

theorem Traced.fresh (traced : Traced root nodes d) {tag : Tag}
    (absent : d.steps.lookup tag = none) : some tag ∉ nodes.map Expr.stepTag? := by
  intro member
  obtain ⟨node, held, tagged⟩ := List.mem_map.mp member
  obtain ⟨k, place⟩ := List.getElem?_of_mem held
  have found := (traced.memo tag _).mpr ⟨k, node, place, tagged, rfl⟩
  exact nomatch absent.symm.trans found

theorem Traced.bind (traced : Traced root nodes d) (steady : Steady root.arrays [] e)
    (onward : Onward d e) (lets : e.lets = d.lets) (steps : e.steps = d.steps) :
    Traced root nodes e where
  steady := steady
  length := lets ▸ traced.length
  within := traced.within
  distinct := traced.distinct
  complete := traced.complete
  memo := steps ▸ traced.memo
  emitted k node known := by
    obtain ⟨c, f, before, number, emitted, later⟩ := traced.emitted k node known
    exact ⟨c, f, before, number, emitted, later.trans onward⟩

theorem Traced.extend (traced : Traced root nodes d) {node : Expr} {tag : Tag} {o : Operand}
    (member : node ∈ root.queries) (tagged : node.stepTag? = some tag)
    (absent : some tag ∉ nodes.map Expr.stepTag?)
    (complete : ∀ source ∈ node.operands, ∀ q ∈ source.queries, q ∈ nodes)
    (emitted : Emitted nodes node d e) (steady : Steady root.arrays [] e) (onward : Onward d e)
    (lets : e.lets.length = d.lets.length + 1)
    (named : o = ⟨.step (d.lets.length + 1), node.type⟩) (steps : e.steps = (tag, o) :: d.steps) :
    Traced root (nodes ++ [node]) e where
  steady := steady
  length := by rw [lets, traced.length, List.length_append, List.length_singleton]
  within q held := by
    rcases List.mem_append.mp held with held | held
    · exact traced.within q held
    · exact List.mem_singleton.mp held ▸ member
  distinct := by
    rw [List.map_append, List.map_singleton, tagged]
    exact List.Nodup.append traced.distinct (List.nodup_singleton _)
      (List.disjoint_singleton.mpr absent)
  complete q held r inside := by
    refine List.mem_append.mpr ?_
    rcases List.mem_append.mp held with held | held
    · exact .inl (traced.complete q held r inside)
    · -- The new operator is made from itself and from what its sources are made from.
      obtain rfl := List.mem_singleton.mp held
      rcases Expr.mem_queries_iff.mp inside with ⟨rfl, _⟩ | ⟨source, operand, deeper⟩
      · exact .inr List.mem_cons_self
      · exact .inl (complete source operand r deeper)
  memo tag' o' := by
    rw [steps, List.lookup_cons]
    constructor
    · intro found
      split at found
      · next same =>
        obtain rfl := beq_iff_eq.mp same
        obtain rfl := Option.some.inj found
        refine ⟨nodes.length, node, List.getElem?_concat_length, tagged, ?_⟩
        rw [named, traced.length]
      · obtain ⟨k, q, known, tagged', rfl⟩ := (traced.memo tag' o').mp found
        exact ⟨k, q, getElem?_extends (List.prefix_append _ _) known, tagged', rfl⟩
    · rintro ⟨k, q, known, tagged', rfl⟩
      rcases getElem?_concat known with known | ⟨rfl, rfl⟩
      · -- The new entry does not hide the earlier ones, since its tag is new.
        have apart : (tag' == tag) = false := by
          refine beq_eq_false_iff_ne.mpr ?_
          rintro rfl
          exact absent (tagged' ▸ List.mem_map_of_mem (List.mem_of_getElem? known))
        rw [apart]
        exact (traced.memo tag' _).mpr ⟨k, q, known, tagged', rfl⟩
      · obtain rfl := Option.some.inj (tagged'.symm.trans tagged)
        rw [beq_self_eq_true, named, traced.length]
  emitted k q known := by
    rcases getElem?_concat known with known | ⟨rfl, rfl⟩
    · -- What was there before an earlier operator is the same part of the longer list.
      have before : k ≤ nodes.length := (List.getElem?_eq_some_iff.mp known).1.le
      obtain ⟨c, f, steady', number, emitted', later⟩ := traced.emitted k q known
      rw [List.take_append_of_le_length before]
      exact ⟨c, f, steady', number, emitted', later.trans onward⟩
    · rw [List.take_left]
      exact ⟨d, e, traced.steady, traced.length, emitted, .refl e⟩

/-- What is compiled between is made from the sources of an operator, so that it is not the operator
itself. -/
theorem fresh_append (faithful : root.Faithful) {more : List Expr} {node : Expr} {tag : Tag}
    (member : node ∈ root.queries) (tagged : node.stepTag? = some tag)
    (absent : some tag ∉ nodes.map Expr.stepTag?) (within : ∀ q ∈ more, q ∈ root.queries)
    (made : ∀ q ∈ more, ∃ source ∈ node.operands, q ∈ source.queries) :
    some tag ∉ (nodes ++ more).map Expr.stepTag? := by
  rw [List.map_append, List.mem_append]
  rintro (held | held)
  · exact absent held
  · obtain ⟨q, inside, tagged'⟩ := List.mem_map.mp held
    obtain rfl := faithful.queries q (within q inside) node member (tagged'.trans tagged.symm)
    obtain ⟨source, operand, deeper⟩ := made q inside
    exact Expr.not_mem_operand_queries operand deeper

theorem bindArray_shared {known : List SharedArray} {node : Expr} {a : SharedArray} {slot : Nat}
    (member : a ∈ known) (agreed : Agreed known d.inputs)
    (run : bindArray node a d = .ok (slot, e)) : e.inputs[slot]?.map Input.shared = some a := by
  rcases bindArray_ok run with ⟨found, rfl⟩ | ⟨_, rfl, storage, c, stored, rfl⟩
  · obtain ⟨inside, same, _⟩ := List.findIdx?_eq_some_iff_getElem.mp found
    have tagged : e.inputs[slot].tag = a.tag := by simpa using same
    have data := agreed a member e.inputs[slot] (List.getElem_mem inside) tagged
    rw [List.getElem?_eq_getElem inside, Option.map_some, Input.shared, tagged, data]
  · have inputs := (declare_frame node _ d () c (storageType_ok.mp stored).1).1
    rw [inputs, List.getElem?_concat_length, Option.map_some, Input.shared]

theorem bindSource_stands {a : SharedArray} {o : Operand} {node : Expr} (member : a ∈ root.arrays)
    (agreed : Agreed root.arrays d.inputs) (run : bindSource node a d = .ok (o, e)) :
    Stands nodes e (.array a) o := by
  have counted := bindSource_counted run
  obtain ⟨slot, bound, rfl, _⟩ := bindSource_bound run
  have before : Agreed root.arrays { d with sourceCount := some a.data.count }.inputs := agreed
  exact .array (bindArray_shared member before bound) counted

/-- What the compilation of a node comes to: more operators are compiled, which are those of the node
that were not compiled before. -/
structure Compiled (root : Expr) (nodes more : List Expr) (node : Expr) (o : Operand) (e : Draft) :
    Prop where
  traced : Traced root (nodes ++ more) e
  stands : Stands (nodes ++ more) e node o
  covers : ∀ q ∈ node.queries, q ∈ nodes ++ more
  made : ∀ q ∈ more, q ∈ node.queries
  last : node ∈ more → more.getLast? = some node

theorem Traced.compiled {more : List Expr} (traced : Traced root (nodes ++ more) d)
    (faithful : root.Faithful) {node body : Expr} {tag : Tag} {params : List Parameter}
    {inputs : List Operand} {o : Operand} (within : ∀ q ∈ node.queries, q ∈ root.queries)
    (run : emit node tag params body inputs d = .ok (o, e)) (query : node.isQuery = true)
    (tagged : node.stepTag? = some tag) (type : node.type = body.type)
    (absent : some tag ∉ nodes.map Expr.stepTag?)
    (made : ∀ q ∈ more, ∃ source ∈ node.operands, q ∈ source.queries)
    (covered : ∀ source ∈ node.operands, ∀ q ∈ source.queries, q ∈ nodes ++ more)
    (held : ∀ a ∈ body.arrays, a ∈ root.arrays) (emitted : Emitted (nodes ++ more) node d e) :
    Compiled root nodes (more ++ [node]) node o e := by
  have inside : ∀ q ∈ more, q ∈ node.queries := fun q member =>
    Expr.mem_queries_iff.mpr (.inr (made q member))
  have own := Expr.mem_queries_self query
  -- What was compiled on the way is made from the sources, so that the operator is still a new one.
  have absent' := fresh_append faithful (within node own) tagged absent
    (fun q member => within q (inside q member)) made
  obtain ⟨k, value, lets, named, steps⟩ := emit_added run
  obtain ⟨steady, _⟩ := emit_steady faithful.arrays held (.inr fun _ _ => List.not_mem_nil)
    traced.steady run
  have added : e.lets.length = d.lets.length + 1 := by
    rw [lets, List.length_append, List.length_singleton]
  have traced' := traced.extend (within node own) tagged absent' covered emitted steady
    (emit_onward run) added (by rw [named, type]) steps
  have last : (nodes ++ more ++ [node])[d.lets.length]? = some node := by
    rw [traced.length, List.getElem?_concat_length]
  have stands : Stands (nodes ++ more ++ [node]) e node o := by
    rw [named, ← type]
    exact .operator last query
  rw [List.append_assoc] at traced' stands
  refine ⟨traced', stands, fun q member => ?_, fun q member => ?_, fun _ => List.getLast?_concat⟩
  · exact traced'.complete node (List.mem_append_right _ (List.mem_append_right _ List.mem_cons_self)) q
      member
  · rcases List.mem_append.mp member with member | member
    · exact inside q member
    · rw [List.mem_singleton.mp member]
      exact own

theorem Steps.traced (faithful : root.Faithful) {node : Expr} {o : Operand}
    (run : Steps node d o e) (within : ∀ q ∈ node.queries, q ∈ root.queries)
    (held : ∀ a ∈ node.arrays, a ∈ root.arrays) (traced : Traced root nodes d) :
    ∃ more, Compiled root nodes more node o e := by
  induction run generalizing nodes with
  | source bound =>
    have member := held _ List.mem_cons_self
    obtain ⟨steady, _⟩ := bindSource_steady faithful.arrays member traced.steady bound
    obtain ⟨slot, bound', _⟩ := bindSource_bound bound
    have traced' := traced.bind steady (bindSource_onward bound) (bindArray_grows bound').lets
      (bindArray_grows bound').steps
    rw [← List.append_nil nodes] at traced'
    exact ⟨[], traced', bindSource_stands member traced.steady.agreed bound, nofun, nofun, nofun⟩
  | @shared node tag d o tagged found =>
    have query : node.isQuery = true := by
      cases node with
      | select => rfl
      | zip => rfl
      | _ => exact nomatch tagged
    obtain ⟨k, known, rfl⟩ :=
      traced.found faithful (within node (Expr.mem_queries_self query)) tagged found
    have covers := traced.complete node (List.mem_of_getElem? known)
    -- The operator has its place in the list, and nothing is compiled.
    rw [← List.append_nil nodes] at traced known covers
    exact ⟨[], traced, .operator known query, covers, nofun, nofun⟩
  | @select tag source body params d c e x o absent first last ih =>
    obtain ⟨more, traced', stands, covers, made, _⟩ := ih
      (fun q inside => within q (List.mem_cons_of_mem _ inside))
      (fun a inside => held a (List.mem_append_left _ inside)) traced
    have made' : ∀ q ∈ more, ∃ s ∈ [source], q ∈ s.queries :=
      fun q inside => ⟨source, List.mem_cons_self, made q inside⟩
    have covered : ∀ s ∈ [source], ∀ q ∈ s.queries, q ∈ nodes ++ more :=
      fun s operand => List.mem_singleton.mp operand ▸ covers
    exact ⟨_, traced'.compiled faithful within last rfl rfl rfl (traced.fresh absent) made' covered
      (fun a inside => held a (List.mem_append_right _ inside)) (.select stands last)⟩
  | @zip tag first second body params d b c e x y o absent left right last ihl ihr =>
    obtain ⟨more, traced', stands, covers, made, _⟩ := ihl
      (fun q inside => within q (List.mem_cons_of_mem _ (List.mem_append_left _ inside)))
      (fun a inside => held a (List.mem_append_left _ inside)) traced
    obtain ⟨more', traced'', stands', covers', made', _⟩ := ihr
      (fun q inside => within q (List.mem_cons_of_mem _ (List.mem_append_right _ inside)))
      (fun a inside => held a (List.mem_append_right _ (List.mem_append_left _ inside))) traced'
    rw [List.append_assoc] at traced'' stands' covers'
    -- The left operand was settled before the right source was compiled, and still stands.
    have stands'' := stands.later right.onward more'
    rw [List.append_assoc] at stands''
    have both : ∀ q ∈ more ++ more', ∃ s ∈ [first, second], q ∈ s.queries := by
      intro q inside
      rcases List.mem_append.mp inside with inside | inside
      · exact ⟨first, List.mem_cons_self, made q inside⟩
      · exact ⟨second, List.mem_cons_of_mem _ List.mem_cons_self, made' q inside⟩
    have covered : ∀ s ∈ [first, second], ∀ q ∈ s.queries, q ∈ nodes ++ (more ++ more') := by
      intro s operand q inside
      rcases List.mem_cons.mp operand with rfl | operand
      · rw [← List.append_assoc]
        exact List.mem_append_left _ (covers q inside)
      · exact covers' q (List.mem_singleton.mp operand ▸ inside)
    exact ⟨_, traced''.compiled faithful within last rfl rfl rfl (traced.fresh absent) both covered
      (fun a inside => held a (List.mem_append_right _ (List.mem_append_right _ inside)))
      (.zip stands'' stands' last)⟩

end Runs

/-- The operators of a query are compiled, each once and the query itself last; what is declared after
that binds nothing. -/
theorem root_traced {root : Expr} {result : Operand} {storage : KernelType} {d : Draft}
    (faithful : root.Faithful) (rooted : Compile.root root {} = .ok ((result, storage), d)) :
    ∃ nodes o c, Steps root {} o c ∧ d.inputs = c.inputs ∧ d.sourceCount = c.sourceCount ∧
      Traced root nodes d ∧ (∀ q, q ∈ nodes ↔ q ∈ root.queries) ∧ nodes.getLast? = some root ∧
      d.records.storageOf root.type = .ok storage ∧ result = ⟨.step nodes.length, root.type⟩ := by
  obtain ⟨query, o, c, stepped, rfl, stored⟩ := root_ok rooted
  obtain ⟨declared, spelled⟩ := storageType_ok.mp stored
  have run := steps_of_step root stepped
  obtain ⟨nodes, traced, stands, covers, made, last⟩ :=
    run.traced faithful (fun _ => id) (fun _ => id) (traced_start root)
  rw [List.nil_append] at traced stands covers
  have own := covers root (Expr.mem_queries_self query)
  have grows := declare_grows declared
  have steady := (steady_kept faithful.arrays).declared root root.type c () d declared traced.steady
  have onward : Onward c d := ⟨grows.later, fun _ known => grows.sourceCount.trans known⟩
  have target : o.target = .step nodes.length := by
    cases stands with
    | array => exact absurd query Bool.false_ne_true
    | @operator _ k known _ =>
      -- The query stands at one place only, which is the last.
      have final : nodes[nodes.length - 1]? = some root := by
        rw [← List.getLast?_eq_getElem?, last own]
      have inside : k < nodes.length := (List.getElem?_eq_some_iff.mp known).1
      have same := (List.getElem?_inj inside (.of_map _ traced.distinct)).mp (known.trans final.symm)
      rw [Variable.step.injEq]
      omega
  refine ⟨nodes, o, c, run, (declare_frame root root.type c () d declared).1, grows.sourceCount,
    traced.bind steady onward grows.lets grows.steps, fun q => ⟨made q, covers q⟩, last own, spelled, ?_⟩
  rw [target]

theorem compile_traced {root : Expr} {workgroupSize : Nat} {p : Program} (faithful : root.Faithful)
    (compiled : compile workgroupSize root = .ok p) :
    ∃ nodes o c d storage, Steps root {} o c ∧ d.inputs = c.inputs ∧ d.sourceCount = c.sourceCount ∧
      Traced root nodes d ∧ (∀ q, q ∈ nodes ↔ q ∈ root.queries) ∧ nodes.getLast? = some root ∧
      d.records.storageOf root.type = .ok storage ∧
      p = ⟨workgroupSize, d.structs, d.inputs, d.lets, ⟨.step nodes.length, root.type⟩, storage⟩ := by
  obtain ⟨result, storage, d, rooted, rfl⟩ := compile_ok compiled
  obtain ⟨nodes, o, c, run, inputs, counted, traced, all, last, stored, rfl⟩ :=
    root_traced faithful rooted
  exact ⟨nodes, o, c, d, storage, run, inputs, counted, traced, all, last, stored, rfl⟩

end Kernel
end ArrayQuery
