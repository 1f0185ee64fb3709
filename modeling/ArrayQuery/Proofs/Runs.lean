import ArrayQuery.Kernel.Compile

/-! Runs of the operations that put a kernel together, taken apart into the runs of their steps. -/

set_option autoImplicit false
namespace ArrayQuery.Kernel

theorem except_bind_ok {ε α β : Type} {m : Except ε α} {f : α → Except ε β} {b : β} :
    (m >>= f) = .ok b ↔ ∃ a, m = .ok a ∧ f a = .ok b := by
  change Except.bind m f = _ ↔ _
  cases m with
  | error cause => simp [Except.bind]
  | ok a => simp [Except.bind]

theorem lookup_isSome_iff_mem {κ β : Type} [BEq κ] [LawfulBEq κ] {table : List (κ × β)} {key : κ} :
    (table.lookup key).isSome = true ↔ key ∈ table.map Prod.fst := by
  rw [List.lookup_isSome_iff, List.mem_map]
  simp only [beq_iff_eq, eq_comm (a := key)]

namespace Compile

variable {α β : Type}

theorem bind_ok {m : Compile α} {f : α → Compile β} {d e : Draft} {b : β} :
    (m >>= f) d = .ok (b, e) ↔ ∃ a c, m d = .ok (a, c) ∧ f a c = .ok (b, e) := by
  change Except.bind (m d) (fun p => f p.1 p.2) = _ ↔ _
  cases m d with
  | error cause => simp [Except.bind]
  | ok p =>
    constructor
    · exact fun run => ⟨p.1, p.2, rfl, run⟩
    · rintro ⟨a, c, first, run⟩
      obtain rfl := Except.ok.inj first
      exact run

@[simp] theorem pure_ok {a b : α} {d e : Draft} :
    (pure a : Compile α) d = .ok (b, e) ↔ a = b ∧ d = e := by
  change Except.ok (a, d) = _ ↔ _
  simp

@[simp] theorem get_ok {d e c : Draft} :
    (get : Compile Draft) d = .ok (c, e) ↔ c = d ∧ e = d := by
  change Except.ok (d, d) = _ ↔ _
  simp [eq_comm]

@[simp] theorem get_bind {f : Draft → Compile β} {d : Draft} :
    ((get : Compile Draft) >>= f) d = f d d := rfl

@[simp] theorem modify_ok {f : Draft → Draft} {d e : Draft} {u : Unit} :
    (modify f : Compile Unit) d = .ok (u, e) ↔ e = f d := by
  change Except.ok ((), f d) = _ ↔ _
  simp [eq_comm]

@[simp] theorem set_ok {c d e : Draft} {u : PUnit} :
    (set c : Compile PUnit) d = .ok (u, e) ↔ e = c := by
  change Except.ok (PUnit.unit, c) = _ ↔ _
  simp [eq_comm]

@[simp] theorem refuse_ok {node : Expr} {cause : Unsupported} {d e : Draft} {a : α} :
    (refuse node cause : Compile α) d = .ok (a, e) ↔ False := by
  change Except.error _ = _ ↔ _
  simp

@[simp] theorem misuse_ok {cause : Misuse} {d e : Draft} {a : α} :
    (misuse cause : Compile α) d = .ok (a, e) ↔ False := by
  change Except.error _ = _ ↔ _
  simp

theorem guard_ok {c : Prop} [Decidable c] {node : Expr} {cause : Unsupported}
    {f : Unit → Compile β} {d e : Draft} {b : β} :
    (if c then (refuse node cause >>= f) else f ()) d = .ok (b, e) ↔
      ¬c ∧ f () d = .ok (b, e) := by
  by_cases refused : c
  · simp [refused, bind_ok]
  · simp [refused]

@[simp] theorem lift_ok {m : Except ComputeError α} {d e : Draft} {a : α} :
    (liftM m : Compile α) d = .ok (a, e) ↔ m = .ok a ∧ e = d := by
  change (Except.bind m fun a => Except.ok (a, d)) = _ ↔ _
  cases m with
  | error cause => simp [Except.bind]
  | ok b => simp [Except.bind, eq_comm]

theorem typeOf_ok {t : ElementType} {d e : Draft} {k : KernelType} :
    typeOf t d = .ok (k, e) ↔ d.records.typeOf t = .ok k ∧ e = d := by
  simp only [typeOf, bind_ok, get_ok, lift_ok]
  constructor
  · rintro ⟨_, _, ⟨rfl, rfl⟩, found, rfl⟩
    exact ⟨found, rfl⟩
  · rintro ⟨found, rfl⟩
    exact ⟨_, _, ⟨rfl, rfl⟩, found, rfl⟩

theorem storageType_ok {node : Expr} {t : ElementType} {d e : Draft} {k : KernelType} :
    storageType node t d = .ok (k, e) ↔
      declare node t d = .ok ((), e) ∧ e.records.storageOf t = .ok k := by
  simp only [storageType, bind_ok, get_ok, lift_ok]
  constructor
  · rintro ⟨_, c, declared, _, _, ⟨rfl, rfl⟩, found, rfl⟩
    exact ⟨declared, found⟩
  · rintro ⟨declared, found⟩
    exact ⟨(), e, declared, e, e, ⟨rfl, rfl⟩, found, rfl⟩

theorem valueType_ok {node : Expr} {t : ElementType} {d e : Draft} {k : KernelType} :
    valueType node t d = .ok (k, e) ↔
      declare node t d = .ok ((), e) ∧ e.records.typeOf t = .ok k := by
  simp only [valueType, bind_ok, typeOf_ok]
  constructor
  · rintro ⟨_, c, declared, found, rfl⟩
    exact ⟨declared, found⟩
  · rintro ⟨declared, found⟩
    exact ⟨(), e, declared, found, rfl⟩

theorem bindArray_ok {node : Expr} {a : SharedArray} {d e : Draft} {slot : Nat}
    (run : bindArray node a d = .ok (slot, e)) :
    (d.inputs.findIdx? (·.tag == a.tag) = some slot ∧ e = d) ∨
      (d.inputs.findIdx? (·.tag == a.tag) = none ∧ slot = d.inputs.length ∧
        ∃ storage c, storageType node a.data.element d = .ok (storage, c) ∧
          e = { c with inputs := c.inputs ++ [⟨a.tag, a.data, storage⟩] }) := by
  unfold bindArray at run
  rw [get_bind] at run
  cases found : d.inputs.findIdx? (·.tag == a.tag) with
  | some place =>
    simp only [found] at run
    obtain ⟨rfl, rfl⟩ := pure_ok.mp run
    exact .inl ⟨rfl, rfl⟩
  | none =>
    simp only [found] at run
    obtain ⟨storage, c, stored, rest⟩ := bind_ok.mp run
    obtain ⟨_, _, extended, last⟩ := bind_ok.mp rest
    obtain ⟨rfl, rfl⟩ := pure_ok.mp last
    obtain rfl := modify_ok.mp extended
    exact .inr ⟨rfl, rfl, storage, c, stored, rfl⟩

/-- A record is declared unless it has a name already, its fields first. -/
theorem declare_record_ok {node : Expr} {name : String} {fields : List (String × ElementType)}
    {d e : Draft} (run : declare node (.record name fields) d = .ok ((), e)) :
    ((∃ n, d.records.get? ⟨name, fields⟩ = some n) ∧ e = d) ∨
      (d.records.get? ⟨name, fields⟩ = none ∧ ∃ members c,
        declareFields node name fields d = .ok (members, c) ∧
        addStruct ⟨name, fields⟩ members c = .ok ((), e)) := by
  unfold declare at run
  rw [get_bind] at run
  cases found : d.records.get? ⟨name, fields⟩ with
  | some n =>
    simp only [found] at run
    obtain ⟨_, rfl⟩ := pure_ok.mp run
    exact .inl ⟨⟨n, rfl⟩, rfl⟩
  | none =>
    simp only [found] at run
    obtain ⟨members, c, declared, added⟩ := bind_ok.mp run
    exact .inr ⟨rfl, members, c, declared, added⟩

theorem declareFields_cons_ok {node : Expr} {record field : String} {t : ElementType}
    {fields : List (String × ElementType)} {members : List (String × KernelType)} {d e : Draft}
    (run : declareFields node record ((field, t) :: fields) d = .ok (members, e)) :
    t ≠ .bool ∧ ∃ c k others, declare node t d = .ok ((), c) ∧ c.records.typeOf t = .ok k ∧
      declareFields node record fields c = .ok (others, e) ∧
      members = (identifier field, k) :: others := by
  unfold declareFields at run
  obtain ⟨plain, rest⟩ := guard_ok.mp run
  obtain ⟨_, c, declared, typed⟩ := bind_ok.mp rest
  obtain ⟨k, c', found, more⟩ := bind_ok.mp typed
  obtain ⟨found, rfl⟩ := typeOf_ok.mp found
  obtain ⟨others, c'', fields, last⟩ := bind_ok.mp more
  obtain ⟨rfl, rfl⟩ := pure_ok.mp last
  exact ⟨plain, _, k, others, declared, found, fields, rfl⟩

theorem follow_ok {node : Expr} {container t : ElementType} {member : String} {a : Access}
    {d e : Draft} (run : follow node container member d = .ok ((a, t), e)) :
    accessOf container member = some a ∧ container.member? member = some t ∧
      declare node t d = .ok ((), e) := by
  unfold follow at run
  cases found : accessOf container member with
  | none =>
    simp only [found] at run
    exact (refuse_ok.mp run).elim
  | some access =>
    cases typed : container.member? member with
    | none =>
      simp only [found, typed] at run
      exact (refuse_ok.mp run).elim
    | some u =>
      simp only [found, typed] at run
      obtain ⟨_, _, declared, last⟩ := bind_ok.mp run
      obtain ⟨same, rfl⟩ := pure_ok.mp last
      obtain ⟨rfl, rfl⟩ := Prod.mk.inj same
      exact ⟨rfl, rfl, declared⟩

theorem chainType_member_ok {node target : Expr} {name : String} {t u : ElementType} {d e : Draft}
    (run : chainType node (.member target name u) d = .ok (t, e)) :
    ∃ container a c, chainType node target d = .ok (container, c) ∧
      follow node container name c = .ok ((a, t), e) := by
  unfold chainType at run
  obtain ⟨container, c, chain, rest⟩ := bind_ok.mp run
  obtain ⟨⟨a, t'⟩, c', followed, last⟩ := bind_ok.mp rest
  obtain ⟨rfl, rfl⟩ := pure_ok.mp last
  exact ⟨container, a, c, chain, followed⟩

end Compile

open Compile

variable {scope : Scope} {d e : Draft} {term : Term}

theorem translate_constant_ok {v : Value}
    (run : translate scope (.constant v) d = .ok (term, e)) :
    declare (.constant v) v.type d = .ok ((), e) ∧ e.records.literal v = .ok term := by
  unfold translate at run
  obtain ⟨_, c, declared, rest⟩ := bind_ok.mp run
  rw [get_bind] at rest
  obtain ⟨found, rfl⟩ := lift_ok.mp rest
  exact ⟨declared, found⟩

theorem translate_parameter_ok {p : Parameter}
    (run : translate scope (.parameter p) d = .ok (term, e)) :
    ∃ operand, scope.lookup p.name = some operand ∧ term = operand.term ∧ e = d := by
  cases found : scope.lookup p.name with
  | none =>
    unfold translate at run
    simp only [found] at run
    exact (refuse_ok.mp run).elim
  | some operand =>
    rw [translate_parameter found] at run
    obtain ⟨rfl, rfl⟩ := pure_ok.mp run
    exact ⟨operand, rfl, rfl, rfl⟩

/-- Of a product the right operand is translated first, and written first. -/
theorem translate_binary_ok {op : BinaryOp} {l r : Expr} {t : ElementType}
    (run : translate scope (.binary op l r t) d = .ok (term, e)) :
    isOperatorDefined op l.type r.type = true ∧ ∃ first second c,
      term = .binary op first second ∧
      ((op = .mul ∧ translate scope r d = .ok (first, c) ∧ translate scope l c = .ok (second, e)) ∨
      (op ≠ .mul ∧ translate scope l d = .ok (first, c) ∧
        translate scope r c = .ok (second, e))) := by
  unfold translate at run
  obtain ⟨defined, rest⟩ := guard_ok.mp run
  refine ⟨by simpa using defined, ?_⟩
  by_cases product : op = .mul
  · simp only [product, if_true] at rest
    obtain ⟨second, c, translated, rest⟩ := bind_ok.mp rest
    obtain ⟨first, c', translated', last⟩ := bind_ok.mp rest
    obtain ⟨rfl, rfl⟩ := pure_ok.mp last
    exact ⟨second, first, c, by rw [product], .inl ⟨product, translated, translated'⟩⟩
  · simp only [product, if_false] at rest
    obtain ⟨first, c, translated, rest⟩ := bind_ok.mp rest
    obtain ⟨second, c', translated', last⟩ := bind_ok.mp rest
    obtain ⟨rfl, rfl⟩ := pure_ok.mp last
    exact ⟨first, second, c, rfl, .inr ⟨product, translated, translated'⟩⟩

theorem translate_negate_ok {operand : Expr} {t : ElementType}
    (run : translate scope (.negate operand t) d = .ok (term, e)) :
    ∃ inner, translate scope operand d = .ok (inner, e) ∧
      (((operand.type = .i32 ∨ operand.type = .f32 ∨ operand.type.isVector = true) ∧
        term = .negate inner) ∨
      (operand.type.isMatrix = true ∧ term = .negateMatrix inner)) := by
  unfold translate at run
  dsimp only at run
  split at run
  · next plain =>
    obtain ⟨inner, c, translated, last⟩ := bind_ok.mp run
    obtain ⟨rfl, rfl⟩ := pure_ok.mp last
    exact ⟨inner, translated, .inl ⟨plain, rfl⟩⟩
  · split at run
    · next matrix =>
      obtain ⟨inner, c, translated, last⟩ := bind_ok.mp run
      obtain ⟨rfl, rfl⟩ := pure_ok.mp last
      exact ⟨inner, translated, .inr ⟨matrix, rfl⟩⟩
    · exact (refuse_ok.mp run).elim

theorem translate_convert_ok {tag : Tag} {operand : Expr} {t : ElementType}
    (run : translate scope (.convert tag operand t) d = .ok (term, e)) :
    ∃ c k inner, overrideWrapper tag t operand d = .ok ((), c) ∧
      ((c.overrides.lookup tag).getD t).isScalar = true ∧
      c.records.typeOf ((c.overrides.lookup tag).getD t) = .ok k ∧
      translate scope operand c = .ok (inner, e) ∧ term = .call (.type k) [inner] := by
  unfold translate at run
  obtain ⟨_, c, wrapped, rest⟩ := bind_ok.mp run
  rw [get_bind] at rest
  obtain ⟨scalar, checked⟩ := guard_ok.mp rest
  obtain ⟨k, c', found, typed⟩ := bind_ok.mp checked
  obtain ⟨found, rfl⟩ := typeOf_ok.mp found
  obtain ⟨inner, c'', translated, last⟩ := bind_ok.mp typed
  obtain ⟨rfl, rfl⟩ := pure_ok.mp last
  exact ⟨_, k, inner, wrapped, by simpa using scalar, found, translated, rfl⟩

theorem translate_member_ok {target : Expr} {name : String} {t : ElementType}
    (run : translate scope (.member target name t) d = .ok (term, e)) :
    ∃ container access u b c inner,
      chainType (.member target name t) target d = .ok (container, b) ∧
      follow (.member target name t) container name b = .ok ((access, u), c) ∧
      translate scope target c = .ok (inner, e) ∧
      term = .access (if isPlace target then inner else .group inner) access := by
  unfold translate at run
  obtain ⟨container, b, chain, rest⟩ := bind_ok.mp run
  obtain ⟨⟨access, u⟩, c, followed, rest⟩ := bind_ok.mp rest
  obtain ⟨inner, c', translated, last⟩ := bind_ok.mp rest
  obtain ⟨rfl, rfl⟩ := pure_ok.mp last
  exact ⟨container, access, u, b, c, inner, chain, followed, translated, rfl⟩

theorem translate_index_ok {array position : Expr} {t : ElementType}
    (run : translate scope (.index array position t) d = .ok (term, e)) :
    ∃ source slot c inner, array = .array source ∧
      bindArray array source d = .ok (slot, c) ∧ translate scope position c = .ok (inner, e) ∧
      term = if t = .bool then .nonzero (.index slot inner) else .index slot inner := by
  unfold translate at run
  cases array with
  | array source =>
    obtain ⟨slot, c, bound, rest⟩ := bind_ok.mp run
    obtain ⟨inner, c', translated, last⟩ := bind_ok.mp rest
    obtain ⟨rfl, rfl⟩ := pure_ok.mp last
    exact ⟨source, slot, c, inner, rfl, bound, translated, rfl⟩
  | _ => exact (refuse_ok.mp run).elim

theorem translate_construct_ok {r : RecordType} {args : List Expr}
    (run : translate scope (.construct r args) d = .ok (term, e)) :
    args.length = r.fields.length ∧ ∃ k c terms,
      valueType (.construct r args) r.type d = .ok (k, c) ∧
      translateAll scope args c = .ok (terms, e) ∧ term = .call (.type k) terms := by
  unfold translate at run
  obtain ⟨counted, rest⟩ := guard_ok.mp run
  obtain ⟨k, c, typed, rest⟩ := bind_ok.mp rest
  obtain ⟨terms, c', translated, last⟩ := bind_ok.mp rest
  obtain ⟨rfl, rfl⟩ := pure_ok.mp last
  exact ⟨Decidable.not_not.mp counted, k, c, terms, typed, translated, rfl⟩

theorem translate_call_ok {fn : MathFn} {args : List Expr} {t : ElementType}
    (run : translate scope (.call fn args t) d = .ok (term, e)) :
    ∃ c terms, overrideCall fn args d = .ok ((), c) ∧
      translateAll scope args c = .ok (terms, e) ∧ term = .call (.function fn) terms := by
  unfold translate at run
  obtain ⟨_, rest⟩ := guard_ok.mp run
  obtain ⟨_, c, overridden, rest⟩ := bind_ok.mp rest
  obtain ⟨terms, c', translated, last⟩ := bind_ok.mp rest
  obtain ⟨rfl, rfl⟩ := pure_ok.mp last
  exact ⟨c, terms, overridden, translated, rfl⟩

theorem translateAll_cons_ok {first : Expr} {rest : List Expr} {terms : List Term}
    (run : translateAll scope (first :: rest) d = .ok (terms, e)) :
    ∃ head tail c, translate scope first d = .ok (head, c) ∧
      translateAll scope rest c = .ok (tail, e) ∧ terms = head :: tail := by
  unfold translateAll at run
  obtain ⟨head, c, translated, more⟩ := bind_ok.mp run
  obtain ⟨tail, c', others, last⟩ := bind_ok.mp more
  obtain ⟨rfl, rfl⟩ := pure_ok.mp last
  exact ⟨head, tail, c, translated, others, rfl⟩

theorem translate_query_ok {node : Expr} (query : node.isQuery = true ∨ ∃ a, node = .array a) :
    translate scope node d ≠ .ok (term, e) := by
  rcases query with query | ⟨a, rfl⟩
  · cases node with
    | select => exact fun run => refuse_ok.mp run
    | zip => exact fun run => refuse_ok.mp run
    | _ => exact absurd query Bool.false_ne_true
  · exact fun run => refuse_ok.mp run

/-! ## Steps -/

namespace Compile

theorem bindSource_ok {node : Expr} {a : SharedArray} {d e : Draft} {o : Operand}
    (run : bindSource node a d = .ok (o, e)) :
    ∃ slot c, ((d.sourceCount = none ∧ c = { d with sourceCount := some a.data.count }) ∨
        (d.sourceCount = some a.data.count ∧ c = d)) ∧
      bindArray node a c = .ok (slot, e) ∧ o = ⟨.buffer slot, a.data.element⟩ := by
  unfold bindSource at run
  rw [get_bind] at run
  cases counted : d.sourceCount with
  | none =>
    simp only [counted] at run
    obtain ⟨_, c, set, rest⟩ := bind_ok.mp run
    obtain rfl := modify_ok.mp set
    obtain ⟨slot, c', bound, last⟩ := bind_ok.mp rest
    obtain ⟨rfl, rfl⟩ := pure_ok.mp last
    exact ⟨slot, _, .inl ⟨rfl, rfl⟩, bound, rfl⟩
  | some count =>
    simp only [counted] at run
    by_cases same : count = a.data.count
    · simp only [same, ne_eq, not_true_eq_false, if_false] at run
      obtain ⟨slot, c', bound, last⟩ := bind_ok.mp run
      obtain ⟨rfl, rfl⟩ := pure_ok.mp last
      exact ⟨slot, d, .inr ⟨by rw [same], rfl⟩, bound, rfl⟩
    · simp only [same, ne_eq, not_false_eq_true, if_true] at run
      obtain ⟨_, _, refused, _⟩ := bind_ok.mp run
      exact (misuse_ok.mp refused).elim

theorem emit_ok {node body : Expr} {tag : Tag} {params : List Parameter} {inputs : List Operand}
    {d e : Draft} {o : Operand} (run : emit node tag params body inputs d = .ok (o, e)) :
    params.length = inputs.length ∧ ∃ k b value c, valueType node body.type d = .ok (k, b) ∧
      translate (scopeOf params inputs) body b = .ok (value, c) ∧
      o = ⟨.step (c.lets.length + 1), body.type⟩ ∧
      e = { c with lets := c.lets ++ [⟨k, value⟩], steps := (tag, o) :: c.steps } := by
  unfold emit at run
  by_cases counted : params.length = inputs.length
  · simp only [counted, ne_eq, not_true_eq_false, if_false] at run
    obtain ⟨k, b, typed, rest⟩ := bind_ok.mp run
    obtain ⟨value, c, translated, rest'⟩ := bind_ok.mp rest
    rw [get_bind] at rest'
    obtain ⟨_, _, stored, last⟩ := bind_ok.mp rest'
    obtain ⟨rfl, rfl⟩ := pure_ok.mp last
    obtain rfl := set_ok.mp stored
    exact ⟨counted, k, b, value, c, typed, translated, rfl, rfl⟩
  · simp only [counted, ne_eq, not_false_eq_true, if_true] at run
    obtain ⟨_, _, refused, _⟩ := bind_ok.mp run
    exact (misuse_ok.mp refused).elim

theorem step_select_ok {tag : Tag} {source body : Expr} {params : List Parameter} {d e : Draft}
    {o : Operand} (run : step (.select tag source params body) d = .ok (o, e)) :
    (d.steps.lookup tag = some o ∧ e = d) ∨ (d.steps.lookup tag = none ∧ ∃ input c,
      step source d = .ok (input, c) ∧
      emit (.select tag source params body) tag params body [input] c = .ok (o, e)) := by
  unfold step at run
  rw [get_bind] at run
  cases found : d.steps.lookup tag with
  | some operand =>
    simp only [found] at run
    obtain ⟨rfl, rfl⟩ := pure_ok.mp run
    exact .inl ⟨rfl, rfl⟩
  | none =>
    simp only [found] at run
    obtain ⟨input, c, compiled, emitted⟩ := bind_ok.mp run
    exact .inr ⟨rfl, input, c, compiled, emitted⟩

theorem step_zip_ok {tag : Tag} {first second body : Expr} {params : List Parameter} {d e : Draft}
    {o : Operand} (run : step (.zip tag first second params body) d = .ok (o, e)) :
    (d.steps.lookup tag = some o ∧ e = d) ∨ (d.steps.lookup tag = none ∧ ∃ x y b c,
      step first d = .ok (x, b) ∧ step second b = .ok (y, c) ∧
      emit (.zip tag first second params body) tag params body [x, y] c = .ok (o, e)) := by
  unfold step at run
  rw [get_bind] at run
  cases found : d.steps.lookup tag with
  | some operand =>
    simp only [found] at run
    obtain ⟨rfl, rfl⟩ := pure_ok.mp run
    exact .inl ⟨rfl, rfl⟩
  | none =>
    simp only [found] at run
    obtain ⟨x, b, compiled, rest⟩ := bind_ok.mp run
    obtain ⟨y, c, compiled', emitted⟩ := bind_ok.mp rest
    exact .inr ⟨rfl, x, y, b, c, compiled, compiled', emitted⟩

theorem root_ok {node : Expr} {d e : Draft} {result : Operand} {storage : KernelType}
    (run : root node d = .ok ((result, storage), e)) :
    node.isQuery = true ∧ ∃ o c, step node d = .ok (o, c) ∧ result = ⟨o.target, node.type⟩ ∧
      storageType node node.type c = .ok (storage, e) := by
  unfold root at run
  by_cases query : node.isQuery = true
  · simp only [query, Bool.not_true, Bool.false_eq_true, if_false] at run
    obtain ⟨o, c, compiled, rest⟩ := bind_ok.mp run
    obtain ⟨k, c', stored, last⟩ := bind_ok.mp rest
    obtain ⟨same, rfl⟩ := pure_ok.mp last
    obtain ⟨rfl, rfl⟩ := Prod.mk.inj same
    exact ⟨query, o, c, compiled, rfl, stored⟩
  · simp only [query, Bool.not_false, if_true] at run
    obtain ⟨_, _, refused, _⟩ := bind_ok.mp run
    exact (misuse_ok.mp refused).elim

end Compile

theorem compile_ok {workgroupSize : Nat} {node : Expr} {p : Program}
    (run : compile workgroupSize node = .ok p) :
    ∃ result storage d, Compile.root node {} = .ok ((result, storage), d) ∧
      p = ⟨workgroupSize, d.structs, d.inputs, d.lets, result, storage⟩ := by
  unfold compile at run
  cases rooted : Compile.root node {} with
  | error cause =>
    change (Except.bind (Compile.root node {}) _) = _ at run
    rw [rooted] at run
    exact nomatch run
  | ok found =>
    change (Except.bind (Compile.root node {}) _) = _ at run
    rw [rooted] at run
    obtain ⟨⟨result, storage⟩, d⟩ := found
    exact ⟨result, storage, d, rfl, (Except.ok.inj run).symm⟩

end ArrayQuery.Kernel
