import ArrayQuery.Proofs.Transposed

/-! Bodies over numbers, vectors and matrices: what the device computes from the text of a
translation stands for what the host computes from the body, in every nesting of products, sums,
opposites and members. -/

set_option autoImplicit false
namespace ArrayQuery.Kernel

open Compile

/-- Whether a buffer or a step holds what an operand stands for: a buffer the numbers of the host, a
step what stands for them on the device. -/
def Surroundings.Holds (s : Surroundings) (o : Operand) (q : Quantity) : Prop :=
  o.type = q.type ∧
    match o.target with
    | .buffer slot => ∃ k, ofLeaf q.leaf = some k ∧
        s.buffers.lookup (Variable.buffer slot).name = some (k, q.numbers)
    | .step n => s.values.lookup (Variable.step n).name = some q.onDevice

/-- Whether a term can be read, and stands for a quantity as the device has it. -/
structure StandsFor (s : Surroundings) (t : Term) (q : Quantity) : Prop where
  readable : t.IsReadable
  value : t.form.value? s = some q.onDevice

section Terms

variable {s : Surroundings}

theorem single?_suffixed (text : List Char) :
    single? (text ++ ['f']) = (Decimal.read text).nearest? := by
  rw [single?, List.getLast?_concat, if_pos rfl, List.dropLast_concat]

theorem signedForm_unsigned {text : List Char} (unsigned : (text.head? == some '-') = false) :
    signedForm text = .number text := by
  unfold signedForm
  split
  · exact Bool.noConfusion unsigned
  · rfl

theorem value?_float {x : Single} (finite : x.isFinite = true) :
    (Literal.float x).form.value? s = some (.scalar x.value) := by
  obtain ⟨negative, m, e, datum⟩ := Single.exists_datum finite
  have magnitude := Decimal.nearest_write datum
  have text : (Literal.float x).text = x.text ++ "f" := rfl
  have value : x.value = if negative then -((m : ℚ) * 2 ^ e) else m * 2 ^ e := by
    rw [Single.value, Single.rational?, datum]
    rfl
  rw [Single.text, datum, Decimal.writeDatum] at text
  generalize (if m = 0 then "0.0"
    else Decimal.write Decimal.compact (Decimal.shortest Binary.single m e)) = digits
    at magnitude text
  cases negative with
  | true =>
    have form : (Literal.float x).form = .negate (.number (digits.toList ++ ['f'])) := by
      change signedForm (Literal.float x).text.toList = _
      rw [text, String.toList_append, String.toList_append]
      rfl
    rw [form, Form.value?_negate, Form.value?_number, single?_suffixed, magnitude, value]
    rfl
  | false =>
    have unsigned := float_unsigned finite (by rw [Value.isNegative, datum])
    have form : (Literal.float x).form = .number (digits.toList ++ ['f']) := by
      refine (signedForm_unsigned unsigned).trans ?_
      rw [text, String.toList_append, String.toList_append]
      rfl
    rw [form, Form.value?_number, single?_suffixed, magnitude, value]
    rfl

theorem values?_floats : ∀ {xs : List Single} {ts : List Term}, floatLiterals xs = .ok ts →
    xs.all Single.isFinite = true ∧
      Form.values? s (Term.formAll ts) = some (xs.map fun x => .scalar x.value)
  | [], _, found => by
    obtain rfl := Except.ok.inj found
    exact ⟨rfl, rfl⟩
  | x :: xs, _, found => by
    obtain ⟨rest, finite, others, rfl⟩ := floatLiterals_cons_ok found
    obtain ⟨each, values⟩ := values?_floats others
    refine ⟨by rw [List.all_cons, finite, each]; rfl, ?_⟩
    rw [Term.formAll, Term.form, Form.values?_cons, value?_float finite, values]
    rfl

theorem mapM_number? (xs : List Single) :
    (xs.map fun x => DeviceValue.scalar x.value).mapM DeviceValue.number? =
      some (xs.map Single.value) := by
  induction xs with
  | nil => rfl
  | cons x xs ih =>
    rw [List.map_cons, List.mapM_cons, ih]
    rfl

theorem standsFor_packed {v : Value} {q : Quantity} (shaped : v.packed? = some q) {k : KernelType}
    (known : ofLeaf q.leaf = some k) {ts : List Term} (cells : floatLiterals v.singles = .ok ts) :
    v.quantity? = some q ∧ StandsFor s (.call (.type k) ts) q := by
  obtain ⟨finite, values⟩ := values?_floats (s := s) cells
  have builtin : KernelType.builtin.find? (·.text == k.text) = some k := by
    have each : ∀ l ∈ Leaf.all, ∀ k ∈ ofLeaf l,
        KernelType.builtin.find? (·.text == k.text) = some k := by
      decide
    exact each q.leaf (leaf_mem _) k known
  refine ⟨by rw [Value.quantity?, if_pos finite, shaped],
    ⟨ofLeaf_readable known, floatLiterals_readable cells⟩, ?_⟩
  rw [Term.form, Callee.text, Form.value?_call, builtin, values]
  simp only [Option.bind_some, mapM_number?]
  rw [← (Value.packed?_numbers shaped).2, Quantity.ofNumbers?_numbers known]

theorem standsFor_literal {names : RecordNames} {v : Value} (geometric : v.type.isGeometric = true)
    {t : Term} (found : names.literal v = .ok t) :
    ∃ q, v.quantity? = some q ∧ q.type = v.type ∧ StandsFor s t q := by
  cases v with
  | f32 x =>
    obtain ⟨rfl, finite⟩ := floatLiteral_ok found
    have each : (Value.f32 x).singles.all Single.isFinite = true := by
      rw [Value.singles, List.all_cons, finite]
      rfl
    exact ⟨.scalar x.value, if_pos each, rfl, finite, value?_float finite⟩
  | vector2 v =>
    obtain ⟨ts, cells, rfl⟩ := RecordNames.literal_packed_ok rfl found
    obtain ⟨value, stands⟩ := standsFor_packed (v := .vector2 v) rfl rfl cells
    exact ⟨_, value, rfl, stands⟩
  | vector3 v =>
    obtain ⟨ts, cells, rfl⟩ := RecordNames.literal_packed_ok rfl found
    obtain ⟨value, stands⟩ := standsFor_packed (v := .vector3 v) rfl rfl cells
    exact ⟨_, value, rfl, stands⟩
  | vector4 v =>
    obtain ⟨ts, cells, rfl⟩ := RecordNames.literal_packed_ok rfl found
    obtain ⟨value, stands⟩ := standsFor_packed (v := .vector4 v) rfl rfl cells
    exact ⟨_, value, rfl, stands⟩
  | matrix4x4 m =>
    obtain ⟨ts, cells, rfl⟩ := RecordNames.literal_packed_ok rfl found
    obtain ⟨value, stands⟩ := standsFor_packed (v := .matrix4x4 m) rfl rfl cells
    exact ⟨_, value, rfl, stands⟩
  | matrix3x2 m =>
    obtain ⟨ts, cells, rfl⟩ := RecordNames.literal_packed_ok rfl found
    obtain ⟨value, stands⟩ := standsFor_packed (v := .matrix3x2 m) rfl rfl cells
    exact ⟨_, value, rfl, stands⟩
  | _ => exact absurd geometric Bool.false_ne_true

theorem standsFor_operand {o : Operand} {q : Quantity} (held : s.Holds o q) :
    StandsFor s o.term q := by
  obtain ⟨target, t⟩ := o
  obtain ⟨rfl, place⟩ := held
  refine ⟨(operand_term _).1, ?_⟩
  cases target with
  | buffer slot =>
    obtain ⟨k, known, found⟩ := place
    have other : q.type ≠ .bool := by
      cases q <;> exact nofun
    have term : Operand.term ⟨.buffer slot, q.type⟩ = .element slot := if_neg other
    rw [term, Term.form, invocationForm, Form.value?_stored, found]
    exact Quantity.ofNumbers?_numbers known
  | step n => exact place

theorem single?_minusOne : single? minusOne = some 1 := by
  have pattern : Binary.single.datum ((Decimal.read ['1', '.', '0']).roundBits Binary.single) =
      .finite false 8388608 (-23) := by
    decide
  refine (single?_suffixed ['1', '.', '0']).trans ?_
  rw [Decimal.nearest?, pattern, Binary.Datum.rational?]
  norm_num

theorem value?_cell {e : Form} {d : DeviceValue} (value : e.value? s = some d)
    (column row : Nat) :
    (Access.form e (.cell column row)).value? s = (d.element? column).bind (·.element? row) := by
  rw [Access.form, Form.value?_at, Form.value?_at, value, natural?_toString, natural?_toString]
  rfl

theorem accessOf_leaf {l : Leaf} {name : String} {a : Access}
    (accessed : accessOf (.leaf l) name = some a) :
    (∃ row column, l.cell? name = some (row, column) ∧ a = .cell row column) ∨
      (name ∈ l.components ∧ a = .field name) := by
  have cells : (ElementType.leaf l).cell? name = if l.isMatrix then l.cell? name else none := rfl
  have members : (ElementType.leaf l).member? name =
      if l.isMatrix then (l.cell? name).map fun _ => ElementType.f32
      else if l.components.contains name then some ElementType.f32 else none := rfl
  rw [accessOf, cells, members] at accessed
  by_cases matrix : l.isMatrix = true
  · simp only [matrix, if_true] at accessed
    cases cell : l.cell? name with
    | none =>
      rw [cell] at accessed
      cases accessed
    | some place =>
      rw [cell] at accessed
      exact .inl ⟨place.1, place.2, rfl, (Option.some.inj accessed).symm⟩
  · simp only [matrix, if_false, Bool.false_eq_true] at accessed
    by_cases component : l.components.contains name = true
    · have listed := List.contains_iff_mem.mp component
      have each : ∀ l ∈ Leaf.all, ∀ name ∈ l.components, identifier name = name := by
        decide
      rw [if_pos component, Option.map_some, each l (leaf_mem l) name listed] at accessed
      exact .inr ⟨listed, (Option.some.inj accessed).symm⟩
    · rw [if_neg component] at accessed
      cases accessed

namespace StandsFor

variable {x y : Term} {p q r : Quantity}

/-- The operands of a product are written the other way round. -/
theorem product (left : StandsFor s x p) (right : StandsFor s y q) (found : p.mul? q = some r) :
    StandsFor s (.binary .mul y x) r where
  readable := ⟨right.readable, left.readable⟩
  value := by
    rw [Term.form, Form.value?_paren, Form.value?_arithmetic, right.value, left.value]
    exact Quantity.onDevice_mul found

theorem operator {op : BinaryOp} (other : op ≠ .mul) (left : StandsFor s x p)
    (right : StandsFor s y q) (found : p.operate? op q = some r) :
    StandsFor s (.binary op x y) r where
  readable := ⟨left.readable, right.readable⟩
  value := by
    rw [Term.form, Form.value?_paren, Form.value?_arithmetic, left.value, right.value]
    exact Quantity.onDevice_operate other found

theorem negate (operand : StandsFor s x q) (unsigned : x.isSigned = false)
    (other : q.type.isMatrix = false) : StandsFor s (.negate x) q.neg where
  readable := ⟨unsigned, operand.readable⟩
  value := by
    rw [Term.form, Form.value?_paren, Form.value?_negate, operand.value]
    exact Quantity.onDevice_neg other

theorem negateMatrix (operand : StandsFor s x q) : StandsFor s (.negateMatrix x) q.neg where
  readable := operand.readable
  value := by
    rw [Term.form, Form.value?_paren, Form.value?_arithmetic, Form.value?_negate,
      Form.value?_number, single?_minusOne, operand.value]
    exact q.onDevice_negMatrix

theorem group (operand : StandsFor s x q) : StandsFor s (.group x) q where
  readable := operand.readable
  value := by
    rw [Term.form, Form.value?_paren, operand.value]

theorem access (operand : StandsFor s x q) (unsigned : x.isSigned = false) {name : String}
    {a : Access} (accessed : accessOf q.type name = some a) :
    ∃ r, q.member? name = some r ∧ r.type = .f32 ∧ StandsFor s (.access x a) r := by
  have readable : (Term.access x a).IsReadable :=
    ⟨unsigned, operand.readable, access_readable accessed⟩
  rcases accessOf_leaf accessed with ⟨row, column, cell, rfl⟩ | ⟨component, rfl⟩
  · obtain ⟨below, below'⟩ := cell_bounds cell
    obtain ⟨r, member, number, value⟩ := q.onDevice_cell below below'
    refine ⟨r, ?_, number, readable, ?_⟩
    · rw [Quantity.cell_name cell, member]
    · exact (value?_cell operand.value row column).trans value
  · obtain ⟨r, member, number, value⟩ := q.onDevice_component component
    refine ⟨r, member, number, readable, ?_⟩
    rw [Term.form, Access.form, Form.value?_member, operand.value]
    exact value

end StandsFor

end Terms

/-! ## Translations -/

theorem signed_not_matrix {t : ElementType} (signed : t = .i32 ∨ t = .f32 ∨ t.isVector = true) :
    t.isMatrix = false := by
  cases t with
  | leaf l =>
    have each : ∀ l ∈ Leaf.all, (.leaf l = ElementType.i32 ∨ .leaf l = ElementType.f32 ∨
        (ElementType.leaf l).isVector = true) → (ElementType.leaf l).isMatrix = false := by
      decide
    exact each l (leaf_mem l) signed
  | record n fields => rfl

theorem member?_leaf {l : Leaf} {name : String} {t : ElementType}
    (found : (ElementType.leaf l).member? name = some t) : t = .f32 := by
  change (if l.isMatrix = true then (l.cell? name).map fun _ => ElementType.f32
    else if l.components.contains name = true then some ElementType.f32 else none) = _ at found
  split at found
  · obtain ⟨_, _, rfl⟩ := Option.map_eq_some_iff.mp found
    rfl
  · split at found
    · exact (Option.some.inj found).symm
    · cases found

theorem translate_standsFor {scope : Scope} {bindings : List (String × Quantity)}
    {s : Surroundings} (held : ∀ name o, scope.lookup name = some o → o.type.isGeometric = true →
      ∃ q, bindings.lookup name = some q ∧ s.Holds o q) :
    ∀ (e : Expr) {d f : Draft} {t : Term}, e.IsGeometric → e.IsHostTyped scope → e.SignsApart →
      translate scope e d = .ok (t, f) →
      ∃ q, e.quantity? bindings = some q ∧ q.type = e.type ∧ StandsFor s t q
  | .constant v, d, f, t, geometric, _, _, run =>
    standsFor_literal geometric (translate_constant_ok run).2
  | .parameter p, d, f, t, geometric, typed, _, run => by
    obtain ⟨o, found, rfl, _⟩ := translate_parameter_ok run
    have same : p.type = o.type := typed o found
    have known : p.type.isGeometric = true := geometric
    obtain ⟨q, bound, holds⟩ := held p.name o found (same ▸ known)
    exact ⟨q, bound, (same.trans holds.1).symm, standsFor_operand holds⟩
  | .binary op l r u, d, f, t, geometric, typed, apart, run => by
    obtain ⟨listed, left, right⟩ := geometric
    obtain ⟨rfl, typed, typed'⟩ := typed
    obtain ⟨defined, first, second, c, rfl, order⟩ := translate_binary_ok run
    -- The operator is defined on the types, so that the host has a result, whichever operand is
    -- translated first.
    have operated {p q : Quantity} (value : l.quantity? bindings = some p)
        (value' : r.quantity? bindings = some q) (same : p.type = l.type)
        (same' : q.type = r.type) :
        ∃ n, (Expr.binary op l r (operatorType l.type r.type)).quantity? bindings = some n ∧
          n.type = operatorType l.type r.type ∧ p.operate? op q = some n := by
      rw [← same, ← same'] at defined ⊢
      obtain ⟨n, found, result⟩ := Quantity.operate?_defined listed defined
      exact ⟨n, by rw [Expr.quantity?, value, value']; exact found, result, found⟩
    rcases order with ⟨rfl, run, run'⟩ | ⟨other, run, run'⟩
    · -- The operands of a product are translated in the order in which they are written.
      obtain ⟨q, value', same', stands'⟩ := translate_standsFor held r right typed' apart.2 run
      obtain ⟨p, value, same, stands⟩ := translate_standsFor held l left typed apart.1 run'
      obtain ⟨n, whole, result, found⟩ := operated value value' same same'
      exact ⟨n, whole, result, stands.product stands' found⟩
    · obtain ⟨p, value, same, stands⟩ := translate_standsFor held l left typed apart.1 run
      obtain ⟨q, value', same', stands'⟩ := translate_standsFor held r right typed' apart.2 run'
      obtain ⟨n, whole, result, found⟩ := operated value value' same same'
      exact ⟨n, whole, result, stands.operator other stands' found⟩
  | .negate e u, d, f, t, geometric, typed, apart, run => by
    obtain ⟨rfl, typed⟩ := typed
    obtain ⟨inner, inside, sign⟩ := translate_negate_ok run
    obtain ⟨q, value, same, stands⟩ := translate_standsFor held e geometric typed apart.2 inside
    refine ⟨q.neg, by rw [Expr.quantity?, value, Option.map_some], ?_, ?_⟩
    · rw [Quantity.type, Quantity.leaf_neg]
      exact same
    · rcases sign with ⟨signed, rfl⟩ | ⟨_, rfl⟩
      · have single : ∀ x, e ≠ .constant (.f64 x) := by
          rintro x rfl
          exact absurd geometric Bool.false_ne_true
        rw [← same] at signed
        exact stands.negate (translate_unsigned inside apart.1 single) (signed_not_matrix signed)
      · exact stands.negateMatrix
  | .member e name u, d, f, t, geometric, typed, apart, run => by
    obtain ⟨member, typed⟩ := typed
    obtain ⟨container, access, v, b, c, inner, chain, followed, inside, rfl⟩ :=
      translate_member_ok run
    obtain rfl := chainType_type e typed chain
    obtain ⟨accessed, _⟩ := follow_ok followed
    obtain ⟨q, value, same, stands⟩ := translate_standsFor held e geometric typed apart inside
    rw [← same] at accessed member
    -- Parentheses around a target change nothing of what it stands for.
    have place : StandsFor s (if isPlace e then inner else .group inner) q := by
      split
      · exact stands
      · exact stands.group
    obtain ⟨r, found, number, stands'⟩ := place.access (place_unsigned inside) accessed
    exact ⟨r, by rw [Expr.quantity?, value]; exact found, number.trans (member?_leaf member).symm,
      stands'⟩

/-- The device computes from the text of a translation what stands for the host's result: the same
numbers and vectors, and matrices with the rows of the host as columns. -/
theorem translate_transposed {scope : Scope} {bindings : List (String × Quantity)}
    {s : Surroundings} (held : ∀ name o, scope.lookup name = some o → o.type.isGeometric = true →
      ∃ q, bindings.lookup name = some q ∧ s.Holds o q)
    {e : Expr} (geometric : e.IsGeometric) (typed : e.IsHostTyped scope) (apart : e.SignsApart)
    {d f : Draft} {t : Term} (run : translate scope e d = .ok (t, f)) :
    ∃ form q, readExpression t.text = some form ∧ e.quantity? bindings = some q ∧
      q.type = e.type ∧ form.value? s = some q.onDevice := by
  obtain ⟨q, value, same, stands⟩ := translate_standsFor held e geometric typed apart run
  exact ⟨t.form, q, Term.readExpression_text stands.readable, value, same, stands.value⟩

def movedBody : Expr :=
  let p : Expr := .parameter ⟨"p", .vector4⟩
  let m : Expr := .parameter ⟨"m", .matrix4x4⟩
  let moves : Expr := .constant (.matrix4x4 (.displacement .zero .one .one .zero .one))
  .binary .mul
    (.binary .mul p (.binary .mul (.negate m .matrix4x4) moves .matrix4x4) .vector4)
    (.member m "m23" .f32) .vector4

def movedScope : Scope := [("m", ⟨.buffer 1, .matrix4x4⟩), ("p", ⟨.step 1, .vector4⟩)]

def movedPoint : Quantity := .vector4 ⟨1, 2, 3, 1⟩

def movedMatrix : Quantity :=
  .matrix4x4 ⟨⟨1, 2, 3, 4⟩, ⟨5, 6, 7, 8⟩, ⟨9, 10, 11, 12⟩, ⟨13, 14, 15, 16⟩⟩

def movedBindings : List (String × Quantity) := [("m", movedMatrix), ("p", movedPoint)]

def movedSurroundings : Surroundings where
  buffers := [("buf1", .matrix 4 4, movedMatrix.numbers)]
  values := [("v1", movedPoint.onDevice)]

theorem movedBody_transposed : ∃ t f form q, translate movedScope movedBody {} = .ok (t, f) ∧
    t.text = "(buf1[gid.x][1][2] * ((mat4x4<f32>(1.0f, 0.0f, 0.0f, 0.0f, 0.0f, 1.0f, 0.0f, " ++
      "0.0f, 0.0f, 0.0f, 1.0f, 0.0f, 1.0f, 0.0f, 1.0f, 1.0f) * (-1.0f * buf1[gid.x])) * v1))" ∧
    readExpression t.text = some form ∧ movedBody.quantity? movedBindings = some q ∧
    form.value? movedSurroundings = some q.onDevice := by
  have held : ∀ name o, movedScope.lookup name = some o → o.type.isGeometric = true →
      ∃ q, movedBindings.lookup name = some q ∧ movedSurroundings.Holds o q := by
    intro name o found _
    rcases List.mem_cons.mp (mem_of_lookup found) with same | member
    · obtain ⟨rfl, rfl⟩ := Prod.mk.inj same
      exact ⟨movedMatrix, rfl, rfl, .matrix 4 4, rfl, rfl⟩
    · obtain ⟨rfl, rfl⟩ := Prod.mk.inj (List.mem_singleton.mp member)
      exact ⟨movedPoint, rfl, rfl, rfl⟩
  have typed : movedBody.IsHostTyped movedScope := by
    refine ⟨rfl, ⟨rfl, ?_, rfl, ⟨rfl, ?_⟩, trivial⟩, rfl, ?_⟩ <;>
    · intro o found
      obtain rfl := Option.some.inj found
      rfl
  have run : translate movedScope movedBody {} = .ok (_, _) := rfl
  have geometric : movedBody.IsGeometric :=
    ⟨.inr (.inr rfl), ⟨.inr (.inr rfl), rfl, .inr (.inr rfl), rfl, rfl⟩, rfl⟩
  have apart : movedBody.SignsApart := ⟨⟨trivial, ⟨rfl, trivial⟩, trivial⟩, trivial⟩
  obtain ⟨form, q, read, value, _, exact⟩ :=
    translate_transposed held geometric typed apart run
  refine ⟨_, _, form, q, run, ?_, read, value, exact⟩
  decide +kernel

end ArrayQuery.Kernel
