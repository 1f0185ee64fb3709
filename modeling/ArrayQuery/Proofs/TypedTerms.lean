import ArrayQuery.Proofs.Declared

/-! The types of the terms that a sound draft is made of: literals, operands, accessors, and the
operators that the compiler lets through, each of which the kernel language has for its operands. -/

set_option autoImplicit false
namespace ArrayQuery

namespace Value

mutual
/-- Whether the values of records have the types of their fields. -/
def IsFormed : Value → Prop
  | record r values => AreFormed r.fields values
  | _ => True

def AreFormed (fields : List (String × ElementType)) : List Value → Prop
  | [] => fields = []
  | v :: rest =>
    match fields with
    | [] => False
    | field :: fields => v.type = field.2 ∧ v.IsFormed ∧ AreFormed fields rest
end

def kernelType : Value → ElementType
  | f64 _ => .f32
  | v => v.type

theorem kernelType_eq {v : Value} (single : v.type ≠ .f64) : v.kernelType = v.type := by
  cases v with
  | f64 x => exact absurd rfl single
  | _ => rfl

end Value

mutual
def ElementType.records : ElementType → List RecordType
  | .leaf _ => []
  | .record name fields => ⟨name, fields⟩ :: ElementType.recordsIn fields

def ElementType.recordsIn : List (String × ElementType) → List RecordType
  | [] => []
  | (_, t) :: rest => t.records ++ ElementType.recordsIn rest
end

/-- Whether a record can be a struct: it has members, and their names stay different. -/
def RecordType.IsStruct (r : RecordType) : Prop :=
  r.fields ≠ [] ∧ (r.fields.map fun field => Kernel.identifier field.1).Nodup

namespace Kernel

open Compile

theorem typeOf_single {names : RecordNames} {t : ElementType} {k : KernelType}
    (found : names.typeOf t = .ok k) : t ≠ .f64 := by
  rintro rfl
  exact nomatch found

/-- Whether an expression of a kernel has the kernel type of a type of the host. -/
abbrev HasType (d : Draft) (t : ElementType) (e : Form) : Prop :=
  ∃ k, d.records.typeOf t = .ok k ∧ e.type? d.declarations = some (.value k)

theorem HasType.later {d e : Draft} {t : ElementType} {form : Form} (typed : HasType d t form)
    (sound : Sound d) (sound' : Sound e) (later : Later d e) : HasType e t form := by
  obtain ⟨k, known, spelled⟩ := typed
  exact ⟨k, RecordNames.typeOf_extends later.records known,
    Form.type?_extends (sound.extends sound' later) form _ spelled⟩

theorem digits_last (n : Nat) : ∃ c, (toString n).toList.getLast? = some c ∧ c.isDigit = true := by
  rw [Nat.toString_eq_repr, Nat.toList_repr]
  cases last : (Nat.toDigits 10 n).getLast? with
  | none => exact absurd (List.getLast?_eq_none_iff.mp last) Nat.toDigits_ne_nil
  | some c =>
    have digits := List.all_eq_true.mp (Decimal.all_isDigit_toDigits n)
    exact ⟨c, rfl, digits c (List.mem_of_getLast? last)⟩

theorem numeralType?_exact (n : Nat) :
    numeralType? (toString n).toList = some (.constant n) := by
  obtain ⟨c, last, digit⟩ := digits_last n
  have bare : numeral? (toString n).toList = none := by
    unfold numeral?
    split
    · next suffixed _ =>
      obtain rfl := Option.some.inj (last.symm.trans suffixed)
      exact absurd digit (by decide)
    · next suffixed _ =>
      obtain rfl := Option.some.inj (last.symm.trans suffixed)
      exact absurd digit (by decide)
    · rfl
  have other : (toString n).toList.getLast? ≠ some 'f' := by
    rw [last]
    rintro same
    obtain rfl := Option.some.inj same
    exact absurd digit (by decide)
  rw [numeralType?, bare]
  dsimp only
  rw [if_neg other, natural?_toString]
  rfl

theorem numeralType?_float {text : List Char} (suffixed : text.getLast? = some 'f') :
    numeralType? text = some (.value .f32) := by
  have whole : numeral? text = none := by
    unfold numeral?
    rw [suffixed]
    rfl
  rw [numeralType?, whole]
  dsimp only
  rw [if_pos suffixed]

section Literals

variable (g : Declarations)

theorem type?_float (x : Single) : (Literal.float x).form.type? g = some (.value .f32) := by
  have text : (Literal.float x).text.toList = x.text.toList ++ ['f'] := by
    simp [Literal.text]
  unfold Literal.form
  dsimp only
  rw [text]
  unfold signedForm
  split
  · next digits same =>
    have suffixed : digits.getLast? = some 'f' := by
      cases digits with
      | nil =>
        have last := congrArg List.getLast? same
        rw [List.getLast?_concat] at last
        exact absurd last (by decide)
      | cons c rest =>
        have last := congrArg List.getLast? same
        rwa [List.getLast?_concat, List.getLast?_cons_cons, eq_comm] at last
    rw [Form.type?, Form.type?, numeralType?_float suffixed]
    rfl
  · rw [Form.type?, numeralType?_float (List.getLast?_concat ..)]

theorem type?_int (d : Draft) (n : Int32) :
    (Literal.int n).form.type? d.declarations = some (.value .i32) := by
  have low := n.le_toInt
  have high := n.toInt_lt
  rw [int_form]
  split
  · have magnitude : numeralType? leastMagnitude = some (.constant 2147483648) := by decide
    have named : d.declarations.type? "i32" = some .i32 := d.type?_builtin (t := .i32) (by decide)
    simp only [Form.type?, Form.typeAll?, named, magnitude, Option.bind_eq_bind, Option.bind_some,
      FormType.opposite?]
    rfl
  · next other =>
    split
    · next positive =>
      rw [Form.type?, numeralType?, numeral?_signed (by omega)]
    · next negative =>
      rw [Form.type?, Form.type?, numeralType?, numeral?_signed (by omega)]
      rfl

theorem type?_uint (n : UInt32) : (Literal.uint n).form.type? g = some (.value .u32) := by
  rw [uint_form, Form.type?, numeralType?, numeral?_unsigned]

theorem type?_bool (b : Bool) : (Literal.bool b).form.type? g = some (.value .bool) := by
  cases b
  · exact if_pos (.inr rfl)
  · exact if_pos (.inl rfl)

theorem typeAll?_floats : ∀ {xs : List Single} {ts : List Term}, floatLiterals xs = .ok ts →
    Form.typeAll? g (Term.formAll ts) = some (List.replicate xs.length (.value .f32))
  | [], _, found => by
    obtain rfl := Except.ok.inj found
    rfl
  | x :: xs, _, found => by
    obtain ⟨rest, _, others, rfl⟩ := floatLiterals_cons_ok found
    simp only [Term.formAll, Term.form, Form.typeAll?, type?_float, typeAll?_floats others,
      Option.bind_eq_bind, Option.bind_some]
    rfl

end Literals

theorem Sound.declares {d : Draft} (sound : Sound d) {r : RecordType} {name : String}
    (known : d.records.get? r = some name) :
    ∃ s ∈ d.structs, s.name = name ∧ List.Forall₂ (IsMember d.records) r.fields s.fields := by
  obtain ⟨s, member, declares⟩ := exists_of_forall₂ sound.structs.flip (mem_of_lookup known)
  exact ⟨s, member, declares.name, declares.members⟩

theorem member_names {names : RecordNames} {fields : List (String × ElementType)}
    {members : List (String × KernelType)} (held : List.Forall₂ (IsMember names) fields members) :
    members.map Prod.fst = fields.map fun field => identifier field.1 := by
  induction held with
  | nil => rfl
  | cons first _ ih => rw [List.map_cons, List.map_cons, first.1, ih]

theorem Sound.struct_of {d : Draft} (sound : Sound d) {r : RecordType} (formed : r.IsStruct)
    {name : String} (known : d.records.get? r = some name) :
    ∃ s, s.name = name ∧ d.declarations.struct? name = some s ∧
      List.Forall₂ (IsMember d.records) r.fields s.fields := by
  obtain ⟨s, member, rfl, held⟩ := sound.declares known
  have nonempty : s.fields ≠ [] := by
    intro empty
    rw [empty] at held
    exact formed.1 (List.forall₂_nil_right_iff.mp held)
  have distinct : (s.fields.map Prod.fst).Nodup := by
    rw [member_names held]
    exact formed.2
  exact ⟨s, rfl, sound.struct? member nonempty distinct, held⟩

theorem Sound.type?_made {d : Draft} (sound : Sound d) {s : Struct}
    (found : d.declarations.struct? s.name = some s) {args : List Form}
    (typed : Form.typeAll? d.declarations args = some (s.fields.map fun m => .value m.2)) :
    (Form.call s.name args).type? d.declarations = some (.value (.struct s.name)) := by
  have made : d.declarations.makes (.struct s.name) (s.fields.map fun m => .value m.2) = true := by
    rw [Declarations.makes, found]
    exact beq_self_eq_true _
  rw [Form.type?, sound.type?_struct found, typed]
  exact if_pos made

theorem type?_packed (d : Draft) {t : KernelType} (builtin : t ∈ KernelType.builtin)
    {xs : List Single} (counted : t.isMadeFrom (List.replicate xs.length (.value .f32)) = true)
    {ts : List Term} (cells : floatLiterals xs = .ok ts) :
    (Term.call (.type t) ts).form.type? d.declarations = some (.value t) := by
  have made : d.declarations.makes t (List.replicate xs.length (.value .f32)) = true := by
    cases t with
    | struct name => exact absurd counted Bool.false_ne_true
    | _ => exact counted
  rw [Term.form, Callee.text, Form.type?, d.type?_builtin builtin, typeAll?_floats _ cells]
  exact if_pos made

mutual
theorem literal_typed {d : Draft} (sound : Sound d) : ∀ (v : Value) (t : Term), v.IsFormed →
    (∀ r ∈ v.type.records, r.IsStruct) → d.records.literal v = .ok t →
    HasType d v.kernelType t.form
  | .bool b, t, _, _, found => by
    obtain rfl := Except.ok.inj found
    exact ⟨.bool, rfl, type?_bool _ b⟩
  | .i32 n, t, _, _, found => by
    obtain rfl := Except.ok.inj found
    exact ⟨.i32, rfl, type?_int d n⟩
  | .u32 n, t, _, _, found => by
    obtain rfl := Except.ok.inj found
    exact ⟨.u32, rfl, type?_uint _ n⟩
  | .f32 x, t, _, _, found => by
    obtain ⟨rfl, _⟩ := floatLiteral_ok found
    exact ⟨.f32, rfl, type?_float _ x⟩
  | .f64 x, t, _, _, found => by
    obtain ⟨rfl, _⟩ := floatLiteral_ok found
    exact ⟨.f32, rfl, type?_float _ x.toSingle⟩
  | .vector2 v, t, _, _, found => by
    obtain ⟨ts, cells, rfl⟩ := RecordNames.literal_packed_ok rfl found
    exact ⟨.vector 2, rfl, type?_packed d (by decide) rfl cells⟩
  | .vector3 v, t, _, _, found => by
    obtain ⟨ts, cells, rfl⟩ := RecordNames.literal_packed_ok rfl found
    exact ⟨.vector 3, rfl, type?_packed d (by decide) rfl cells⟩
  | .vector4 v, t, _, _, found => by
    obtain ⟨ts, cells, rfl⟩ := RecordNames.literal_packed_ok rfl found
    exact ⟨.vector 4, rfl, type?_packed d (by decide) rfl cells⟩
  | .matrix4x4 m, t, _, _, found => by
    obtain ⟨ts, cells, rfl⟩ := RecordNames.literal_packed_ok rfl found
    exact ⟨.matrix 4 4, rfl, type?_packed d (by decide) rfl cells⟩
  | .matrix3x2 m, t, _, _, found => by
    obtain ⟨ts, cells, rfl⟩ := RecordNames.literal_packed_ok rfl found
    exact ⟨.matrix 3 2, rfl, type?_packed d (by decide) rfl cells⟩
  | .record r values, t, formed, structs, found => by
    obtain ⟨_, args, name, fields, known, rfl⟩ := RecordNames.literal_record_ok found
    obtain ⟨s, rfl, declared, held⟩ := sound.struct_of (structs r List.mem_cons_self) known
    -- The struct has a member for each field, in their order, so the literals of the fields fit it.
    have typed := fieldLiterals_typed sound values _ r.fields args formed
      (fun u member => structs u (List.mem_cons_of_mem _ member)) held fields
    exact ⟨.struct s.name, RecordNames.typeOf_record_ok.mpr ⟨s.name, known, rfl⟩,
      sound.type?_made declared typed⟩

theorem fieldLiterals_typed {d : Draft} (sound : Sound d) : ∀ (values : List Value) (node : String)
    (fields : List (String × ElementType)) (ts : List Term) {members : List (String × KernelType)},
    Value.AreFormed fields values → (∀ r ∈ ElementType.recordsIn fields, r.IsStruct) →
    List.Forall₂ (IsMember d.records) fields members →
    RecordNames.fieldLiterals d.records node fields values = .ok ts →
    Form.typeAll? d.declarations (Term.formAll ts) = some (members.map fun m => .value m.2)
  | [], _, fields, ts, members, formed, _, held, found => by
    obtain rfl := Except.ok.inj found
    obtain rfl : fields = [] := formed
    obtain rfl := List.forall₂_nil_left_iff.mp held
    rfl
  | v :: values, node, [], ts, members, formed, _, _, _ => formed.elim
  | v :: values, node, (field, u) :: fields, ts, members, formed, structs, held, found => by
    obtain ⟨_, t, rest, first, others, rfl⟩ := RecordNames.fieldLiterals_cons_ok found
    obtain ⟨same, inner, later⟩ := formed
    obtain ⟨m, more, head, tail, rfl⟩ := List.forall₂_cons_left_iff.mp held
    have inside : ∀ r ∈ v.type.records, r.IsStruct := by
      intro r member
      rw [same] at member
      exact structs r (List.mem_append_left _ member)
    obtain ⟨k, known, typed⟩ := literal_typed sound v t inner inside first
    -- The member was declared with the type of the field, which is also that of the literal.
    obtain rfl : k = m.2 := by
      rw [Value.kernelType_eq (same ▸ typeOf_single head.2), same, head.2] at known
      exact (Except.ok.inj known).symm
    have rest := fieldLiterals_typed sound values node fields rest later
      (fun r member => structs r (List.mem_append_right _ member)) tail others
    simp only [Term.formAll, Form.typeAll?, typed, rest, Option.bind_eq_bind, Option.bind_some]
    rfl
end

/-! ## Operators -/

/-- The type of an operator's result on the host: that of what is scaled, or of the left operand. -/
def operatorType (l r : ElementType) : ElementType :=
  if l.isScalar && !r.isScalar then r else l

theorem operator_leaves {op : BinaryOp} {l r : ElementType}
    (defined : isOperatorDefined op l r = true) : ∃ a b, l = .leaf a ∧ r = .leaf b := by
  cases l with
  | leaf a =>
    cases r with
    | leaf b => exact ⟨a, b, rfl, rfl⟩
    | record n fields =>
      cases op <;>
        simp [isOperatorDefined, ElementType.isVector, ElementType.isMatrix] at defined
  | record n fields =>
    cases op <;>
      simp [isOperatorDefined, ElementType.isVector, ElementType.isMatrix] at defined

theorem leaf_mem (l : Leaf) : l ∈ Leaf.all := by
  cases l <;> decide

/-- Every pair of operand types that the compiler lets through has a kernel operator, in the order in
which the operands are written, and its result is of the host's type. -/
theorem operator_table : ∀ op ∈ [BinaryOp.add, .sub, .mul, .div, .rem], ∀ l ∈ Leaf.all,
    ∀ r ∈ Leaf.all, isOperatorDefined op (.leaf l) (.leaf r) = true →
      ((ofLeaf l).bind fun a => (ofLeaf r).bind fun b =>
        if op = .mul then KernelType.arithmetic? op b a else KernelType.arithmetic? op a b) =
          ofLeaf (if l.isScalar && !r.isScalar then r else l) ∧
      (ofLeaf (if l.isScalar && !r.isScalar then r else l)).isSome = true := by
  decide

theorem operator_typed {op : BinaryOp} {names : RecordNames} {l r : ElementType} {a b : KernelType}
    (defined : isOperatorDefined op l r = true) (left : names.typeOf l = .ok a)
    (right : names.typeOf r = .ok b) :
    ∃ k, names.typeOf (operatorType l r) = .ok k ∧
      (if op = .mul then KernelType.arithmetic? op b a else KernelType.arithmetic? op a b) =
        some k := by
  obtain ⟨x, y, rfl, rfl⟩ := operator_leaves defined
  have listed : op ∈ [BinaryOp.add, .sub, .mul, .div, .rem] := by cases op <;> decide
  obtain ⟨same, known⟩ := operator_table op listed x (leaf_mem x) y (leaf_mem y) defined
  rw [RecordNames.typeOf_leaf_ok.mp left, RecordNames.typeOf_leaf_ok.mp right] at same
  obtain ⟨k, found⟩ := Option.isSome_iff_exists.mp known
  rw [found] at same
  have result : operatorType (.leaf x) (.leaf y) =
      .leaf (if x.isScalar && !y.isScalar then y else x) :=
    (apply_ite ElementType.leaf _ y x).symm
  exact ⟨k, by rw [result, RecordNames.typeOf_leaf_ok, found], same⟩

theorem operator_single {op : BinaryOp} {l r : ElementType}
    (defined : isOperatorDefined op l r = true) : l ≠ .f64 ∧ r ≠ .f64 := by
  obtain ⟨x, y, rfl, rfl⟩ := operator_leaves defined
  have each : ∀ op ∈ [BinaryOp.add, .sub, .mul, .div, .rem], ∀ l ∈ Leaf.all, ∀ r ∈ Leaf.all,
      isOperatorDefined op (.leaf l) (.leaf r) = true → l ≠ .f64 ∧ r ≠ .f64 := by
    decide
  have listed : op ∈ [BinaryOp.add, .sub, .mul, .div, .rem] := by cases op <;> decide
  obtain ⟨left, right⟩ := each op listed x (leaf_mem x) y (leaf_mem y) defined
  exact ⟨fun same => left (ElementType.leaf.inj same), fun same => right (ElementType.leaf.inj same)⟩

theorem type?_operator {d : Draft} {op : BinaryOp} {l r : ElementType}
    (defined : isOperatorDefined op l r = true) {x y : Form} (left : HasType d l x)
    (right : HasType d r y) :
    HasType d (operatorType l r)
      (if op = .mul then .paren (.binary (.arithmetic op) y x)
        else .paren (.binary (.arithmetic op) x y)) := by
  obtain ⟨a, known, typed⟩ := left
  obtain ⟨b, known', typed'⟩ := right
  obtain ⟨k, result, operates⟩ := operator_typed defined known known'
  refine ⟨k, result, ?_⟩
  by_cases product : op = .mul
  · rw [if_pos product] at operates ⊢
    rw [Form.type?, Form.type?, typed', typed]
    change (KernelType.arithmetic? op b a).map FormType.value = _
    rw [operates, Option.map_some]
  · rw [if_neg product] at operates ⊢
    rw [Form.type?, Form.type?, typed, typed']
    change (KernelType.arithmetic? op a b).map FormType.value = _
    rw [operates, Option.map_some]

theorem type?_opposite {d : Draft} {t : ElementType}
    (signed : t = .i32 ∨ t = .f32 ∨ t.isVector = true) {x : Form} (operand : HasType d t x) :
    HasType d t (.paren (.negate x)) := by
  obtain ⟨k, known, typed⟩ := operand
  refine ⟨k, known, ?_⟩
  cases t with
  | leaf l =>
    have leaf := RecordNames.typeOf_leaf_ok.mp known
    have each : ∀ l ∈ Leaf.all, (.leaf l = ElementType.i32 ∨ .leaf l = ElementType.f32 ∨
        (ElementType.leaf l).isVector = true) → (ofLeaf l).bind KernelType.opposite? = ofLeaf l := by
      decide
    have same : k.opposite? = some k := by
      have found := each l (leaf_mem l) signed
      rwa [leaf] at found
    rw [Form.type?, Form.type?, typed]
    change k.opposite?.map FormType.value = _
    rw [same, Option.map_some]
  | record n fields => simp [ElementType.isVector] at signed

/-- The opposite of a matrix is its product with a number. -/
theorem type?_scaled {d : Draft} {t : ElementType} (matrix : t.isMatrix = true) {x : Form}
    (operand : HasType d t x) :
    HasType d t (.paren (.binary (.arithmetic .mul) (.negate (.number minusOne)) x)) := by
  obtain ⟨k, known, typed⟩ := operand
  refine ⟨k, known, ?_⟩
  cases t with
  | leaf l =>
    have leaf := RecordNames.typeOf_leaf_ok.mp known
    have each : ∀ l ∈ Leaf.all, (ElementType.leaf l).isMatrix = true →
        (ofLeaf l).bind (KernelType.arithmetic? .mul .f32) = ofLeaf l := by
      decide
    have same : KernelType.arithmetic? .mul .f32 k = some k := by
      have found := each l (leaf_mem l) matrix
      rwa [leaf] at found
    have one : (Form.negate (.number minusOne)).type? d.declarations = some (.value .f32) := rfl
    rw [Form.type?, Form.type?, one, typed]
    change (KernelType.arithmetic? .mul .f32 k).map FormType.value = _
    rw [same, Option.map_some]
  | record n fields => exact absurd matrix Bool.false_ne_true

theorem scalar_typed {names : RecordNames} {t : ElementType} {k : KernelType}
    (scalar : t.isScalar = true) (typed : names.typeOf t = .ok k) :
    k ∈ [KernelType.bool, .i32, .u32, .f32] := by
  cases t with
  | leaf l =>
    have known := RecordNames.typeOf_leaf_ok.mp typed
    have each : ∀ l ∈ Leaf.all, l.isScalar = true →
        ∀ k ∈ ofLeaf l, k ∈ [KernelType.bool, .i32, .u32, .f32] := by
      decide
    exact each l (leaf_mem l) scalar k known
  | record n fields => exact absurd scalar Bool.false_ne_true

theorem type?_converted {d : Draft} {t u : ElementType} (scalar : t.isScalar = true)
    (scalar' : u.isScalar = true) {k : KernelType} (known : d.records.typeOf t = .ok k) {x : Form}
    (operand : HasType d u x) : HasType d t (.call k.text [x]) := by
  obtain ⟨l, known', typed⟩ := operand
  refine ⟨k, known, ?_⟩
  have each : ∀ k ∈ [KernelType.bool, .i32, .u32, .f32], k ∈ KernelType.builtin ∧
      ∀ l ∈ [KernelType.bool, .i32, .u32, .f32], k.isMadeFrom [.value l] = true := by
    decide
  obtain ⟨builtin, made⟩ := each k (scalar_typed scalar known)
  have makes : d.declarations.makes k [.value l] = true := by
    have converts := made l (scalar_typed scalar' known')
    cases k with
    | struct name => exact absurd converts Bool.false_ne_true
    | _ => exact converts
  simp only [Form.type?, Form.typeAll?, d.type?_builtin builtin, typed, Option.bind_eq_bind,
    Option.bind_some, Option.pure_def]
  exact if_pos makes

theorem type?_at {d : Draft} {slot : Nat} {i : Input} (found : d.inputs[slot]? = some i) {e : Form}
    (position : e.type? d.declarations = some (.value .u32)) :
    (Form.index (.name (Variable.buffer slot).name) e).type? d.declarations =
      some (.value i.storage) := by
  have named : (namedValues d.inputs d.lets).lookup (Variable.buffer slot).name =
      some (.array i.storage) := lookup_array d.lets found
  have buffer : (Form.name (Variable.buffer slot).name).type? d.declarations =
      some (.array i.storage) := by
    have other : ¬((Variable.buffer slot).name = "true" ∨ (Variable.buffer slot).name = "false") :=
      bufferName_ne_keyword slot
    rw [Form.type?, if_neg other]
    exact named
  rw [Form.type?, buffer, position]
  rfl

theorem type?_invocation (d : Draft) :
    invocationForm.type? d.declarations = some (.value .u32) := by
  have named : (Form.name "gid").type? d.declarations = some .indices := by
    have other : ¬("gid" = "true" ∨ "gid" = "false") := by decide
    rw [Form.type?, if_neg other]
    rfl
  have first : "x" ∈ componentNames.take 3 := by decide
  rw [invocationForm, Form.type?, named]
  change d.declarations.member? "x" .indices = _
  rw [Declarations.member?, if_pos first]

/-- A stored element has its type again: truth values are compared with zero. -/
theorem type?_stored {d : Draft} {t : ElementType} {k : KernelType}
    (stored : d.records.storageOf t = .ok k) {e : Term}
    (typed : e.form.type? d.declarations = some (.value k)) :
    HasType d t (if t = .bool then Term.nonzero e else e).form := by
  unfold RecordNames.storageOf at stored
  split at stored
  · next truth =>
    obtain rfl := Except.ok.inj stored
    subst truth
    have zero : (Form.number ['0', 'u']).type? d.declarations = some (.value .u32) := rfl
    refine ⟨.bool, rfl, ?_⟩
    rw [if_pos rfl, Term.form, Form.type?, Form.type?, typed, zero]
    rfl
  · next other =>
    rw [if_neg other]
    exact ⟨k, stored, typed⟩

theorem operand_typed {d : Draft} (sound : Sound d) {o : Operand} (valid : o.IsValid d) :
    HasType d o.type o.term.form := by
  obtain ⟨target, t⟩ := o
  cases target with
  | buffer slot =>
    obtain ⟨i, found, rfl⟩ := valid
    have stored := sound.storage i (List.mem_of_getElem? found)
    exact type?_stored stored (e := .element slot) (type?_at found (type?_invocation d))
  | step n =>
    obtain ⟨k, l, rfl, found, typed⟩ := valid
    refine ⟨l.type, typed, ?_⟩
    rw [Operand.term, Term.form, Form.type?, if_neg (stepName_ne_keyword _)]
    exact lookup_step d.inputs found

/-! ## Members -/

theorem cell_bounds {l : Leaf} {member : String} {row column : Nat}
    (found : l.cell? member = some (row, column)) : row < l.shape.1 ∧ column < l.shape.2 := by
  unfold Leaf.cell? at found
  split at found
  · dsimp only at found
    split at found
    · next inside =>
      simp only [Bool.and_eq_true, decide_eq_true_eq] at inside
      obtain ⟨rfl, rfl⟩ := Prod.mk.inj (Option.some.inj found)
      omega
    · exact nomatch found
  · exact nomatch found

theorem identifier_component : ∀ name ∈ componentNames, identifier name = name := by
  decide

theorem identifier_ne {fields : List (String × ElementType)} {own name : String} {t : ElementType}
    (absent : identifier own ∉ fields.map fun field => identifier field.1)
    (found : fields.lookup name = some t) : identifier name ≠ identifier own :=
  fun same => absent (List.mem_map.mpr ⟨(name, t), mem_of_lookup found, same⟩)

theorem lookup_member {names : RecordNames} {fields : List (String × ElementType)}
    {members : List (String × KernelType)} (held : List.Forall₂ (IsMember names) fields members)
    (distinct : (fields.map fun field => identifier field.1).Nodup) {name : String} {t : ElementType}
    (found : fields.lookup name = some t) :
    ∃ k, members.lookup (identifier name) = some k ∧ names.typeOf t = .ok k := by
  induction held with
  | nil => exact nomatch found
  | @cons field member fields members first _ ih =>
    obtain ⟨absent, apart⟩ := List.nodup_cons.mp distinct
    rw [List.lookup_cons] at found
    rw [List.lookup_cons]
    split at found
    · next same =>
      obtain rfl := Option.some.inj found
      rw [beq_iff_eq.mp same, first.1, beq_self_eq_true]
      exact ⟨member.2, rfl, first.2⟩
    · have other : (identifier name == member.1) = false :=
        beq_eq_false_iff_ne.mpr fun same => identifier_ne absent found (same.trans first.1)
      rw [other]
      exact ih apart found

theorem matrix_shape {l : Leaf} {k : KernelType} (matrix : l.isMatrix = true)
    (known : ofLeaf l = some k) : k = .matrix l.shape.1 l.shape.2 := by
  have each : ∀ l ∈ Leaf.all, l.isMatrix = true →
      ofLeaf l = some (.matrix l.shape.1 l.shape.2) := by
    decide
  exact Option.some.inj (known.symm.trans (each l (leaf_mem l) matrix))

theorem type?_cell {g : Declarations} {k : KernelType} {columns rows : Nat}
    (matrix : k = .matrix columns rows) {e : Form} (typed : e.type? g = some (.value k))
    {column row : Nat} (below : column < columns) (below' : row < rows) :
    (Access.form e (.cell column row)).type? g = some (.value .f32) := by
  subst matrix
  have first : (FormType.constant column).isIndex columns = true := by
    simp [FormType.isIndex, below]
  have second : (FormType.constant row).isIndex rows = true := by
    simp [FormType.isIndex, below']
  simp only [Access.form, Form.type?, typed, numeralType?_exact, Option.bind_eq_bind,
    Option.bind_some, FormType.element?, first, second, if_true]

theorem type?_component {g : Declarations} {l : Leaf} {member : String} {k : KernelType}
    (component : member ∈ l.components) (known : ofLeaf l = some k) {e : Form}
    (typed : e.type? g = some (.value k)) :
    (Access.form e (.field (identifier member))).type? g = some (.value .f32) := by
  have each : ∀ l ∈ Leaf.all, ∀ member ∈ l.components,
      ofLeaf l = some (.vector l.components.length) ∧
      member ∈ componentNames.take l.components.length := by
    decide
  obtain ⟨vector, listed⟩ := each l (leaf_mem l) member component
  obtain rfl := Option.some.inj (vector.symm.trans known)
  rw [Access.form, identifier_component member (List.mem_of_mem_take listed), Form.type?, typed]
  change g.member? member (.value (.vector l.components.length)) = _
  exact if_pos listed

theorem accessOf_field {n name : String} {fields : List (String × ElementType)} {t : ElementType}
    (found : fields.lookup name = some t) :
    accessOf (.record n fields) name = some (.field (identifier name)) := by
  simp only [accessOf, ElementType.cell?, ElementType.member?, found, Option.map_some]

theorem access_typed {d : Draft} (sound : Sound d) {container t : ElementType} {member : String}
    {a : Access} (structs : ∀ r ∈ container.records, r.IsStruct)
    (accessed : accessOf container member = some a) (found : container.member? member = some t)
    {e : Form} (typed : HasType d container e) : HasType d t (a.form e) := by
  obtain ⟨k, known, typed⟩ := typed
  cases container with
  | leaf l =>
    have leaf := RecordNames.typeOf_leaf_ok.mp known
    -- The members of a leaf are the cells of a matrix or the components of a vector.
    by_cases matrix : l.isMatrix = true
    · simp only [ElementType.member?, matrix, if_true] at found
      obtain ⟨⟨row, column⟩, cell, rfl⟩ := Option.map_eq_some_iff.mp found
      simp only [accessOf, ElementType.cell?, matrix, if_true, cell] at accessed
      obtain rfl := Option.some.inj accessed
      obtain ⟨below, below'⟩ := cell_bounds cell
      exact ⟨.f32, rfl, type?_cell (matrix_shape matrix leaf) typed below below'⟩
    · simp only [ElementType.member?, matrix, if_false, Bool.false_eq_true] at found
      split at found
      · next component =>
        obtain rfl := Option.some.inj found
        simp only [accessOf, ElementType.cell?, matrix, if_false, Bool.false_eq_true,
          ElementType.member?, component, if_true, Option.map_some] at accessed
        obtain rfl := Option.some.inj accessed
        exact ⟨.f32, rfl, type?_component (List.contains_iff_mem.mp component) leaf typed⟩
      · exact nomatch found
  | record n fields =>
    obtain ⟨name, named, rfl⟩ := RecordNames.typeOf_record_ok.mp known
    have formed := structs ⟨n, fields⟩ List.mem_cons_self
    obtain ⟨s, _, declared, held⟩ := sound.struct_of formed named
    have inside : fields.lookup member = some t := found
    obtain ⟨k, given, result⟩ := lookup_member held formed.2 inside
    obtain rfl := Option.some.inj ((accessOf_field inside).symm.trans accessed)
    refine ⟨k, result, ?_⟩
    simp only [Access.form, Form.type?, typed, Option.bind_eq_bind, Option.bind_some,
      Declarations.member?, declared, given]
    rfl

end Kernel
end ArrayQuery
