import ArrayQuery.Proofs.Decimals
import ArrayQuery.Proofs.StableNames
import ArrayQuery.Proofs.Supported

/-! The text of a literal determines its value: it is read back as the value, records in records
included. Numbers have a suffix that gives their type, vectors and matrices the names of their types, and
records names of their own, which are none of these. -/

set_option autoImplicit false
namespace ArrayQuery

namespace Value

mutual
def parts : Value → List Value
  | record r values => record r values :: partsOf values
  | v => [v]

def partsOf : List Value → List Value
  | [] => []
  | v :: rest => v.parts ++ partsOf rest
end

/-- Whether there are no doubles in a value. They are spelled as the singles next to them. -/
def IsSingle (v : Value) : Prop :=
  ∀ x, .f64 x ∉ v.parts

end Value

def Word.literal : Word → Value
  | .signed n => .i32 n
  | .unsigned n => .u32 n

namespace Kernel

namespace RecordNames

variable {names : RecordNames}

mutual
/-- There is a literal exactly of those values whose numbers are finite and whose records can be spelled,
however deep they are inside. -/
theorem literal_iff : ∀ v : Value, (∃ t, names.literal v = .ok t) ↔
    v.IsFinite ∧ ∀ r values, .record r values ∈ v.parts → names.Takes r values
  | .bool _ | .i32 _ | .u32 _ => by simp [literal, Value.IsFinite, Value.parts]
  | .f32 x => (floatLiteral_accepts x).trans (and_iff_left (by simp [Value.parts])).symm
  | .f64 x => (floatLiteral_accepts x.toSingle).trans (and_iff_left (by simp [Value.parts])).symm
  | .vector2 v => (packed_accepts (.vector 2) v.toList).trans (and_iff_left (by simp [Value.parts])).symm
  | .vector3 v => (packed_accepts (.vector 3) v.toList).trans (and_iff_left (by simp [Value.parts])).symm
  | .vector4 v => (packed_accepts (.vector 4) v.toList).trans (and_iff_left (by simp [Value.parts])).symm
  | .matrix4x4 m => (packed_accepts (.matrix 4 4) m.toList).trans (and_iff_left (by simp [Value.parts])).symm
  | .matrix3x2 m => (packed_accepts (.matrix 3 2) m.toList).trans (and_iff_left (by simp [Value.parts])).symm
  | .record r values => by
    rw [literal_record_each, literals_iff values, Value.IsFinite, Value.parts]
    simp only [List.mem_cons, Value.record.injEq, or_imp, forall_and]
    -- What the record itself has to meet, apart from what those inside it have to.
    constructor
    · rintro ⟨own, finite, inner⟩
      refine ⟨finite, ?_, inner⟩
      rintro _ _ ⟨rfl, rfl⟩
      exact own
    · rintro ⟨finite, own, inner⟩
      exact ⟨own r values ⟨rfl, rfl⟩, finite, inner⟩

theorem literals_iff : ∀ values : List Value, (∀ v ∈ values, ∃ t, names.literal v = .ok t) ↔
    Value.AreFinite values ∧ ∀ r inner, .record r inner ∈ Value.partsOf values → names.Takes r inner
  | [] => by simp [Value.AreFinite, Value.partsOf]
  | v :: values => by
    rw [List.forall_mem_cons, literal_iff v, literals_iff values, Value.AreFinite, Value.partsOf]
    simp only [List.mem_append, or_imp, forall_and]
    exact and_and_and_comm
end

end RecordNames

/-! ## Reading literals back -/

def RecordNames.recordOf? (names : RecordNames) (name : String) : Option RecordType :=
  (names.assigned.find? (·.2 == name)).map Prod.fst

namespace Form

def float? : Form → Option Single
  | number text => if text.getLast? = some 'f' then some (Single.read text.dropLast) else none
  | negate (number text) =>
    if text.getLast? = some 'f' then some (Single.read ('-' :: text.dropLast)) else none
  | _ => none

def scalar? (e : Form) : Option Value :=
  match e.word? { index := 0, buffers := [] } with
  | some w => some w.literal
  | none => e.float?.map .f32

def packed? (t : KernelType) (xs : List Single) : Option Value :=
  match t with
  | .vector 2 => (Vector2.ofList? xs).map .vector2
  | .vector 3 => (Vector3.ofList? xs).map .vector3
  | .vector 4 => (Vector4.ofList? xs).map .vector4
  | .matrix 4 4 => (Matrix4x4.ofList? xs).map .matrix4x4
  | .matrix 3 2 => (Matrix3x2.ofList? xs).map .matrix3x2
  | _ => none

mutual
def literal? (names : RecordNames) : Form → Option Value
  | name n => if n = "true" then some (.bool true) else if n = "false" then some (.bool false) else none
  | call callee args =>
    match names.recordOf? callee with
    | some r => (literals? names args).map (.record r)
    | none => (KernelType.builtin.find? (·.text == callee)).bind fun t =>
      if t = .i32 then (call callee args).scalar? else (args.mapM float?).bind (packed? t)
  | e => e.scalar?

def literals? (names : RecordNames) : List Form → Option (List Value)
  | [] => some []
  | e :: rest => do return (← e.literal? names) :: (← literals? names rest)
end

end Form

def readLiteral (names : RecordNames) (text : String) : Option Value :=
  (readExpression text).bind (Form.literal? names)

section Names

variable {names : RecordNames} (distinct : names.Distinct)
include distinct

theorem RecordNames.recordOf?_named {r : RecordType} {name : String} (named : names.get? r = some name) :
    names.recordOf? name = some r := by
  have assigned := mem_of_lookup named
  cases found : names.assigned.find? (·.2 == name) with
  | none => exact absurd (beq_self_eq_true name) (List.find?_eq_none.mp found _ assigned)
  | some other =>
    have same : other.2 = name := by simpa using List.find?_some found
    have held := List.mem_of_find?_eq_some found
    rw [RecordNames.recordOf?, found, List.inj_on_of_nodup_map distinct.nodup held assigned same]
    rfl

theorem RecordNames.recordOf?_builtin {t : KernelType} (builtin : t ∈ KernelType.builtin) :
    names.recordOf? t.text = none := by
  have others : ∀ t ∈ KernelType.builtin, isWord t.text = false ∨ isTaken t.text.toList = true := by
    decide
  rw [RecordNames.recordOf?, Option.map_eq_none_iff, List.find?_eq_none]
  intro named held same
  obtain ⟨word, free⟩ := distinct.free named.2 (List.mem_map_of_mem held)
  rw [beq_iff_eq.mp same] at word free
  rcases others t builtin with other | other
  · exact Bool.noConfusion (word.symm.trans other)
  · exact Bool.noConfusion (free.symm.trans other)

end Names

namespace Form

/-- A minus sign in front of a numeral is taken for an operator. -/
theorem signedForm_suffixed (text : List Char) (suffix : Char) (other : suffix ≠ '-') :
    (∃ rest, text = '-' :: rest ∧ signedForm (text ++ [suffix]) = .negate (.number (rest ++ [suffix]))) ∨
      signedForm (text ++ [suffix]) = .number (text ++ [suffix]) := by
  cases text with
  | nil => exact .inr (by simp [signedForm, other])
  | cons c rest =>
    by_cases dash : c = '-'
    · exact .inl ⟨rest, by rw [dash], by simp [signedForm, dash]⟩
    · exact .inr (by simp [signedForm, dash])

theorem float_form (x : Single) : (Literal.float x).form = signedForm (x.text.toList ++ ['f']) := by
  change signedForm (Literal.float x).text.toList = _
  simp [Literal.text]

theorem float?_float {x : Single} (finite : x.isFinite = true) :
    (Literal.float x).form.float? = some x := by
  -- The form has the sign as an operator, where the decimal has it as its first character.
  have read := Single.read_text finite
  rw [float_form]
  rcases signedForm_suffixed x.text.toList 'f' (by decide) with ⟨rest, text, form⟩ | form
  · rw [form, ← read, text]
    simp [float?]
  · rw [form]
    simp [float?, read]

theorem scalar?_float {x : Single} (finite : x.isFinite = true) :
    (Literal.float x).form.scalar? = some (.f32 x) := by
  have foreign (digits : List Char) : numeral? (digits ++ ['f']) = none := by simp [numeral?]
  have word : (Literal.float x).form.word? { index := 0, buffers := [] } = none := by
    rw [float_form]
    rcases signedForm_suffixed x.text.toList 'f' (by decide) with ⟨rest, _, form⟩ | form
    · rw [form, word?, word?_number, foreign]
      rfl
    · rw [form, word?_number, foreign]
  rw [scalar?, word, float?_float finite]
  rfl

theorem mapM_float? {xs : List Single} {ts : List Term} (found : floatLiterals xs = .ok ts) :
    (Term.formAll ts).mapM float? = some xs := by
  induction xs generalizing ts with
  | nil =>
    obtain rfl := Except.ok.inj found
    rfl
  | cons x xs ih =>
    obtain ⟨rest, finite, others, rfl⟩ := floatLiterals_cons_ok found
    rw [Term.formAll, List.mapM_cons, Term.form, float?_float finite, ih others]
    rfl

section Literals

variable {names : RecordNames}

theorem literal?_signedForm (text : List Char) :
    (signedForm text).literal? names = (signedForm text).scalar? := by
  unfold signedForm
  split <;> rfl

theorem literal?_float {x : Single} (finite : x.isFinite = true) :
    (Literal.float x).form.literal? names = some (.f32 x) := by
  rw [float_form, literal?_signedForm, ← float_form, scalar?_float finite]

theorem literal?_uint (n : UInt32) : (Literal.uint n).form.literal? names = some (.u32 n) := by
  have form : (Literal.uint n).form = signedForm (Literal.uint n).text.toList := rfl
  rw [form, literal?_signedForm, ← form, scalar?, word?_uint]
  rfl

/-- The least integer is written as a conversion, which no record has the name of. -/
theorem literal?_int (distinct : names.Distinct) (n : Int32) :
    (Literal.int n).form.literal? names = some (.i32 n) := by
  have scalar : (Literal.int n).form.scalar? = some (.i32 n) := by
    rw [scalar?, word?_int]
    rfl
  by_cases least : n.toInt = -2147483648
  · have form : (Literal.int n).form = .call "i32" [.negate (.number leastMagnitude)] := if_pos least
    have other : names.recordOf? "i32" = none :=
      RecordNames.recordOf?_builtin distinct (t := .i32) (by decide)
    have known : KernelType.builtin.find? (·.text == "i32") = some .i32 := by decide
    rw [form] at scalar ⊢
    simpa [literal?, other, known] using scalar
  · have form : (Literal.int n).form = signedForm (Literal.int n).text.toList := if_neg least
    rw [form, literal?_signedForm, ← form, scalar]

theorem literal?_packed (distinct : names.Distinct) {t : KernelType} (builtin : t ∈ KernelType.builtin) (other : t ≠ .i32)
    {xs : List Single} {ts : List Term} (found : floatLiterals xs = .ok ts) :
    (Term.call (.type t) ts).form.literal? names = packed? t xs := by
  have known : ∀ t ∈ KernelType.builtin, KernelType.builtin.find? (·.text == t.text) = some t := by
    decide
  have unnamed := RecordNames.recordOf?_builtin distinct builtin
  rw [Term.form, Callee.text, literal?, unnamed]
  simp [known t builtin, other, mapM_float? found]

mutual
theorem literal?_form (distinct : names.Distinct) : ∀ (v : Value) {t : Term}, names.literal v = .ok t → v.IsSingle →
    t.form.literal? names = some v
  | .bool b, _, found, _ => by
    obtain rfl := Except.ok.inj found
    cases b <;> rfl
  | .i32 n, _, found, _ => by
    obtain rfl := Except.ok.inj found
    exact literal?_int distinct n
  | .u32 n, _, found, _ => by
    obtain rfl := Except.ok.inj found
    exact literal?_uint n
  | .f32 x, _, found, _ => by
    obtain ⟨rfl, finite⟩ := floatLiteral_ok found
    exact literal?_float finite
  | .f64 x, _, _, single => absurd (by simp [Value.parts]) (single x)
  | .vector2 v, _, found, _ => by
    obtain ⟨ts, cells, rfl⟩ := RecordNames.literal_packed_ok rfl found
    exact literal?_packed distinct (by decide) (by decide) cells
  | .vector3 v, _, found, _ => by
    obtain ⟨ts, cells, rfl⟩ := RecordNames.literal_packed_ok rfl found
    exact literal?_packed distinct (by decide) (by decide) cells
  | .vector4 v, _, found, _ => by
    obtain ⟨ts, cells, rfl⟩ := RecordNames.literal_packed_ok rfl found
    exact literal?_packed distinct (by decide) (by decide) cells
  | .matrix4x4 m, _, found, _ => by
    obtain ⟨ts, cells, rfl⟩ := RecordNames.literal_packed_ok rfl found
    exact literal?_packed distinct (by decide) (by decide) cells
  | .matrix3x2 m, _, found, _ => by
    obtain ⟨ts, cells, rfl⟩ := RecordNames.literal_packed_ok rfl found
    exact literal?_packed distinct (by decide) (by decide) cells
  | .record r values, _, found, single => by
    obtain ⟨counted, args, name, inner, named, rfl⟩ := RecordNames.literal_record_ok found
    have values := literals?_formAll distinct values counted inner
      fun x member => single x (List.mem_cons_of_mem _ member)
    rw [Term.form, Callee.text, KernelType.text, literal?, RecordNames.recordOf?_named distinct named,
      values]
    rfl

theorem literals?_formAll (distinct : names.Distinct) : ∀ (values : List Value) {node : String}
    {fields : List (String × ElementType)} {ts : List Term}, values.length = fields.length →
    RecordNames.fieldLiterals names node fields values = .ok ts →
    (∀ x, .f64 x ∉ Value.partsOf values) → literals? names (Term.formAll ts) = some values
  | [], _, _, _, _, found, _ => by
    obtain rfl := Except.ok.inj found
    rfl
  | v :: values, _, [], _, counted, _, _ => absurd counted (by simp)
  | v :: values, _, (field, u) :: fields, _, counted, found, single => by
    obtain ⟨_, t, rest, first, others, rfl⟩ := RecordNames.fieldLiterals_cons_ok found
    have own := literal?_form distinct v first fun x member => single x (List.mem_append_left _ member)
    have more := literals?_formAll distinct values (Nat.succ.inj counted) others
      fun x member => single x (List.mem_append_right _ member)
    rw [Term.formAll, literals?, own, more]
    rfl
end

end Literals

end Form

theorem readLiteral_text {names : RecordNames} (distinct : names.Distinct) {v : Value} {t : Term}
    (found : names.literal v = .ok t) (single : v.IsSingle) : readLiteral names t.text = some v := by
  have readable := RecordNames.literal_readable distinct v t found
  rw [readLiteral, Term.readExpression_text readable]
  exact Form.literal?_form distinct v found single

theorem RecordNames.reached_named {rs : List RecordType} {r : RecordType} (asked : r ∈ rs) :
    ∃ name, (reached rs).get? r = some name := by
  rw [← calls_records {} rs] at asked
  obtain ⟨⟨_, name⟩, given, rfl⟩ := List.mem_map.mp asked
  exact ⟨name, (get_reached rs _ name).mpr given⟩

/-- Under the names that any calls give, a value has a literal exactly if its numbers are finite in single
precision and each record inside it, at any depth, has one value for each field, no truth value as a
field, and a name. Two values without doubles that have one text are one value, bit by bit; and integers
are read back as the same number, signed or unsigned, the least one included. -/
theorem literal_determined (rs : List RecordType) :
    let names := RecordNames.reached rs
    (∀ v, (∃ t, names.literal v = .ok t) ↔
      v.IsFinite ∧ ∀ r values, .record r values ∈ v.parts → names.Takes r values) ∧
    (∀ v w t u, names.literal v = .ok t → names.literal w = .ok u → v.IsSingle → w.IsSingle →
      t.text = u.text → v = w) ∧
    (∀ s (n : Int32), ∃ t, names.literal (.i32 n) = .ok t ∧
      (readExpression t.text).bind (Form.word? s) = some (.signed n)) ∧
    ∀ s (n : UInt32), ∃ t, names.literal (.u32 n) = .ok t ∧
      (readExpression t.text).bind (Form.word? s) = some (.unsigned n) := by
  intro names
  have distinct := RecordNames.reached_distinct rs
  refine ⟨RecordNames.literal_iff, fun v w t u first second single single' same => ?_,
    fun s n => ⟨_, rfl, ?_⟩, fun s n => ⟨_, rfl, ?_⟩⟩
  · have read := readLiteral_text distinct first single
    rw [same, readLiteral_text distinct second single'] at read
    exact (Option.some.inj read).symm
  · have readable : (Term.literal (.int n)).IsReadable := trivial
    rw [Term.readExpression_text readable]
    exact word?_int s n
  · have readable : (Term.literal (.uint n)).IsReadable := trivial
    rw [Term.readExpression_text readable]
    exact word?_uint s n

/-- A record of two records, which hold the least integer and the negative zero. -/
def spanLiteral : Value :=
  let pair : RecordType := ⟨"pair", [("a", .i32), ("b", .leaf .vector2)]⟩
  let span : RecordType := ⟨"span", [("first", pair.type), ("last", pair.type)]⟩
  .record span [.record pair [.i32 (-2147483648), .vector2 ⟨Single.negativeZero, Single.one⟩],
    .record pair [.i32 7, .vector2 ⟨Single.zero, Single.one⟩]]

theorem literal_determined_span :
    let pair : RecordType := ⟨"pair", [("a", .i32), ("b", .leaf .vector2)]⟩
    let span : RecordType := ⟨"span", [("first", pair.type), ("last", pair.type)]⟩
    let names := RecordNames.reached [pair, span]
    ∃ t, names.literal spanLiteral = .ok t ∧
      ∀ w u, names.literal w = .ok u → w.IsSingle → u.text = t.text → w = spanLiteral := by
  intro pair span names
  obtain ⟨accepts, determined, _⟩ := literal_determined [pair, span]
  have finite : spanLiteral.IsFinite := by
    simp [spanLiteral, Value.IsFinite, Value.AreFinite, Vector2.toList]
    decide
  have takes : ∀ r values, .record r values ∈ spanLiteral.parts → names.Takes r values := by
    intro r values inside
    simp only [spanLiteral, Value.parts, Value.partsOf, List.mem_cons, List.mem_append, reduceCtorEq,
      Value.record.injEq, List.not_mem_nil, or_false, List.append_nil] at inside
    rcases inside with ⟨rfl, rfl⟩ | ⟨rfl, rfl⟩ | ⟨rfl, rfl⟩
    · exact ⟨rfl, by decide, RecordNames.reached_named (by decide)⟩
    · exact ⟨rfl, by decide, RecordNames.reached_named (by decide)⟩
    · exact ⟨rfl, by decide, RecordNames.reached_named (by decide)⟩
  have single : spanLiteral.IsSingle := by
    simp [Value.IsSingle, spanLiteral, Value.parts, Value.partsOf]
  obtain ⟨t, found⟩ := (accepts spanLiteral).mpr ⟨finite, takes⟩
  exact ⟨t, found, fun w u spelled alone same => determined w _ u t spelled found alone single same⟩

end Kernel
end ArrayQuery
