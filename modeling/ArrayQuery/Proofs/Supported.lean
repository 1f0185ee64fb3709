import ArrayQuery.Proofs.SharedQueries
import ArrayQuery.Proofs.Structs

/-! The queries that there are kernels for, and what can be spelled of their types and values. -/

set_option autoImplicit false
namespace ArrayQuery

namespace ElementType

/-- Whether the records in a type can be declared. Types without records need no declaration, even if
kernels have no values of them. -/
def IsDeclarable : ElementType → Prop
  | .leaf _ => True
  | .record name fields => (record name fields).IsSpellable

instance : DecidablePred IsDeclarable
  | .leaf _ => .isTrue trivial
  | .record name fields => inferInstanceAs (Decidable (record name fields).IsSpellable)

theorem IsSpellable.declarable {t : ElementType} (spellable : t.IsSpellable) : t.IsDeclarable := by
  cases t with
  | leaf l => trivial
  | record name fields => exact spellable

def IsConvertible (t : ElementType) : Prop :=
  t = .bool ∨ t = .i32 ∨ t = .u32 ∨ t = .f32

def IsSigned (t : ElementType) : Prop :=
  t = .i32 ∨ t = .f32 ∨ t.isVector = true ∨ t.isMatrix = true

def next? (container : ElementType) (member : String) : Option ElementType :=
  (container.member? member).filter fun t => t.IsDeclarable

end ElementType

namespace Value

mutual
def IsFinite : Value → Prop
  | bool _ | i32 _ | u32 _ => True
  | f32 x => x.isFinite = true
  | f64 x => x.toSingle.isFinite = true
  | vector2 v => ∀ x ∈ v.toList, x.isFinite = true
  | vector3 v => ∀ x ∈ v.toList, x.isFinite = true
  | vector4 v => ∀ x ∈ v.toList, x.isFinite = true
  | matrix4x4 m => ∀ x ∈ m.toList, x.isFinite = true
  | matrix3x2 m => ∀ x ∈ m.toList, x.isFinite = true
  | record _ values => AreFinite values

def AreFinite : List Value → Prop
  | [] => True
  | v :: rest => v.IsFinite ∧ AreFinite rest
end

theorem AreFormed.length {fields : List (String × ElementType)} {values : List Value}
    (formed : AreFormed fields values) : values.length = fields.length := by
  induction values generalizing fields with
  | nil =>
    obtain rfl : fields = [] := formed
    rfl
  | cons v rest ih =>
    cases fields with
    | nil => exact formed.elim
    | cons field fields => exact congrArg (· + 1) (ih formed.2.2)

end Value

namespace Expr

def reached? : Expr → Option ElementType
  | member target name _ => target.reached?.bind fun t => t.next? name
  | e => some e.type

mutual
/-- Whether kernels have all that a body is made of, where the lambda has parameters of such names. The
body may be the argument of a primitive that declares a type for it, with which it is spelled if it is
a conversion. -/
def IsSupported (names : List String) (declared : Option ElementType) : Expr → Prop
  | constant v => v.IsFinite ∧ v.type.IsDeclarable
  | parameter p => p.name ∈ names
  | binary op l r _ => Kernel.isOperatorDefined op l.type r.type = true ∧
    l.IsSupported names none ∧ r.IsSupported names none
  | negate e _ => e.type.IsSigned ∧ e.IsSupported names none
  | convert _ e t => (((wrapped? t e).or declared).getD t).IsConvertible ∧ e.IsSupported names none
  | member target name _ => (target.reached?.bind fun t => t.next? name).isSome = true ∧
    target.IsSupported names none
  | index a i _ => (∃ source, a = array source ∧ source.data.element.IsSpellable) ∧
    i.IsSupported names none
  | construct r args => args.length = r.fields.length ∧ r.type.IsSpellable ∧
    AreSupported names [] args
  | call fn args _ => args.length = fn.arity ∧ AreSupported names fn.parameters args
  | select .. | zip .. | array _ => False

def AreSupported (names : List String) (declared : List ElementType) : List Expr → Prop
  | [] => True
  | e :: rest => e.IsSupported names declared.head? ∧ AreSupported names declared.tail rest
end

mutual
def IsFormed : Expr → Prop
  | constant v => v.IsFormed
  | binary _ l r _ => l.IsFormed ∧ r.IsFormed
  | negate e _ | convert _ e _ | member e _ _ | index _ e _ => e.IsFormed
  | construct _ args | call _ args _ => AreFormed args
  | _ => True

def AreFormed : List Expr → Prop
  | [] => True
  | e :: rest => e.IsFormed ∧ AreFormed rest
end

def IsChain : Expr → Prop
  | array _ => True
  | select _ source _ _ => source.IsChain
  | zip _ first second _ _ => first.IsChain ∧ second.IsChain
  | _ => False

def parameters : Expr → List Parameter
  | select _ _ params _ | zip _ _ _ params _ => params
  | _ => []

/-- Whether an operator is supported: its lambda has a parameter for each source, and kernels have what
its body is made of and values of its type. -/
structure IsSupportedOperator (q : Expr) : Prop where
  counted : q.parameters.length = q.operands.length
  type : q.type.IsSpellable
  body : ∀ body, q.body? = some body → body.IsSupported (q.parameters.map Parameter.name) none

structure IsSupportedChain (node : Expr) (count : Nat) : Prop where
  chain : node.IsChain
  counts : ∀ a ∈ node.sources, a.data.count = count
  elements : ∀ a ∈ node.sources, a.data.element.IsSpellable
  operators : ∀ q ∈ node.queries, q.IsSupportedOperator

def IsSupportedQuery (root : Expr) : Prop :=
  root.isQuery = true ∧ ∃ count, root.IsSupportedChain count

def HasFormed (root : Expr) : Prop :=
  ∀ body ∈ root.lambdas, body.IsFormed

end Expr

namespace Kernel

/-! ## Names of records -/

namespace RecordNames

variable {names : RecordNames}

def Covers (names : RecordNames) (t : ElementType) : Prop :=
  ∀ r : RecordType, t = r.type → ∃ name, names.get? r = some name

theorem covers_leaf (l : Leaf) : names.Covers (.leaf l) :=
  fun _ same => nomatch same

theorem covers_record {r : RecordType} {name : String} (found : names.get? r = some name) :
    names.Covers r.type := by
  intro s same
  obtain ⟨named, fields⟩ := ElementType.record.inj same
  refine ⟨name, ?_⟩
  rwa [show s = r by rw [RecordType.mk.injEq]; exact ⟨named.symm, fields.symm⟩]

theorem ofLeaf_accepts (l : Leaf) : (∃ k, ofLeaf l = some k) ↔ l ≠ .f64 := by
  cases l <;> simp [ofLeaf]

/-- The types that can be spelled are those that are spellable, once records have names. -/
theorem Arranged.typeOf_accepts (arranged : names.Arranged) {t : ElementType}
    (covered : names.Covers t) : (∃ k, names.typeOf t = .ok k) ↔ t.IsSpellable := by
  constructor
  · rintro ⟨k, found⟩
    exact arranged.typeOf found
  · intro spellable
    cases t with
    | leaf l =>
      obtain ⟨k, known⟩ := (ofLeaf_accepts l).mpr spellable
      exact ⟨k, typeOf_leaf_ok.mpr known⟩
    | record n fields =>
      obtain ⟨name, known⟩ := covered ⟨n, fields⟩ rfl
      exact ⟨.struct name, typeOf_record_ok.mpr ⟨name, known, rfl⟩⟩

theorem Arranged.storageOf (arranged : names.Arranged) {t : ElementType} {k : KernelType}
    (found : names.storageOf t = .ok k) : t.IsSpellable := by
  unfold RecordNames.storageOf at found
  split at found
  · next truth =>
    rw [truth]
    exact nofun
  · exact arranged.typeOf found

theorem Arranged.storageOf_accepts (arranged : names.Arranged) {t : ElementType}
    (covered : names.Covers t) : (∃ k, names.storageOf t = .ok k) ↔ t.IsSpellable := by
  refine ⟨fun ⟨_, found⟩ => arranged.storageOf found, fun spellable => ?_⟩
  unfold RecordNames.storageOf
  split
  · exact ⟨.u32, rfl⟩
  · exact (arranged.typeOf_accepts covered).mpr spellable

theorem Arranged.covers (arranged : names.Arranged) {r : RecordType} {name : String}
    (found : names.get? r = some name) : ∀ field ∈ r.fields, names.Covers field.2 := by
  rintro field member s same
  obtain ⟨j, place⟩ := List.getElem?_of_mem (get_assigned found)
  obtain ⟨i, _, inner⟩ := arranged.inside j r (by rw [place]; rfl) field member s same
  obtain ⟨named, place', rfl⟩ := Option.map_eq_some_iff.mp inner
  cases known : names.get? named.1 with
  | some other => exact ⟨other, rfl⟩
  | none => exact absurd (List.mem_map_of_mem (List.mem_of_getElem? place')) (get_none known)

end RecordNames

theorem floatLiteral_accepts (x : Single) : (∃ t, floatLiteral x = .ok t) ↔ x.isFinite = true := by
  unfold floatLiteral
  by_cases finite : x.isFinite = true <;> simp [finite]

theorem floatLiterals_accepts (xs : List Single) :
    (∃ ts, floatLiterals xs = .ok ts) ↔ ∀ x ∈ xs, x.isFinite = true := by
  induction xs with
  | nil => simp [floatLiterals]
  | cons x xs ih =>
    rw [List.forall_mem_cons, ← ih, ← floatLiteral_accepts]
    constructor
    · rintro ⟨ts, found⟩
      obtain ⟨t, first, more⟩ := except_bind_ok.mp found
      obtain ⟨rest, others, _⟩ := except_bind_ok.mp more
      exact ⟨⟨t, first⟩, rest, others⟩
    · rintro ⟨⟨t, first⟩, rest, others⟩
      exact ⟨t :: rest, except_bind_ok.mpr ⟨t, first, except_bind_ok.mpr ⟨rest, others, rfl⟩⟩⟩

namespace RecordNames

theorem packed_accepts (k : KernelType) (xs : List Single) :
    (∃ t, (do return .call (.type k) (← floatLiterals xs) : Except ComputeError Term) = .ok t) ↔
      ∀ x ∈ xs, x.isFinite = true := by
  rw [← floatLiterals_accepts]
  constructor
  · rintro ⟨t, found⟩
    obtain ⟨ts, cells, _⟩ := except_bind_ok.mp found
    exact ⟨ts, cells⟩
  · rintro ⟨ts, cells⟩
    exact ⟨_, except_bind_ok.mpr ⟨ts, cells, rfl⟩⟩

/-- Whether a record of some values can be spelled, if the values can: there is one for each field, no
field is a truth value, and the record has a name. -/
structure Takes (names : RecordNames) (r : RecordType) (values : List Value) : Prop where
  counted : values.length = r.fields.length
  plain : ∀ field ∈ r.fields, field.2 ≠ .bool
  named : ∃ name, names.get? r = some name

theorem fieldLiterals_each {names : RecordNames} (node : String) {values : List Value}
    {fields : List (String × ElementType)} (counted : values.length = fields.length) :
    (∃ ts, fieldLiterals names node fields values = .ok ts) ↔
      (∀ field ∈ fields, field.2 ≠ .bool) ∧ ∀ v ∈ values, ∃ t, names.literal v = .ok t := by
  induction values generalizing fields with
  | nil =>
    obtain rfl := List.length_eq_zero_iff.mp counted.symm
    simp [fieldLiterals]
  | cons v values ih =>
    cases fields with
    | nil => simp at counted
    | cons field fields =>
      rw [List.forall_mem_cons, List.forall_mem_cons]
      have rest := ih (Nat.succ.inj counted)
      constructor
      · rintro ⟨ts, found⟩
        obtain ⟨plain, t, others, first, more, _⟩ := fieldLiterals_cons_ok found
        obtain ⟨plains, each⟩ := rest.mp ⟨others, more⟩
        exact ⟨⟨plain, plains⟩, ⟨t, first⟩, each⟩
      · rintro ⟨⟨plain, plains⟩, ⟨t, first⟩, each⟩
        obtain ⟨ts, more⟩ := rest.mpr ⟨plains, each⟩
        refine ⟨t :: ts, ?_⟩
        unfold fieldLiterals
        dsimp only
        rw [if_neg plain]
        exact except_bind_ok.mpr ⟨t, first, except_bind_ok.mpr ⟨ts, more, rfl⟩⟩

theorem literal_record_each {names : RecordNames} (r : RecordType) (values : List Value) :
    (∃ t, names.literal (.record r values) = .ok t) ↔
      names.Takes r values ∧ ∀ v ∈ values, ∃ t, names.literal v = .ok t := by
  constructor
  · rintro ⟨t, found⟩
    obtain ⟨counted, args, name, inner, named, _⟩ := literal_record_ok found
    obtain ⟨plain, each⟩ := (fieldLiterals_each _ counted).mp ⟨args, inner⟩
    exact ⟨⟨counted, plain, name, named⟩, each⟩
  · rintro ⟨⟨counted, plain, name, named⟩, each⟩
    obtain ⟨args, inner⟩ := (fieldLiterals_each (Value.record r values).spell counted).mpr ⟨plain, each⟩
    refine ⟨.call (.type (.struct name)) args, ?_⟩
    unfold literal
    dsimp only
    rw [if_neg (not_not_intro counted), inner]
    exact except_bind_ok.mpr ⟨args, rfl, except_bind_ok.mpr ⟨name, require_ok.mpr named, rfl⟩⟩

mutual
-- A record with a name is spellable, so that no field is a truth value, and its fields have names.
theorem literal_accepts {names : RecordNames} (arranged : names.Arranged) : ∀ v : Value, v.IsFormed →
    names.Covers v.type → ((∃ t, names.literal v = .ok t) ↔ v.IsFinite)
  | .bool _, _, _ | .i32 _, _, _ | .u32 _, _, _ => by simp [literal, Value.IsFinite]
  | .f32 x, _, _ => floatLiteral_accepts x
  | .f64 x, _, _ => floatLiteral_accepts x.toSingle
  | .vector2 v, _, _ => packed_accepts _ v.toList
  | .vector3 v, _, _ => packed_accepts _ v.toList
  | .vector4 v, _, _ => packed_accepts _ v.toList
  | .matrix4x4 m, _, _ => packed_accepts _ m.toList
  | .matrix3x2 m, _, _ => packed_accepts _ m.toList
  | .record r values, formed, covered => by
    obtain ⟨name, known⟩ := covered r rfl
    have spellable := arranged.spellable _ (get_assigned known)
    have plain : ∀ field ∈ r.fields, field.2 ≠ .bool := fun field member =>
      ((ElementType.isSpellable_record r.name r.fields).mp spellable field member).1
    have takes : names.Takes r values := ⟨Value.AreFormed.length formed, plain, name, known⟩
    change _ ↔ Value.AreFinite values
    rw [literal_record_each, and_iff_right takes]
    exact literals_accept arranged values formed (arranged.covers known)

theorem literals_accept {names : RecordNames} (arranged : names.Arranged) :
    ∀ (values : List Value) {fields : List (String × ElementType)}, Value.AreFormed fields values →
    (∀ field ∈ fields, names.Covers field.2) →
    ((∀ v ∈ values, ∃ t, names.literal v = .ok t) ↔ Value.AreFinite values)
  | [], _, _, _ => by simp [Value.AreFinite]
  | _ :: _, [], formed, _ => formed.elim
  | v :: values, (_, _) :: _, formed, covered => by
    obtain ⟨type, own, others⟩ := formed
    obtain ⟨covered, covered'⟩ := List.forall_mem_cons.mp covered
    have first := literal_accepts arranged v own (type ▸ covered)
    have rest := literals_accept arranged values others covered'
    rw [List.forall_mem_cons, Value.AreFinite, first, rest]
end

end RecordNames

end Kernel
end ArrayQuery
