import ArrayQuery.Proofs.Bodies
import ArrayQuery.Proofs.Growth
import ArrayQuery.Proofs.Names

/-! Translations can be read: the only texts that cannot are those with a minus sign right in front of a
literal that starts with one. -/

set_option autoImplicit false
namespace ArrayQuery

def Value.isNegative : Value → Bool
  | .i32 n => decide (n.toInt < 0)
  | .f32 x => match x.datum with
    | .finite negative _ _ => negative
    | _ => false
  | _ => false

namespace Expr

def isNegativeLiteral : Expr → Bool
  | constant v => v.isNegative
  | _ => false

mutual
/-- Whether no opposite is taken of a negative literal. -/
def SignsApart : Expr → Prop
  | negate e _ => e.isNegativeLiteral = false ∧ e.SignsApart
  | binary _ l r _ => l.SignsApart ∧ r.SignsApart
  | convert _ e _ | member e _ _ | index _ e _ => e.SignsApart
  | construct _ args | call _ args _ => SignsApartAll args
  | _ => True

def SignsApartAll : List Expr → Prop
  | [] => True
  | e :: rest => e.SignsApart ∧ SignsApartAll rest
end

end Expr

namespace Kernel

open Compile

theorem declare_distinct (node : Expr) (t : ElementType) :
    Keeps (fun d e => d.records.Distinct → e.records.Distinct) (declare node t) := by
  refine declare_keeps (stable_invariant _) (fun r fields d _ e run distinct => ?_) node t
  obtain rfl := modify_ok.mp run
  exact RecordNames.assign_distinct distinct r

theorem distinct_kept : Kept (fun d e => d.records.Distinct → e.records.Distinct)
    (fun _ => True) fun _ => True where
  toStable := stable_invariant _
  declared := declare_distinct
  bound node a _ := bindArray_keeps (stable_invariant _) declare_distinct (fun _ _ => id) node a
  overridden tag t _ := by
    intro d _ e run distinct
    obtain rfl := modify_ok.mp run
    exact distinct

theorem translate_distinct {scope : Scope} {body : Expr} {d e : Draft} {term : Term}
    (run : translate scope body d = .ok (term, e)) : d.records.Distinct → e.records.Distinct :=
  translate_keeps distinct_kept scope body (fun _ _ => trivial) (fun _ _ => trivial) d term e run

theorem RecordNames.require_ok {names : RecordNames} {r : RecordType} {name : String} :
    names.require r = .ok name ↔ names.get? r = some name := by
  unfold require
  cases names.get? r <;> simp

theorem RecordNames.get_mem {names : RecordNames} {r : RecordType} {name : String}
    (found : names.get? r = some name) : name ∈ names.taken := by
  obtain ⟨before, after, split, _⟩ := List.lookup_eq_some_iff.mp found
  simp [taken, split]

theorem RecordNames.typeOf_leaf_ok {names : RecordNames} {l : Leaf} {k : KernelType} :
    names.typeOf (.leaf l) = .ok k ↔ ofLeaf l = some k := by
  simp only [typeOf]
  cases ofLeaf l <;> simp

theorem RecordNames.typeOf_record_ok {names : RecordNames} {n : String}
    {fields : List (String × ElementType)} {k : KernelType} :
    names.typeOf (.record n fields) = .ok k ↔
      ∃ name, names.get? ⟨n, fields⟩ = some name ∧ k = .struct name := by
  simp only [typeOf, require]
  cases names.get? ⟨n, fields⟩ <;> simp [Except.map, eq_comm]

theorem ofLeaf_readable {l : Leaf} {k : KernelType} (found : ofLeaf l = some k) :
    k.IsReadable := by
  cases l <;> simp only [ofLeaf, Option.some.injEq, reduceCtorEq] at found <;> subst found <;>
    trivial

theorem RecordNames.typeOf_readable {names : RecordNames} (distinct : names.Distinct)
    {t : ElementType} {k : KernelType} (found : names.typeOf t = .ok k) : k.IsReadable := by
  cases t with
  | leaf l => exact ofLeaf_readable (typeOf_leaf_ok.mp found)
  | record n fields =>
    obtain ⟨name, known, rfl⟩ := typeOf_record_ok.mp found
    exact (distinct.free name (get_mem known)).1

theorem floatLiteral_ok {x : Single} {t : Term} (found : floatLiteral x = .ok t) :
    t = .literal (.float x) ∧ x.isFinite = true := by
  unfold floatLiteral at found
  split at found
  · next finite => exact ⟨(Except.ok.inj found).symm, finite⟩
  · exact nomatch found

theorem floatLiterals_cons_ok {x : Single} {xs : List Single} {ts : List Term}
    (found : floatLiterals (x :: xs) = .ok ts) :
    ∃ rest, x.isFinite = true ∧ floatLiterals xs = .ok rest ∧
      ts = .literal (.float x) :: rest := by
  unfold floatLiterals at found
  obtain ⟨t, first, more⟩ := except_bind_ok.mp found
  obtain ⟨rest, others, last⟩ := except_bind_ok.mp more
  obtain rfl := Except.ok.inj last
  obtain ⟨rfl, finite⟩ := floatLiteral_ok first
  exact ⟨rest, finite, others, rfl⟩

theorem floatLiterals_readable {xs : List Single} {ts : List Term}
    (found : floatLiterals xs = .ok ts) : Term.AreReadable ts := by
  induction xs generalizing ts with
  | nil =>
    obtain rfl := Except.ok.inj found
    trivial
  | cons x xs ih =>
    obtain ⟨rest, finite, others, rfl⟩ := floatLiterals_cons_ok found
    exact ⟨finite, ih others⟩

namespace RecordNames

theorem literal_packed_ok {names : RecordNames} {v : Value} {k : KernelType} {xs : List Single}
    {t : Term} (packed : names.literal v = do
      return .call (.type k) (← floatLiterals xs)) (found : names.literal v = .ok t) :
    ∃ ts, floatLiterals xs = .ok ts ∧ t = .call (.type k) ts := by
  rw [packed] at found
  obtain ⟨ts, cells, last⟩ := except_bind_ok.mp found
  exact ⟨ts, cells, (Except.ok.inj last).symm⟩

theorem literal_record_ok {names : RecordNames} {r : RecordType} {values : List Value} {t : Term}
    (found : names.literal (.record r values) = .ok t) :
    values.length = r.fields.length ∧ ∃ args name,
      fieldLiterals names (Value.record r values).spell r.fields values = .ok args ∧
      names.get? r = some name ∧ t = .call (.type (.struct name)) args := by
  unfold literal at found
  dsimp only at found
  split at found
  · exact nomatch found
  · next counted =>
    obtain ⟨args, fields, more⟩ := except_bind_ok.mp found
    obtain ⟨name, named, last⟩ := except_bind_ok.mp more
    exact ⟨Decidable.not_not.mp counted, args, name, fields, require_ok.mp named,
      (Except.ok.inj last).symm⟩

theorem fieldLiterals_cons_ok {names : RecordNames} {node field : String} {u : ElementType}
    {fields : List (String × ElementType)} {v : Value} {values : List Value} {ts : List Term}
    (found : fieldLiterals names node ((field, u) :: fields) (v :: values) = .ok ts) :
    u ≠ .bool ∧ ∃ t rest, names.literal v = .ok t ∧
      fieldLiterals names node fields values = .ok rest ∧ ts = t :: rest := by
  unfold fieldLiterals at found
  dsimp only at found
  split at found
  · exact nomatch found
  · next other =>
    obtain ⟨t, first, more⟩ := except_bind_ok.mp found
    obtain ⟨rest, others, last⟩ := except_bind_ok.mp more
    exact ⟨other, t, rest, first, others, (Except.ok.inj last).symm⟩

mutual
theorem literal_readable {names : RecordNames} (distinct : names.Distinct) :
    ∀ (v : Value) (t : Term), names.literal v = .ok t → t.IsReadable
  | .bool b, t, found => by
    obtain rfl := Except.ok.inj found
    trivial
  | .i32 n, t, found => by
    obtain rfl := Except.ok.inj found
    trivial
  | .u32 n, t, found => by
    obtain rfl := Except.ok.inj found
    trivial
  | .f32 x, t, found => by
    obtain ⟨rfl, finite⟩ := floatLiteral_ok found
    exact finite
  | .f64 x, t, found => by
    obtain ⟨rfl, finite⟩ := floatLiteral_ok found
    exact finite
  | .vector2 v, t, found => by
    obtain ⟨ts, cells, rfl⟩ := literal_packed_ok rfl found
    exact ⟨trivial, floatLiterals_readable cells⟩
  | .vector3 v, t, found => by
    obtain ⟨ts, cells, rfl⟩ := literal_packed_ok rfl found
    exact ⟨trivial, floatLiterals_readable cells⟩
  | .vector4 v, t, found => by
    obtain ⟨ts, cells, rfl⟩ := literal_packed_ok rfl found
    exact ⟨trivial, floatLiterals_readable cells⟩
  | .matrix4x4 m, t, found => by
    obtain ⟨ts, cells, rfl⟩ := literal_packed_ok rfl found
    exact ⟨trivial, floatLiterals_readable cells⟩
  | .matrix3x2 m, t, found => by
    obtain ⟨ts, cells, rfl⟩ := literal_packed_ok rfl found
    exact ⟨trivial, floatLiterals_readable cells⟩
  | .record r values, t, found => by
    obtain ⟨_, args, name, fields, known, rfl⟩ := literal_record_ok found
    exact ⟨(distinct.free name (get_mem known)).1,
      fieldLiterals_readable distinct values _ _ args fields⟩

theorem fieldLiterals_readable {names : RecordNames} (distinct : names.Distinct) :
    ∀ (values : List Value) (node : String) (fields : List (String × ElementType))
      (ts : List Term), fieldLiterals names node fields values = .ok ts → Term.AreReadable ts
  | [], _, _, ts, found => by
    obtain rfl := Except.ok.inj found
    trivial
  | _ :: _, _, [], ts, found => by
    obtain rfl := Except.ok.inj found
    trivial
  | v :: values, node, (field, u) :: fields, ts, found => by
    obtain ⟨_, t, rest, first, others, rfl⟩ := fieldLiterals_cons_ok found
    exact ⟨literal_readable distinct v t first,
      fieldLiterals_readable distinct values node fields rest others⟩
end

end RecordNames

/-! ## Signs -/

theorem numeral_unsigned {text : List Char} (numeral : IsNumeral text) :
    (text.head? == some '-') = false := by
  obtain ⟨c, rest, rfl, digit, _⟩ := numeral
  rw [beq_eq_false_iff_ne]
  rintro same
  obtain rfl := Option.some.inj same
  exact absurd digit (by decide)

theorem int_unsigned {n : Int32} (positive : 0 ≤ n.toInt) : (Literal.int n).isSigned = false := by
  have text : (Literal.int n).text.toList = (toString n.toInt.toNat).toList ++ ['i'] := by
    have other : n.toInt ≠ -2147483648 := by omega
    simp only [Literal.text, other, if_false, String.toList_append, Int.toString_eq_repr,
      Int.repr_eq_if, positive, if_true, Nat.toString_eq_repr]
    rfl
  rw [Literal.isSigned, text, Nat.toString_eq_repr, Nat.toList_repr]
  exact numeral_unsigned (isNumeral_whole _ Nat.toDigits_ne_nil (Decimal.all_isDigit_toDigits _)
    (.inl rfl))

theorem float_unsigned {x : Single} (finite : x.isFinite = true)
    (positive : (Value.f32 x).isNegative = false) : (Literal.float x).isSigned = false := by
  obtain ⟨negative, significand, exponent, datum⟩ := Single.exists_datum finite
  simp only [Value.isNegative, datum] at positive
  subst positive
  have numeral : IsNumeral (x.text.toList ++ ['f']) := by
    unfold Single.text
    simp only [datum, Decimal.writeDatum, Bool.false_eq_true, if_false, String.empty_append]
    exact (Decimal.magnitude_written _ _ significand exponent).numeral
  simpa [Literal.isSigned, Literal.text] using numeral_unsigned numeral

theorem operand_term (o : Operand) : o.term.IsReadable ∧ o.term.isSigned = false := by
  unfold Operand.term
  split
  · exact ⟨trivial, rfl⟩
  · split <;> exact ⟨trivial, rfl⟩

/-- What an opposite can be taken of is no signed literal, unless it is a negative one. -/
theorem translate_unsigned {scope : Scope} {e : Expr} {d f : Draft} {t : Term}
    (run : translate scope e d = .ok (t, f)) (positive : e.isNegativeLiteral = false)
    (single : ∀ x, e ≠ .constant (.f64 x)) : t.isSigned = false := by
  cases e with
  | constant v =>
    obtain ⟨_, found⟩ := translate_constant_ok run
    cases v with
    | bool b =>
      obtain rfl := Except.ok.inj found
      cases b <;> decide
    | i32 n =>
      obtain rfl := Except.ok.inj found
      -- The literal has the sign of the value, which is not negative.
      simp only [Expr.isNegativeLiteral, Value.isNegative, decide_eq_false_iff_not] at positive
      exact int_unsigned (by omega)
    | u32 n =>
      obtain rfl := Except.ok.inj found
      simpa [Term.isSigned, Literal.isSigned, Literal.text] using numeral_unsigned (nat_isNumeral _)
    | f32 x =>
      obtain ⟨rfl, finite⟩ := floatLiteral_ok found
      exact float_unsigned finite positive
    | f64 x => exact absurd rfl (single x)
    | vector2 v =>
      obtain ⟨_, _, rfl⟩ := RecordNames.literal_packed_ok rfl found
      rfl
    | vector3 v =>
      obtain ⟨_, _, rfl⟩ := RecordNames.literal_packed_ok rfl found
      rfl
    | vector4 v =>
      obtain ⟨_, _, rfl⟩ := RecordNames.literal_packed_ok rfl found
      rfl
    | matrix4x4 m =>
      obtain ⟨_, _, rfl⟩ := RecordNames.literal_packed_ok rfl found
      rfl
    | matrix3x2 m =>
      obtain ⟨_, _, rfl⟩ := RecordNames.literal_packed_ok rfl found
      rfl
    | record r values =>
      obtain ⟨_, _, _, _, _, rfl⟩ := RecordNames.literal_record_ok found
      rfl
  | parameter p =>
    obtain ⟨operand, _, rfl, _⟩ := translate_parameter_ok run
    exact (operand_term operand).2
  | binary op l r u =>
    obtain ⟨_, _, _, _, rfl, _⟩ := translate_binary_ok run
    rfl
  | negate e u =>
    obtain ⟨_, _, ⟨_, rfl⟩ | ⟨_, rfl⟩⟩ := translate_negate_ok run <;> rfl
  | convert tag e u =>
    obtain ⟨_, _, _, _, _, _, _, rfl⟩ := translate_convert_ok run
    rfl
  | member e name u =>
    obtain ⟨_, _, _, _, _, _, _, _, _, rfl⟩ := translate_member_ok run
    rfl
  | index a i u =>
    obtain ⟨_, _, _, _, _, _, _, rfl⟩ := translate_index_ok run
    split <;> rfl
  | construct r args =>
    obtain ⟨_, _, _, _, _, _, rfl⟩ := translate_construct_ok run
    rfl
  | call fn args u =>
    obtain ⟨_, _, _, _, rfl⟩ := translate_call_ok run
    rfl
  | select tag source params body => exact (translate_query_ok (.inl rfl) run).elim
  | zip tag first second params body => exact (translate_query_ok (.inl rfl) run).elim
  | array a => exact (translate_query_ok (.inr ⟨a, rfl⟩) run).elim

theorem access_readable {container : ElementType} {member : String} {a : Access}
    (found : accessOf container member = some a) : a.IsReadable := by
  unfold accessOf at found
  split at found
  · obtain rfl := Option.some.inj found
    trivial
  · obtain ⟨_, _, rfl⟩ := Option.map_eq_some_iff.mp found
    exact (identifier_free member).1

theorem place_unsigned {scope : Scope} {target : Expr} {d f : Draft} {t : Term}
    (run : translate scope target d = .ok (t, f)) :
    (if isPlace target then t else .group t).isSigned = false := by
  cases target with
  | parameter p => exact translate_unsigned run rfl nofun
  | member e name u => exact translate_unsigned run rfl nofun
  | _ => rfl

mutual
theorem translate_readable {scope : Scope} : ∀ (e : Expr) {d f : Draft} {t : Term},
    d.records.Distinct → e.SignsApart → translate scope e d = .ok (t, f) → t.IsReadable
  | .constant v, d, f, t, distinct, _, run => by
    obtain ⟨declared, found⟩ := translate_constant_ok run
    exact RecordNames.literal_readable (declare_distinct _ _ d () f declared distinct) v t found
  | .parameter p, _, _, _, _, _, run => by
    obtain ⟨operand, _, rfl, _⟩ := translate_parameter_ok run
    exact (operand_term operand).1
  | .binary op l r u, d, f, t, distinct, apart, run => by
    obtain ⟨_, first, second, c, rfl, ⟨_, left, right⟩ | ⟨_, left, right⟩⟩ :=
      translate_binary_ok run
    · have distinct' := translate_distinct left
      exact ⟨translate_readable r distinct apart.2 left,
        translate_readable l (distinct' distinct) apart.1 right⟩
    · have distinct' := translate_distinct left
      exact ⟨translate_readable l distinct apart.1 left,
        translate_readable r (distinct' distinct) apart.2 right⟩
  | .negate e u, d, f, t, distinct, apart, run => by
    obtain ⟨inner, inside, ⟨allowed, rfl⟩ | ⟨_, rfl⟩⟩ := translate_negate_ok run
    · -- Opposites of doubles are refused, so that the operand is no double.
      refine ⟨translate_unsigned inside apart.1 ?_, translate_readable e distinct apart.2 inside⟩
      rintro x rfl
      simp [Expr.type, Value.type, ElementType.isVector, Leaf.isVector] at allowed
    · have readable := translate_readable e distinct apart.2 inside
      exact readable
  | .convert tag e u, d, f, t, distinct, apart, run => by
    obtain ⟨c, k, inner, wrapped, _, typed, inside, rfl⟩ := translate_convert_ok run
    have distinct' := overrideWrapper_keeps distinct_kept tag u e trivial (fun _ _ => trivial) d () c
      wrapped distinct
    exact ⟨RecordNames.typeOf_readable distinct' typed,
      translate_readable e distinct' apart inside, trivial⟩
  | .member e name u, d, f, t, distinct, apart, run => by
    obtain ⟨container, access, v, b, c, inner, chain, followed, inside, rfl⟩ :=
      translate_member_ok run
    have distinct' := reached_keeps distinct_kept chain followed distinct
    refine ⟨place_unsigned inside, ?_, access_readable (follow_ok followed).1⟩
    have readable := translate_readable e distinct' apart inside
    split <;> exact readable
  | .index a i u, d, f, t, distinct, apart, run => by
    obtain ⟨source, slot, c, inner, _, bound, inside, rfl⟩ := translate_index_ok run
    have distinct' := distinct_kept.bound _ source trivial d slot c bound distinct
    have readable := translate_readable i distinct' apart inside
    split <;> exact readable
  | .construct r args, d, f, t, distinct, apart, run => by
    obtain ⟨_, k, c, terms, typed, inside, rfl⟩ := translate_construct_ok run
    have distinct' := valueType_keeps distinct_kept _ r.type d k c typed distinct
    exact ⟨RecordNames.typeOf_readable distinct' (valueType_ok.mp typed).2,
      translateAll_readable args distinct' apart inside⟩
  | .call fn args u, d, f, t, distinct, apart, run => by
    obtain ⟨c, terms, overrides, inside, rfl⟩ := translate_call_ok run
    have distinct' := overrideCall_keeps distinct_kept fn args (fun _ _ => trivial) d () c overrides
      distinct
    exact ⟨trivial, translateAll_readable args distinct' apart inside⟩
  | .select .., _, _, _, _, _, run => (translate_query_ok (.inl rfl) run).elim
  | .zip .., _, _, _, _, _, run => (translate_query_ok (.inl rfl) run).elim
  | .array a, _, _, _, _, _, run => (translate_query_ok (.inr ⟨a, rfl⟩) run).elim

theorem translateAll_readable {scope : Scope} : ∀ (es : List Expr) {d f : Draft} {ts : List Term},
    d.records.Distinct → Expr.SignsApartAll es → translateAll scope es d = .ok (ts, f) →
      Term.AreReadable ts
  | [], _, _, _, _, _, run => by
    obtain ⟨rfl, _⟩ := pure_ok.mp run
    trivial
  | e :: es, d, f, ts, distinct, apart, run => by
    obtain ⟨head, tail, c, first, rest, rfl⟩ := translateAll_cons_ok run
    have distinct' := translate_distinct first
    exact ⟨translate_readable e distinct apart.1 first,
      translateAll_readable es (distinct' distinct) apart.2 rest⟩
end

end Kernel
end ArrayQuery
