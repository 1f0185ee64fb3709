import ArrayQuery.Proofs.Statements

/-! Adjacent minus signs in the text of a kernel. Binary operators stand between blanks, and opposites
in parentheses, so that two signs meet in one way alone: an opposite is taken of a literal that starts
with a sign. -/

set_option autoImplicit false
namespace ArrayQuery

/-- Whether the literal of a value starts with a minus sign. The least integer is written as a
conversion, and doubles are rounded to singles. -/
def Value.isSigned : Value → Bool
  | .i32 n => decide (n.toInt < 0) && decide (n.toInt ≠ -2147483648)
  | .f32 x => (Value.f32 x).isNegative
  | .f64 x => (Value.f32 x.toSingle).isNegative
  | _ => false

namespace Expr

def isSignedLiteral : Expr → Bool
  | constant v => v.isSigned
  | _ => false

mutual
def DoublesSign : Expr → Prop
  | negate e _ => e.isSignedLiteral = true ∨ e.DoublesSign
  | binary _ l r _ => l.DoublesSign ∨ r.DoublesSign
  | convert _ e _ | member e _ _ | index _ e _ => e.DoublesSign
  | construct _ args | call _ args _ => SomeDouble args
  | _ => False

def SomeDouble : List Expr → Prop
  | [] => False
  | e :: rest => e.DoublesSign ∨ SomeDouble rest
end

end Expr

namespace Kernel

open Compile

/-! ## Texts in which signs meet -/

def SignsMeet (text : List Char) : Prop :=
  ['-', '-'] <:+: text

theorem signsMeet_cons {c : Char} {text : List Char} :
    SignsMeet (c :: text) ↔ (c = '-' ∧ text.head? = some '-') ∨ SignsMeet text := by
  have first : ['-', '-'] <+: c :: text ↔ c = '-' ∧ text.head? = some '-' := by
    cases text <;> simp [eq_comm]
  rw [SignsMeet, List.infix_cons_iff, first]
  rfl

theorem not_signsMeet_nil : ¬SignsMeet [] := by
  simp [SignsMeet]

theorem signsMeet_other {c : Char} (other : c ≠ '-') {text : List Char} :
    SignsMeet (c :: text) ↔ SignsMeet text := by
  simp [signsMeet_cons, other]

theorem head_split {c : Char} (other : c ≠ '-') (xs ys : List Char) :
    (xs ++ c :: ys).head? = some '-' ↔ xs.head? = some '-' := by
  cases xs <;> simp [other]

theorem signsMeet_split {c : Char} (other : c ≠ '-') (xs ys : List Char) :
    SignsMeet (xs ++ c :: ys) ↔ SignsMeet xs ∨ SignsMeet ys := by
  induction xs with
  | nil => simp [signsMeet_other other, not_signsMeet_nil]
  | cons x xs ih => rw [List.cons_append, signsMeet_cons, signsMeet_cons, head_split other, ih, or_assoc]

theorem signsMeet_concat {c : Char} (other : c ≠ '-') (xs : List Char) :
    SignsMeet (xs ++ [c]) ↔ SignsMeet xs := by
  simp [signsMeet_split other, not_signsMeet_nil]

theorem not_signsMeet_of_dashless {text : List Char} (dashless : '-' ∉ text) : ¬SignsMeet text :=
  fun meet => dashless (meet.subset List.mem_cons_self)

theorem not_head_of_dashless {text : List Char} (dashless : '-' ∉ text) : text.head? ≠ some '-' :=
  fun first => dashless (List.mem_of_mem_head? first)

/-- A sign within a numeral is that of an exponent, and a digit stands behind it. -/
theorem extend_dash {s t : Scan} (number : s.IsNumber) (next : s.extend '-' = some t) :
    t.extend '-' = none := by
  cases s with
  | blank | word | mark | pair => exact number.elim
  | power r =>
    obtain rfl := Option.some.inj next
    rfl
  | whole r | fraction r | signed r | exponent r | suffixed r => exact nomatch next

theorem feed_apart {s t : Scan} {text : List Char} (number : s.IsNumber)
    (fed : s.feed text = some t) : ¬SignsMeet text := by
  induction text generalizing s with
  | nil => exact not_signsMeet_nil
  | cons c text ih =>
    simp only [Scan.feed, List.foldlM_cons] at fed
    obtain ⟨u, next, rest⟩ := Option.bind_eq_some_iff.mp fed
    rw [signsMeet_cons, not_or]
    refine ⟨?_, ih (extend_number number next).2 rest⟩
    rintro ⟨rfl, first⟩
    obtain ⟨more, rfl⟩ := List.head?_eq_some_iff.mp first
    rw [List.foldlM_cons, extend_dash number next] at rest
    cases rest

theorem numeral_apart {text : List Char} (numeral : IsSignedNumeral text) : ¬SignsMeet text := by
  obtain ⟨sign, _, rfl, signed, c, rest, rfl, digit, fed⟩ := numeral
  have other : c ≠ '-' := by
    rintro rfl
    exact absurd digit (by decide)
  have whole : ¬SignsMeet (c :: rest) := by
    rw [signsMeet_other other]
    exact feed_apart (s := .whole [c]) trivial fed
  rcases signed with rfl | rfl
  · exact whole
  · rw [List.singleton_append, signsMeet_cons, List.head?_cons, not_or]
    exact ⟨fun both => other (Option.some.inj both.2), whole⟩

theorem literal_apart {l : Literal} (readable : l.IsReadable) : ¬SignsMeet l.text.toList := by
  cases l with
  | bool b => cases b <;> exact not_signsMeet_of_dashless (by decide)
  | int n =>
    by_cases least : n.toInt = -2147483648
    · rw [Literal.text, if_pos least]
      simp [signsMeet_cons, not_signsMeet_nil]
    · rw [Literal.text, if_neg least, String.toList_append]
      exact numeral_apart (int_isSignedNumeral _)
  | uint n =>
    rw [Literal.text, String.toList_append]
    exact numeral_apart ⟨[], _, rfl, .inl rfl, nat_isNumeral _⟩
  | float x =>
    rw [Literal.text, String.toList_append]
    exact numeral_apart (single_isSignedNumeral readable)

def Term.isDashed : Term → Bool
  | .literal l => l.isSigned
  | .access e _ => e.isDashed
  | _ => false

mutual
def Term.DoublesSign : Term → Prop
  | .negate e => e.isDashed = true ∨ e.DoublesSign
  | .binary _ l r => l.DoublesSign ∨ r.DoublesSign
  | .index _ e | .nonzero e | .negateMatrix e | .group e | .access e _ => e.DoublesSign
  | .call _ args => Term.SomeDouble args
  | .literal _ | .step _ | .element _ => False

def Term.SomeDouble : List Term → Prop
  | [] => False
  | e :: rest => e.DoublesSign ∨ Term.SomeDouble rest
end

theorem callee_quiet {c : Callee} (named : c.IsNamed) : IsQuiet c.text := by
  cases c with
  | type t => exact Program.type_quiet named
  | function fn => cases fn <;> decide

theorem access_quiet {a : Access} (named : a.IsNamed) : IsQuiet a.text := by
  cases a with
  | field name => exact isQuiet_append.mpr ⟨by decide, Program.free_quiet named⟩
  | cell column row =>
    simp only [Access.text, isQuiet_append, Program.digits_quiet]
    decide

theorem access_split {a : Access} (named : a.IsNamed) :
    ∃ c rest, a.text.toList = c :: rest ∧ c ≠ '-' ∧ '-' ∉ rest := by
  have dashless := (access_quiet named).dashless
  obtain ⟨c, rest, spelled, _⟩ := @names_access (fun _ => True) _ named
  rw [spelled, List.mem_cons, not_or] at dashless
  exact ⟨c, rest, spelled, Ne.symm dashless.1, dashless.2⟩

section Terms

variable {allowed : Variable → Prop}

theorem Term.head_text : ∀ t : Term, t.Reads allowed →
    (t.text.toList.head? = some '-' ↔ t.isDashed = true)
  | .literal l, _ => by simp [Term.text, Term.isDashed, Literal.isSigned]
  | .step n, _ => by
    simp only [Term.text, Term.isDashed, Bool.false_eq_true, iff_false]
    exact not_head_of_dashless (Program.variable_quiet _).dashless
  | .element slot, _ => by
    rw [Term.toList_element, head_split (by decide)]
    simp only [Term.isDashed, Bool.false_eq_true, iff_false]
    exact not_head_of_dashless (Program.variable_quiet _).dashless
  | .index slot i, _ => by
    rw [Term.toList_index, head_split (by decide)]
    simp only [Term.isDashed, Bool.false_eq_true, iff_false]
    exact not_head_of_dashless (Program.variable_quiet _).dashless
  | .call c args, reads => by
    rw [Term.toList_call, head_split (by decide)]
    simp only [Term.isDashed, Bool.false_eq_true, iff_false]
    exact not_head_of_dashless (callee_quiet reads.1).dashless
  | .access e a, reads => by
    obtain ⟨c, rest, spelled, other, _⟩ := access_split reads.2
    rw [Term.text, String.toList_append, spelled, head_split other, e.head_text reads.1, Term.isDashed]
  | .nonzero _, _ | .binary .., _ | .negate _, _ | .negateMatrix _, _ | .group _, _ => by
    simp [Term.text, Term.isDashed]

theorem signsMeet_arguments (texts : List String) :
    SignsMeet (", ".intercalate texts).toList ↔ ∃ text ∈ texts, SignsMeet text.toList := by
  induction texts with
  | nil => simp [not_signsMeet_nil]
  | cons first rest ih =>
    cases rest with
    | nil => simp [String.intercalate_singleton]
    | cons second rest =>
      have spaced : (", " : String).toList = ',' :: [' '] := rfl
      rw [String.intercalate_cons_cons, String.toList_append, String.toList_append, spaced,
        List.append_assoc, List.cons_append, List.singleton_append, signsMeet_split (by decide),
        signsMeet_other (by decide), ih]
      simp

mutual
theorem Term.signsMeet_text : ∀ t : Term, t.Reads allowed →
    (SignsMeet t.text.toList ↔ t.DoublesSign)
  | .literal l, reads => by
    simpa [Term.text, Term.DoublesSign] using literal_apart reads
  | .step n, _ => by
    simp only [Term.text, Term.DoublesSign, iff_false]
    exact not_signsMeet_of_dashless (Program.variable_quiet _).dashless
  | .element slot, _ => by
    have name := not_signsMeet_of_dashless (Program.variable_quiet (.buffer slot)).dashless
    have index : ¬SignsMeet "gid.x]".toList := not_signsMeet_of_dashless (by decide)
    rw [Term.toList_element, signsMeet_split (by decide)]
    simp only [name, index, Term.DoublesSign, or_self]
  | .index slot i, reads => by
    have name := not_signsMeet_of_dashless (Program.variable_quiet (.buffer slot)).dashless
    rw [Term.toList_index, signsMeet_split (by decide), signsMeet_concat (by decide),
      i.signsMeet_text reads.2]
    simp only [name, Term.DoublesSign, false_or]
  | .nonzero e, reads => by
    have zero : ¬SignsMeet "!= 0u)".toList := not_signsMeet_of_dashless (by decide)
    rw [Term.toList_nonzero, signsMeet_other (by decide), signsMeet_split (by decide),
      e.signsMeet_text reads]
    simp only [zero, Term.DoublesSign, or_false]
  | .binary op l r, reads => by
    -- Blanks stand on both sides of the operator, so that a minus sign there meets no other one.
    have sign : ¬SignsMeet op.symbol.toList := by
      cases op <;> simp [BinaryOp.symbol, signsMeet_cons, not_signsMeet_nil]
    rw [Term.toList_binary, signsMeet_other (by decide), signsMeet_split (by decide),
      signsMeet_split (by decide), signsMeet_concat (by decide), l.signsMeet_text reads.1,
      r.signsMeet_text reads.2]
    simp only [sign, Term.DoublesSign, false_or]
  | .negate e, reads => by
    -- Only here does a sign come right before an operand, which may start with one itself.
    rw [Term.toList_negate, signsMeet_other (by decide), signsMeet_cons, head_split (by decide),
      signsMeet_concat (by decide), e.head_text reads, e.signsMeet_text reads]
    simp only [Term.DoublesSign, true_and]
  | .negateMatrix e, reads => by
    have minusOne : ¬SignsMeet "(-1.0f *".toList := by
      simp [signsMeet_cons, not_signsMeet_nil]
    rw [Term.toList_negateMatrix, signsMeet_split (by decide), signsMeet_concat (by decide),
      e.signsMeet_text reads]
    simp only [minusOne, Term.DoublesSign, false_or]
  | .call c args, reads => by
    have callee := not_signsMeet_of_dashless (callee_quiet reads.1).dashless
    rw [Term.toList_call, signsMeet_split (by decide), signsMeet_concat (by decide),
      signsMeet_arguments, Term.signsMeet_textAll args reads.2]
    simp only [callee, Term.DoublesSign, false_or]
  | .group e, reads => by
    rw [Term.toList_group, signsMeet_other (by decide), signsMeet_concat (by decide),
      e.signsMeet_text reads, Term.DoublesSign]
  | .access e a, reads => by
    obtain ⟨c, rest, spelled, other, dashless⟩ := access_split reads.2
    rw [Term.text, String.toList_append, spelled, signsMeet_split other, e.signsMeet_text reads.1]
    simp only [not_signsMeet_of_dashless dashless, Term.DoublesSign, or_false]

theorem Term.signsMeet_textAll : ∀ ts : List Term, Term.AllRead allowed ts →
    ((∃ text ∈ Term.textAll ts, SignsMeet text.toList) ↔ Term.SomeDouble ts)
  | [], _ => by simp [Term.textAll, Term.SomeDouble]
  | t :: ts, reads => by
    simp only [Term.textAll, List.mem_cons, exists_eq_or_imp, Term.SomeDouble,
      t.signsMeet_text reads.1, Term.signsMeet_textAll ts reads.2]
end

end Terms

/-! ## Translations -/

theorem int_signed {n : Int32} (negative : n.toInt < 0) (other : n.toInt ≠ -2147483648) :
    (Literal.int n).isSigned = true := by
  have sign : ¬0 ≤ n.toInt := by omega
  simp [Literal.isSigned, Literal.text, other, Int.toString_eq_repr, Int.repr_eq_if, sign]

theorem float_signed {x : Single} (negative : (Value.f32 x).isNegative = true) :
    (Literal.float x).isSigned = true := by
  simp only [Value.isNegative] at negative
  split at negative
  · next significand exponent datum =>
    subst negative
    simp [Literal.isSigned, Literal.text, Single.text, datum, Decimal.writeDatum]
  · exact absurd negative Bool.false_ne_true

theorem int_isSigned (n : Int32) : (Literal.int n).isSigned = (Value.i32 n).isSigned := by
  by_cases negative : n.toInt < 0
  · by_cases least : n.toInt = -2147483648
    · simp [Literal.isSigned, Literal.text, Value.isSigned, least]
    · simp [int_signed negative least, Value.isSigned, negative, least]
  · simp [int_unsigned (Int.not_lt.mp negative), Value.isSigned, negative]

theorem float_isSigned {x : Single} (finite : x.isFinite = true) :
    (Literal.float x).isSigned = (Value.f32 x).isNegative := by
  cases negative : (Value.f32 x).isNegative with
  | true => exact float_signed negative
  | false => exact float_unsigned finite negative

theorem literal_isDashed {names : RecordNames} {v : Value} {t : Term}
    (found : names.literal v = .ok t) : t.isDashed = v.isSigned := by
  cases v with
  | bool b =>
    obtain rfl := Except.ok.inj found
    cases b <;> decide
  | i32 n =>
    obtain rfl := Except.ok.inj found
    exact int_isSigned n
  | u32 n =>
    obtain rfl := Except.ok.inj found
    rw [Term.isDashed, Literal.isSigned, Literal.text, String.toList_append]
    exact numeral_unsigned (nat_isNumeral _)
  | f32 x =>
    obtain ⟨rfl, finite⟩ := floatLiteral_ok found
    exact float_isSigned finite
  | f64 x =>
    obtain ⟨rfl, finite⟩ := floatLiteral_ok found
    exact float_isSigned finite
  | vector2 | vector3 | vector4 | matrix4x4 | matrix3x2 =>
    obtain ⟨_, _, rfl⟩ := RecordNames.literal_packed_ok rfl found
    rfl
  | record r values =>
    obtain ⟨_, _, _, _, _, rfl⟩ := RecordNames.literal_record_ok found
    rfl

mutual
theorem Term.IsLiteral.single : ∀ {t : Term}, t.IsLiteral → ¬t.DoublesSign
  | .literal _, _ => id
  | .call (.type _) _, plain => Term.AreLiterals.single plain.2
  | .call (.function _) _, plain | .step _, plain | .element _, plain | .index .., plain
  | .nonzero _, plain | .binary .., plain | .negate _, plain | .negateMatrix _, plain
  | .group _, plain | .access .., plain => plain.elim

theorem Term.AreLiterals.single : ∀ {ts : List Term}, Term.AreLiterals ts → ¬Term.SomeDouble ts
  | [], _ => id
  | _ :: _, plain => not_or.mpr ⟨plain.1.single, Term.AreLiterals.single plain.2⟩
end

theorem operand_isDashed (o : Operand) : o.term.isDashed = false := by
  unfold Operand.term
  split
  · rfl
  · split <;> rfl

theorem operand_single (o : Operand) : ¬o.term.DoublesSign := by
  unfold Operand.term
  split
  · exact id
  · split <;> exact id

theorem place_isSignedLiteral {e : Expr} (place : isPlace e = true) : e.isSignedLiteral = false := by
  cases e with
  | constant => exact nomatch place
  | _ => rfl

theorem translate_isDashed {scope : Scope} : ∀ (e : Expr) {d f : Draft} {t : Term},
    translate scope e d = .ok (t, f) → t.isDashed = e.isSignedLiteral
  | .constant v, d, f, t, run => literal_isDashed (translate_constant_ok run).2
  | .parameter p, d, f, t, run => by
    obtain ⟨operand, _, rfl, _⟩ := translate_parameter_ok run
    exact operand_isDashed operand
  | .member target name u, d, f, t, run => by
    obtain ⟨_, _, _, _, _, inner, _, _, translated, rfl⟩ := translate_member_ok run
    -- What is not a place is put in parentheses, and a place is no literal.
    have dashed := translate_isDashed target translated
    rw [Term.isDashed]
    split
    · next place =>
      rw [dashed, place_isSignedLiteral place]
      rfl
    · rfl
  | .binary op l r u, d, f, t, run => by
    obtain ⟨_, _, _, _, rfl, _⟩ := translate_binary_ok run
    rfl
  | .negate e u, d, f, t, run => by
    obtain ⟨_, _, ⟨_, rfl⟩ | ⟨_, rfl⟩⟩ := translate_negate_ok run <;> rfl
  | .convert tag e u, d, f, t, run => by
    obtain ⟨_, _, _, _, _, _, _, rfl⟩ := translate_convert_ok run
    rfl
  | .index a i u, d, f, t, run => by
    obtain ⟨_, _, _, _, _, _, _, rfl⟩ := translate_index_ok run
    split <;> rfl
  | .construct r args, d, f, t, run => by
    obtain ⟨_, _, _, _, _, _, rfl⟩ := translate_construct_ok run
    rfl
  | .call fn args u, d, f, t, run => by
    obtain ⟨_, _, _, _, rfl⟩ := translate_call_ok run
    rfl
  | .select .., _, _, _, run => (translate_query_ok (.inl rfl) run).elim
  | .zip .., _, _, _, run => (translate_query_ok (.inl rfl) run).elim
  | .array a, _, _, _, run => (translate_query_ok (.inr ⟨a, rfl⟩) run).elim

theorem matrix_isSignedLiteral {e : Expr} (matrix : e.type.isMatrix = true) :
    e.isSignedLiteral = false := by
  cases e with
  | constant v =>
    cases v with
    | matrix4x4 | matrix3x2 => rfl
    | _ => exact nomatch matrix
  | _ => rfl

mutual
theorem translate_doublesSign {scope : Scope} : ∀ (e : Expr) {d f : Draft} {t : Term},
    translate scope e d = .ok (t, f) → (t.DoublesSign ↔ e.DoublesSign)
  | .constant v, d, f, t, run =>
    iff_of_false (literal_isLiteral v (translate_constant_ok run).2).single id
  | .parameter p, d, f, t, run => by
    obtain ⟨operand, _, rfl, _⟩ := translate_parameter_ok run
    exact iff_of_false (operand_single operand) id
  | .binary op l r u, d, f, t, run => by
    obtain ⟨_, first, second, c, rfl, ⟨_, right, left⟩ | ⟨_, left, right⟩⟩ := translate_binary_ok run
    · rw [Term.DoublesSign, Expr.DoublesSign, translate_doublesSign r right,
        translate_doublesSign l left, or_comm]
    · rw [Term.DoublesSign, Expr.DoublesSign, translate_doublesSign l left,
        translate_doublesSign r right]
  | .negate e u, d, f, t, run => by
    obtain ⟨inner, translated, ⟨_, rfl⟩ | ⟨matrix, rfl⟩⟩ := translate_negate_ok run
    · rw [Term.DoublesSign, Expr.DoublesSign, translate_isDashed e translated,
        translate_doublesSign e translated]
    · -- The opposite of a matrix is a product with minus one.
      rw [Term.DoublesSign, Expr.DoublesSign, matrix_isSignedLiteral matrix,
        translate_doublesSign e translated]
      simp
  | .convert tag e u, d, f, t, run => by
    obtain ⟨_, _, inner, _, _, _, translated, rfl⟩ := translate_convert_ok run
    rw [Term.DoublesSign, Term.SomeDouble, Term.SomeDouble, or_false,
      translate_doublesSign e translated, Expr.DoublesSign]
  | .member target name u, d, f, t, run => by
    obtain ⟨_, _, _, _, _, inner, _, _, translated, rfl⟩ := translate_member_ok run
    rw [Term.DoublesSign, Expr.DoublesSign, ← translate_doublesSign target translated]
    split
    · rfl
    · rw [Term.DoublesSign]
  | .index a i u, d, f, t, run => by
    obtain ⟨_, _, _, inner, _, _, translated, rfl⟩ := translate_index_ok run
    rw [Expr.DoublesSign, ← translate_doublesSign i translated]
    split
    · rw [Term.DoublesSign, Term.DoublesSign]
    · rw [Term.DoublesSign]
  | .construct r args, d, f, t, run => by
    obtain ⟨_, _, _, terms, _, translated, rfl⟩ := translate_construct_ok run
    rw [Term.DoublesSign, Expr.DoublesSign, translateAll_someDouble args translated]
  | .call fn args u, d, f, t, run => by
    obtain ⟨_, terms, _, translated, rfl⟩ := translate_call_ok run
    rw [Term.DoublesSign, Expr.DoublesSign, translateAll_someDouble args translated]
  | .select .., _, _, _, run => (translate_query_ok (.inl rfl) run).elim
  | .zip .., _, _, _, run => (translate_query_ok (.inl rfl) run).elim
  | .array a, _, _, _, run => (translate_query_ok (.inr ⟨a, rfl⟩) run).elim

theorem translateAll_someDouble {scope : Scope} : ∀ (es : List Expr) {d f : Draft} {ts : List Term},
    translateAll scope es d = .ok (ts, f) → (Term.SomeDouble ts ↔ Expr.SomeDouble es)
  | [], d, f, ts, run => by
    obtain ⟨rfl, _⟩ := pure_ok.mp run
    exact Iff.rfl
  | e :: rest, d, f, ts, run => by
    obtain ⟨head, tail, c, first, others, rfl⟩ := translateAll_cons_ok run
    rw [Term.SomeDouble, Expr.SomeDouble, translate_doublesSign e first,
      translateAll_someDouble rest others]
end

theorem signsMeet_unlines (lines : List String) :
    SignsMeet (unlines lines).toList ↔ ∃ line ∈ lines, SignsMeet line.toList := by
  induction lines with
  | nil => simp [unlines, not_signsMeet_nil]
  | cons line rest ih =>
    have text : (unlines (line :: rest)).toList = line.toList ++ '\n' :: (unlines rest).toList := by
      simp [unlines]
    rw [text, signsMeet_split (by decide), ih]
    simp

/-- Signs meet in a statement only where they meet in its body. -/
theorem signsMeet_letLine {before : List Tag} {body : Expr} {l : Let}
    (statement : IsStatement before body l) (number : Nat) :
    SignsMeet (Program.letLine number l).toList ↔ body.DoublesSign := by
  obtain ⟨scope, c, d, distinct, _, translated⟩ := statement.value
  have reads := translate_reads body distinct translated
  have quiet : IsQuiet ("let " ++ (Variable.step number).name ++ ": " ++ l.type.text ++ " =") := by
    simp only [isQuiet_append, Program.variable_quiet, Program.type_quiet statement.named]
    decide
  have text : (Program.letLine number l).toList =
      ("let " ++ (Variable.step number).name ++ ": " ++ l.type.text ++ " =").toList ++
        ' ' :: (l.value.text.toList ++ [';']) := by
    simp [Program.letLine]
  rw [text, signsMeet_split (by decide), signsMeet_concat (by decide), l.value.signsMeet_text reads,
    translate_doublesSign body translated]
  simp only [not_signsMeet_of_dashless quiet.dashless, false_or]

theorem Statements.signsMeet {before : List Tag} {bodies : List Expr} {lets : List Let}
    (statements : Statements before bodies lets) (first : Nat) :
    (∃ line ∈ (lets.zipIdx first).map fun l => Program.letLine l.2 l.1, SignsMeet line.toList) ↔
      ∃ body ∈ bodies, body.DoublesSign := by
  induction statements generalizing first with
  | nil => simp
  | cons statement _ ih =>
    simp only [List.zipIdx_cons, List.map_cons, List.mem_cons, exists_eq_or_imp,
      signsMeet_letLine statement, ih]

theorem storeLine_quiet (p : Program) : IsQuiet p.storeLine := by
  have read : ∀ o : Operand, IsQuiet o.term.text := by
    intro o
    unfold Operand.term
    split
    · exact Program.variable_quiet _
    · split
      · simp only [Term.text, isQuiet_append, Program.variable_quiet]
        decide
      · simp only [Term.text, isQuiet_append, Program.variable_quiet]
        decide
  have stored : IsQuiet (Program.stored p.result).text := by
    unfold Program.stored
    split
    · simp only [Term.text, Term.textAll, String.intercalate_singleton, isQuiet_append, read]
      decide
    · exact read _
  simp only [Program.storeLine, isQuiet_append, stored, Program.bufferName, Program.variable_quiet]
  decide

/-- Two minus signs are adjacent in the text of a compiled query exactly if one of its bodies takes the
opposite of a literal that starts with a sign. -/
theorem compile_signsMeet {root : Expr} {workgroupSize : Nat} {p : Program}
    (compiled : compile workgroupSize root = .ok p) :
    SignsMeet p.text.toList ↔ ∃ body ∈ root.bodies, body.DoublesSign := by
  have named := compile_named compiled
  have quiet : ∀ {line : String}, IsQuiet line → ¬SignsMeet line.toList :=
    fun quiet => not_signsMeet_of_dashless quiet.dashless
  have indented : ∀ lines : List String,
      (∃ line ∈ lines.map ("    " ++ ·), SignsMeet line.toList) ↔
        ∃ line ∈ lines, SignsMeet line.toList := by
    simp [signsMeet_other]
  have head : ¬∃ line ∈ p.headLines, SignsMeet line.toList :=
    fun ⟨line, member, meet⟩ => quiet (Program.headLines_quiet named line member) meet
  have entry : ¬∃ line ∈ Program.entryLines p.outputSlot, SignsMeet line.toList :=
    fun ⟨line, member, meet⟩ => quiet (Program.entryLines_quiet _ line member) meet
  have store : ¬SignsMeet p.storeLine.toList := quiet (storeLine_quiet p)
  have last : ¬SignsMeet ("\x7d" : String).toList := quiet (by decide)
  rw [Program.text_lines, signsMeet_unlines, ← (compile_statements compiled).signsMeet 1]
  simp only [Program.lines, Program.bodyLines, List.mem_append, or_and_right, exists_or, head, entry,
    indented, List.mem_singleton, exists_eq_left, store, last, false_or, or_false]
  rfl

def negatedQuery : Expr :=
  let values : SharedArray := ⟨1, .ofList [(1 : Int32), 2, 3]⟩
  let x : Parameter := ⟨"x", .i32⟩
  .select 2 (.array values) [x]
    (.binary .add (.parameter x) (.negate (.constant (.i32 (-5))) .i32) .i32)

theorem negatedQuery_signsMeet : ∃ p, compile 256 negatedQuery = .ok p ∧
    Program.letLines p.lets = ["let v1: i32 = (buf0[gid.x] + (--5i));"] ∧
    SignsMeet p.text.toList := by
  have compiled : compile 256 negatedQuery = .ok _ := rfl
  refine ⟨_, compiled, rfl, (compile_signsMeet compiled).mpr ?_⟩
  exact ⟨_, List.mem_cons_self, .inr (.inl rfl)⟩

end Kernel
end ArrayQuery
