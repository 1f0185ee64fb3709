import ArrayQuery.Proofs.HostArrays
import ArrayQuery.Proofs.Words

/-! Translations of bodies over 32-bit integers have the values of the bodies. -/

set_option autoImplicit false
namespace ArrayQuery

theorem ElementType.isInteger_iff {t : ElementType} : t.isInteger = true ↔ t = .i32 ∨ t = .u32 := by
  simp [isInteger]

theorem HostArray.word?_exists {a : HostArray} (integer : a.element.isInteger = true) {j : Nat}
    (inside : j < a.count) : ∃ w, a.word? j = some w ∧ .leaf w.leaf = a.element := by
  have decoded : ∀ (α : Type) [Element α], Element.type α = a.element →
      ∃ v, (Element.decodeAll α a.bytes)[j]? = some v := by
    intro α _ same
    have length := length_decodeAll same
    exact ⟨_, List.getElem?_eq_getElem (by omega)⟩
  rcases ElementType.isInteger_iff.mp integer with signed | unsigned
  · obtain ⟨v, found⟩ := decoded Int32 signed.symm
    exact ⟨.signed v, by simp [word?, signed, found], signed.symm⟩
  · obtain ⟨v, found⟩ := decoded UInt32 unsigned.symm
    exact ⟨.unsigned v, by simp [word?, unsigned, found], unsigned.symm⟩

namespace Kernel

/-- Whether one invocation has all the buffers and values of another. -/
structure Sees (s t : Invocation) : Prop where
  index : t.index = s.index
  buffers : ∀ name a, s.buffers.lookup name = some a → t.buffers.lookup name = some a
  values : ∀ name w, s.values.lookup name = some w → t.values.lookup name = some w

namespace Form

theorem word?_index {s : Invocation} {buffer : String} {position : Form} {j : UInt32}
    (found : position.word? s = some (.unsigned j)) :
    (index (name buffer) position).word? s =
      (s.buffers.lookup buffer).bind fun a => a.word? j.toNat := by
  have other : position = member (name "gid") "x" → False := by
    rintro rfl
    exact nomatch found
  rw [word?.eq_7 s buffer position other, found]
  rfl

theorem word?_sees {s t : Invocation} (sees : Sees s t) (e : Form) (w : Word)
    (found : e.word? s = some w) : e.word? t = some w := by
  fun_induction word? s e generalizing w with
  | case1 text => exact found
  | case2 n => exact sees.values n w found
  | case3 e ih => exact ih w found
  | case4 e ih =>
    obtain ⟨v, inner, last⟩ := Option.bind_eq_some_iff.mp found
    rw [word?, ih v inner]
    exact last
  | case5 op l r ihl ihr =>
    obtain ⟨v, left, rest⟩ := Option.bind_eq_some_iff.mp found
    obtain ⟨u, right, last⟩ := Option.bind_eq_some_iff.mp rest
    rw [word?, ihl v left, ihr u right]
    exact last
  | case6 buffer =>
    obtain ⟨a, known, last⟩ := Option.bind_eq_some_iff.mp found
    rw [word?, sees.buffers buffer a known, sees.index]
    exact last
  | case7 buffer position other ih =>
    obtain ⟨v, inner, rest⟩ := Option.bind_eq_some_iff.mp found
    cases v with
    | signed n => cases rest
    | unsigned j =>
      obtain ⟨a, known, last⟩ := Option.bind_eq_some_iff.mp rest
      rw [word?_index (ih _ inner), sees.buffers buffer a known]
      exact last
  | case8 e n exact_n inside =>
    rw [← found]
    simp only [word?, exact_n, inside, if_true, and_self]
  | case9 => cases found
  | case10 e no_exact ih =>
    obtain ⟨v, inner, last⟩ := Option.bind_eq_some_iff.mp found
    simp only [word?, no_exact, if_true, ih v inner]
    exact last
  | case11 e other ih =>
    obtain ⟨v, inner, last⟩ := Option.bind_eq_some_iff.mp found
    rw [word?, if_neg other, if_pos rfl, ih v inner]
    exact last
  | case12 => cases found
  | case13 => cases found

end Form

theorem Sees.refl (s : Invocation) : Sees s s := ⟨rfl, fun _ _ => id, fun _ _ => id⟩

theorem Sees.trans {s t u : Invocation} (first : Sees s t) (second : Sees t u) : Sees s u :=
  ⟨second.index.trans first.index,
    fun name a found => second.buffers name a (first.buffers name a found),
    fun name w found => second.values name w (first.values name w found)⟩

theorem natural?_toString (n : Nat) : natural? (toString n).toList = some n := by
  rw [Nat.toString_eq_repr, Nat.toList_repr]
  simp [natural?, Nat.toDigits_ne_nil, Decimal.all_isDigit_toDigits]

theorem numeral?_unsigned (n : UInt32) :
    numeral? ((toString n.toNat).toList ++ ['u']) = some (.unsigned n) := by
  have bound : n.toNat < UInt32.size := n.toNat_lt
  simp only [numeral?, List.getLast?_concat, List.dropLast_concat, natural?_toString, if_pos bound,
    UInt32.ofNat_toNat]

theorem numeral?_signed {n : Nat} (bound : n < 2147483648) :
    numeral? ((toString n).toList ++ ['i']) = some (.signed (Int32.ofNat n)) := by
  simp only [numeral?, List.getLast?_concat, List.dropLast_concat, natural?_toString, if_pos bound]

theorem signedForm_digits (n : Nat) (rest : List Char) :
    signedForm ((toString n).toList ++ rest) = .number ((toString n).toList ++ rest) := by
  have digits := Decimal.all_isDigit_toDigits n
  rw [Nat.toString_eq_repr, Nat.toList_repr]
  cases spelled : Nat.toDigits 10 n with
  | nil => exact absurd spelled Nat.toDigits_ne_nil
  | cons c cs =>
    simp only [spelled, List.all_cons, Bool.and_eq_true] at digits
    exact signedForm_digit digits.1

/-- The least integer is a conversion, and every other one its magnitude with its sign. -/
theorem int_form (n : Int32) : (Literal.int n).form =
    if n.toInt = -2147483648 then .call "i32" [.negate (.number leastMagnitude)]
    else if 0 ≤ n.toInt then .number ((toString n.toInt.toNat).toList ++ ['i'])
    else .negate (.number ((toString (-n.toInt).toNat).toList ++ ['i'])) := by
  unfold Literal.form
  dsimp only
  split
  · rfl
  · next other =>
    split
    · next positive =>
      have text : (Literal.int n).text.toList = (toString n.toInt.toNat).toList ++ ['i'] := by
        simp [Literal.text, other, Int.repr_eq_if, positive]
      rw [text, signedForm_digits]
    · next negative =>
      have text : (Literal.int n).text.toList =
          '-' :: ((toString (-n.toInt).toNat).toList ++ ['i']) := by
        simp [Literal.text, other, Int.repr_eq_if, negative]
      rw [text, signedForm]

theorem uint_form (n : UInt32) :
    (Literal.uint n).form = .number ((toString n.toNat).toList ++ ['u']) := by
  have text : (Literal.uint n).text.toList = (toString n.toNat).toList ++ ['u'] := by
    simp [Literal.text]
  unfold Literal.form
  dsimp only
  rw [text, signedForm_digits]

theorem word?_int (s : Invocation) (n : Int32) :
    (Literal.int n).form.word? s = some (.signed n) := by
  have low := n.le_toInt
  have high := n.toInt_lt
  rw [int_form]
  by_cases least : n.toInt = -2147483648
  · have magnitude : natural? leastMagnitude = some 2147483648 := by decide
    have same : Int32.ofInt (-2147483648) = n := by rw [← least, Int32.ofInt_toInt]
    simp only [least, if_true, Form.word?, Form.integer?, magnitude, Option.map_some]
    simp [same]
  · rw [if_neg least]
    by_cases positive : 0 ≤ n.toInt
    · have same : Int32.ofNat n.toInt.toNat = n := by
        apply Int32.toInt.inj
        rw [Int32.toInt_ofNat_of_lt (by omega)]
        omega
      rw [if_pos positive, Form.word?_number, numeral?_signed (by omega), same]
    · have same : -Int32.ofNat (-n.toInt).toNat = n := by
        have magnitude : -((-n.toInt).toNat : Int) = n.toInt := by omega
        rw [Int32.neg_ofNat, magnitude, Int32.ofInt_toInt]
      rw [if_neg positive, Form.word?, Form.word?_number, numeral?_signed (by omega)]
      simp only [Option.bind_eq_bind, Option.bind_some, Word.negate?, same]

theorem word?_uint (s : Invocation) (n : UInt32) :
    (Literal.uint n).form.word? s = some (.unsigned n) := by
  rw [uint_form, Form.word?_number, numeral?_unsigned]

theorem integer?_eq_none {s : Invocation} (e : Form) {w : Word} (found : e.word? s = some w) :
    e.integer? = none := by
  induction e using Form.integer?.induct generalizing w with
  | case1 text =>
    simp only [Form.word?_number, numeral?] at found
    have suffix : ∃ c, text.getLast? = some c ∧ c.isDigit = false := by
      split at found
      · next last _ => exact ⟨'i', last, by decide⟩
      · next last _ => exact ⟨'u', last, by decide⟩
      · exact nomatch found
    obtain ⟨c, last, other⟩ := suffix
    have mixed : ¬(text ≠ [] ∧ text.all Char.isDigit = true) := by
      rintro ⟨_, digits⟩
      have digit := List.all_eq_true.mp digits c (List.mem_of_getLast? last)
      rw [other] at digit
      exact Bool.false_ne_true digit
    rw [Form.integer?, natural?, if_neg mixed]
    rfl
  | case2 e ih =>
    obtain ⟨v, inner, _⟩ := Option.bind_eq_some_iff.mp found
    rw [Form.integer?, ih inner]
    rfl
  | case3 e other other' => exact Form.integer?.eq_3 e other other'

theorem bufferName_injective {k l : Nat} (same : Program.bufferName k = Program.bufferName l) :
    k = l := by
  have texts := congrArg String.toList same
  simp only [Program.bufferName, Variable.name, String.toList_append,
    List.append_cancel_left_eq] at texts
  exact digits_injective texts

theorem stepName_injective {k l : Nat}
    (same : (Variable.step k).name = (Variable.step l).name) : k = l := by
  have texts := congrArg String.toList same
  simp only [Variable.name, String.toList_append, List.append_cancel_left_eq] at texts
  exact digits_injective texts

theorem lookup_numbered {α β : Type} {name : Nat → String}
    (injective : ∀ {k l : Nat}, name k = name l → k = l) (f : α → β) (xs : List α) (n k : Nat) :
    ((xs.zipIdx n).map fun x => (name x.2, f x.1)).lookup (name (n + k)) = xs[k]?.map f := by
  induction xs generalizing n k with
  | nil => rfl
  | cons x xs ih =>
    simp only [List.zipIdx_cons, List.map_cons, List.lookup_cons]
    cases k with
    | zero => simp
    | succ k =>
      have other : (name (n + (k + 1)) == name n) = false := by
        refine beq_eq_false_iff_ne.mpr fun same => ?_
        have := injective same
        omega
      have rest := ih (n + 1) k
      rw [Nat.add_assoc, Nat.add_comm 1 k] at rest
      simp only [other, rest, List.getElem?_cons_succ]

theorem lookup_namedBuffers (inputs : List Input) (k : Nat) :
    (namedBuffers inputs).lookup (Program.bufferName k) = inputs[k]?.map Input.array := by
  have found := lookup_numbered bufferName_injective Input.array inputs 0 k
  rwa [Nat.zero_add] at found

def Agreed (known : List SharedArray) (inputs : List Input) : Prop :=
  ∀ a ∈ known, ∀ i ∈ inputs, i.tag = a.tag → i.array = a.data

def Invocation.over (s : Invocation) (inputs : List Input) : Invocation :=
  { s with buffers := namedBuffers inputs }

theorem lookup_namedBuffers_mono {inputs inputs' : List Input} (more : inputs <+: inputs')
    {name : String} {a : HostArray} (found : (namedBuffers inputs).lookup name = some a) :
    (namedBuffers inputs').lookup name = some a := by
  obtain ⟨rest, rfl⟩ := more
  rw [namedBuffers, List.zipIdx_append, List.map_append, List.lookup_append]
  rw [namedBuffers] at found
  rw [found]
  rfl

theorem sees_over {s : Invocation} {inputs inputs' : List Input} (more : inputs <+: inputs') :
    Sees (s.over inputs) (s.over inputs') :=
  ⟨rfl, fun _ _ => lookup_namedBuffers_mono more, fun _ _ => id⟩

open Compile

variable {known : List SharedArray}

theorem bindArray_slot (faithful : ∀ a ∈ known, ∀ b ∈ known, a.tag = b.tag → a = b)
    {node : Expr} {a : SharedArray} {d e : Draft} {slot : Nat} (member : a ∈ known)
    (agreed : Agreed known d.inputs) (run : bindArray node a d = .ok (slot, e)) :
    e.inputs[slot]?.map Input.array = some a.data ∧ Agreed known e.inputs := by
  rcases bindArray_ok run with ⟨found, rfl⟩ | ⟨_, rfl, storage, c, stored, rfl⟩
  · obtain ⟨inside, same, _⟩ := List.findIdx?_eq_some_iff_getElem.mp found
    have tagged : e.inputs[slot].tag = a.tag := by simpa using same
    have data := agreed a member e.inputs[slot] (List.getElem_mem inside) tagged
    exact ⟨by simp [inside, data], agreed⟩
  · have inputs := (declare_frame node _ d () c (storageType_ok.mp stored).1).1
    refine ⟨by simp [inputs], ?_⟩
    intro b other i bound same
    rcases List.mem_append.mp bound with bound | bound
    · rw [inputs] at bound
      exact agreed b other i bound same
    · obtain rfl := List.mem_singleton.mp bound
      rw [faithful a member b other same]

/-- Whether the parameters of a body have values, and their operands the same ones. -/
def Bound (params : List Parameter) (scope : Scope) (bindings : List (String × Word))
    (s : Invocation) : Prop :=
  ∀ p ∈ params, ∃ o w, scope.lookup p.name = some o ∧ bindings.lookup p.name = some w ∧
    .leaf w.leaf = p.type ∧ o.term.form.word? s = some w

theorem Bound.sees {params : List Parameter} {scope : Scope} {bindings : List (String × Word)}
    {s t : Invocation} (bound : Bound params scope bindings s) (sees : Sees s t) :
    Bound params scope bindings t := by
  intro p member
  obtain ⟨o, w, operand, value, type, found⟩ := bound p member
  exact ⟨o, w, operand, value, type, Form.word?_sees sees _ w found⟩

theorem declare_leaf {node : Expr} {l : Leaf} {d e : Draft}
    (run : declare node (.leaf l) d = .ok ((), e)) : e = d := by
  obtain ⟨_, rfl⟩ := pure_ok.mp run
  rfl

theorem word_signed {w : Word} (type : .leaf w.leaf = ElementType.i32) :
    ∃ n, w = .signed n := by
  cases w with
  | signed n => exact ⟨n, rfl⟩
  | unsigned n => exact nomatch type

theorem word_unsigned {w : Word} (type : .leaf w.leaf = ElementType.u32) :
    ∃ n, w = .unsigned n := by
  cases w with
  | signed n => exact nomatch type
  | unsigned n => exact ⟨n, rfl⟩

theorem operate?_exists {op : BinaryOp} (defined : op = .add ∨ op = .sub ∨ op = .mul) {v w : Word}
    (same : v.leaf = w.leaf) : ∃ u, v.operate? op w = some u ∧ u.leaf = v.leaf := by
  cases v with
  | signed a =>
    cases w with
    | signed b => rcases defined with rfl | rfl | rfl <;> exact ⟨_, rfl, rfl⟩
    | unsigned b => exact nomatch same
  | unsigned a =>
    cases w with
    | signed b => exact nomatch same
    | unsigned b => rcases defined with rfl | rfl | rfl <;> exact ⟨_, rfl, rfl⟩

theorem operate?_mul_comm (v w : Word) : v.operate? .mul w = w.operate? .mul v := by
  cases v <;> cases w <;> simp [Word.operate?, Int32.mul_comm, UInt32.mul_comm]

theorem binary_computes {op : BinaryOp} (defined : op = .add ∨ op = .sub ∨ op = .mul)
    (u : ElementType) {t : ElementType} {l r : Expr} {bindings : List (String × Word)} {v w : Word}
    {x y : Term} {s : Invocation} (left : l.word? bindings = some v) (leftType : .leaf v.leaf = t)
    (right : r.word? bindings = some w) (rightType : .leaf w.leaf = t)
    (first : x.form.word? s = some v) (second : y.form.word? s = some w) :
    ∃ z, (Expr.binary op l r u).word? bindings = some z ∧ .leaf z.leaf = t ∧
      (Term.binary op x y).form.word? s = some z := by
  have same : v.leaf = w.leaf := ElementType.leaf.inj (leftType.trans rightType.symm)
  obtain ⟨z, applied, leaf⟩ := operate?_exists defined same
  refine ⟨z, ?_, by rw [leaf, leftType], ?_⟩
  · simp only [Expr.word?, left, right, Option.bind_eq_bind, Option.bind_some, applied]
  · simp only [Term.form, Form.word?, first, second, Option.bind_eq_bind, Option.bind_some, applied]

theorem word?_mul_comm (s : Invocation) (x y : Term) :
    (Term.binary .mul x y).form.word? s = (Term.binary .mul y x).form.word? s := by
  simp only [Term.form, Form.word?, Option.bind_eq_bind]
  cases x.form.word? s with
  | none => cases y.form.word? s <;> rfl
  | some v =>
    cases y.form.word? s with
    | none => rfl
    | some w => exact operate?_mul_comm v w

theorem convert?_form {s : Invocation} {e : Form} {w : Word} {t : ElementType}
    {k : KernelType} {names : RecordNames} (integer : t.isInteger = true)
    (typed : names.typeOf t = .ok k) (found : e.word? s = some w) :
    ∃ v, w.convert? t = some v ∧ .leaf v.leaf = t ∧ (Form.call k.text [e]).word? s = some v := by
  have inexact := integer?_eq_none e found
  rcases ElementType.isInteger_iff.mp integer with rfl | rfl
  · obtain rfl := Option.some.inj (RecordNames.typeOf_leaf_ok.mp typed)
    refine ⟨.signed w.toSigned, rfl, rfl, ?_⟩
    simp [Form.word?, KernelType.text, inexact, found]
  · obtain rfl := Option.some.inj (RecordNames.typeOf_leaf_ok.mp typed)
    refine ⟨.unsigned w.toUnsigned, rfl, rfl, ?_⟩
    simp [Form.word?, KernelType.text, found]

section Bodies

variable (faithful : ∀ a ∈ known, ∀ b ∈ known, a.tag = b.tag → a = b)
  {params : List Parameter} {scope : Scope} {bindings : List (String × Word)} {s : Invocation}
include faithful

theorem translate_computes : ∀ (e : Expr) {d f : Draft} {t : Term}, e.IsInteger params →
    (∀ a ∈ e.arrays, a ∈ known) → e.InRange bindings → Agreed known d.inputs → d.overrides = [] →
    Bound params scope bindings (s.over d.inputs) → translate scope e d = .ok (t, f) →
    ∃ w, e.word? bindings = some w ∧ .leaf w.leaf = e.type ∧
      t.form.word? (s.over f.inputs) = some w ∧ Agreed known f.inputs ∧ f.overrides = []
  -- Inputs are only added, so that what has been translated keeps its value (`Form.word?_sees`), and
  -- nothing is overridden, since the bodies call no functions.
  | .constant v, d, f, t, integer, _, _, agreed, plain, _, run => by
    obtain ⟨declared, found⟩ := translate_constant_ok run
    cases v with
    | i32 n =>
      obtain rfl := declare_leaf declared
      obtain rfl := Except.ok.inj found
      exact ⟨.signed n, rfl, rfl, word?_int _ n, agreed, plain⟩
    | u32 n =>
      obtain rfl := declare_leaf declared
      obtain rfl := Except.ok.inj found
      exact ⟨.unsigned n, rfl, rfl, word?_uint _ n, agreed, plain⟩
    | _ => exact integer.elim
  | .parameter p, d, f, t, integer, _, _, agreed, plain, bound, run => by
    obtain ⟨operand, found, rfl, rfl⟩ := translate_parameter_ok run
    obtain ⟨o, w, known, value, type, word⟩ := bound p integer
    obtain rfl := Option.some.inj (found.symm.trans known)
    exact ⟨w, value, type, word, agreed, plain⟩
  | .binary op l r u, d, f, t, integer, within, inRange, agreed, plain, bound, run => by
    obtain ⟨defined, left, right, leftType, rightType⟩ := integer
    have withinLeft := fun a member => within a (List.mem_append_left _ member)
    have withinRight := fun a member => within a (List.mem_append_right _ member)
    obtain ⟨_, first, second, c, rfl, ⟨rfl, run₁, run₂⟩ | ⟨_, run₁, run₂⟩⟩ :=
      translate_binary_ok run
    · -- The right operand of a product is translated first, and stands first on the device.
      obtain ⟨w, value, type, word, agreed', plain'⟩ :=
        translate_computes r right withinRight inRange.2 agreed plain bound run₁
      obtain ⟨v, value', type', word', agreed'', plain''⟩ :=
        translate_computes l left withinLeft inRange.1 agreed' plain'
          (bound.sees (sees_over (translate_grows run₁).inputs)) run₂
      have kept := Form.word?_sees (sees_over (translate_grows run₂).inputs) _ w word
      obtain ⟨x, result, leaf, applied⟩ := binary_computes defined u value' (type'.trans leftType)
        value (type.trans rightType) word' kept
      exact ⟨x, result, leaf, (word?_mul_comm _ first second).trans applied, agreed'', plain''⟩
    · obtain ⟨v, value, type, word, agreed', plain'⟩ :=
        translate_computes l left withinLeft inRange.1 agreed plain bound run₁
      obtain ⟨w, value', type', word', agreed'', plain''⟩ :=
        translate_computes r right withinRight inRange.2 agreed' plain'
          (bound.sees (sees_over (translate_grows run₁).inputs)) run₂
      have kept := Form.word?_sees (sees_over (translate_grows run₂).inputs) _ v word
      obtain ⟨x, result, leaf, applied⟩ := binary_computes defined u value (type.trans leftType)
        value' (type'.trans rightType) kept word'
      exact ⟨x, result, leaf, applied, agreed'', plain''⟩
  | .negate e u, d, f, t, integer, within, inRange, agreed, plain, bound, run => by
    obtain ⟨inner, inside, ⟨_, rfl⟩ | ⟨matrix, rfl⟩⟩ := translate_negate_ok run
    · obtain ⟨w, value, type, word, agreed', plain'⟩ :=
        translate_computes e integer.1 within inRange agreed plain bound inside
      obtain ⟨n, rfl⟩ := word_signed (type.trans integer.2.1)
      refine ⟨.signed (-n), ?_, integer.2.2.1.symm, ?_, agreed', plain'⟩
      · simp only [Expr.word?, value]
        rfl
      · simp only [Term.form, Form.word?, word]
        rfl
    · rw [integer.2.1] at matrix
      exact absurd matrix (by decide)
  | .convert tag e u, d, f, t, integer, within, inRange, agreed, plain, bound, run => by
    obtain ⟨c, k, inner, wrapped, _, typed, inside, rfl⟩ := translate_convert_ok run
    have unwrapped : c = d := by
      cases e with
      | call fn args v => exact integer.1.elim
      | _ =>
        obtain ⟨_, rfl⟩ := pure_ok.mp wrapped
        rfl
    subst unwrapped
    simp only [plain, List.lookup_nil, Option.getD_none] at typed
    obtain ⟨w, value, type, word, agreed', plain'⟩ :=
      translate_computes e integer.1 within inRange agreed plain bound inside
    obtain ⟨v, converted, leaf, called⟩ := convert?_form integer.2 typed word
    refine ⟨v, ?_, leaf, called, agreed', plain'⟩
    simp only [Expr.word?, value, Option.bind_eq_bind, Option.bind_some, converted]
  | .index (.array a) i u, d, f, t, integer, within, inRange, agreed, plain, bound, run => by
    obtain ⟨element, whole, position, unsigned⟩ := integer
    obtain ⟨source, slot, c, inner, same, found, inside, rfl⟩ := translate_index_ok run
    obtain rfl := Expr.array.inj same
    -- The array is bound before the index is translated, and stays in its slot.
    obtain ⟨held, agreed'⟩ := bindArray_slot faithful (within a List.mem_cons_self) agreed found
    obtain ⟨w, value, type, word, agreed'', plain''⟩ :=
      translate_computes i position (fun b member => within b (List.mem_append_right _ member))
        inRange.1 agreed' ((bindArray_overrides found).trans plain)
        (bound.sees (sees_over (bindArray_grows found).inputs)) inside
    obtain ⟨j, rfl⟩ := word_unsigned (type.trans unsigned)
    have integer : a.data.element.isInteger = true := element ▸ whole
    obtain ⟨v, cell, leaf⟩ := HostArray.word?_exists integer (inRange.2 _ value)
    have plainType : u ≠ .bool := by
      rintro rfl
      exact absurd whole (by decide)
    refine ⟨v, ?_, leaf.trans element, ?_, agreed'', plain''⟩
    · simp only [Expr.word?, value, Option.bind_eq_bind, Option.bind_some]
      exact cell
    · have buffer : (s.over f.inputs).buffers.lookup (Program.bufferName slot) = some a.data :=
        lookup_namedBuffers_mono (translate_grows inside).inputs
          ((lookup_namedBuffers c.inputs slot).trans held)
      rw [if_neg plainType]
      simp only [Term.form]
      rw [Form.word?_index word]
      change ((s.over f.inputs).buffers.lookup (Program.bufferName slot)).bind _ = _
      rw [buffer]
      exact cell

end Bodies

end Kernel
end ArrayQuery
