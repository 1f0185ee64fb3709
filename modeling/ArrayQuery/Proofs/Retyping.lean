import ArrayQuery.Proofs.Integers
import ArrayQuery.Proofs.Rounding
import ArrayQuery.Tree.Builder

/-! Integer literals that take another integer type. They are retyped by way of a double, which holds
every word exactly, and then held within the bounds of the type, where a conversion keeps the bits. -/

set_option autoImplicit false
namespace ArrayQuery

namespace Binary.Format

theorem datum_signBit {f : Format} {bits : Nat} (below : bits < f.signBit) {m : Nat} {e : Int}
    (found : f.datum bits = .finite false m e) : f.datum (f.signBit + bits) = .finite true m e := by
  have pow_pos : 0 < Nat.pow 2 f.fractionBits := Nat.pow_pos Nat.two_pos
  have sign : (f.signBit + bits) / f.signBit % 2 = 1 := by
    rw [Nat.add_div_left _ (Nat.zero_lt_of_lt below), Nat.div_eq_of_lt below]
  have high : (f.signBit + bits) / Nat.pow 2 f.fractionBits % Nat.pow 2 f.exponentBits =
      bits / Nat.pow 2 f.fractionBits % Nat.pow 2 f.exponentBits := by
    rw [signBit_eq, Nat.mul_add_div pow_pos, Nat.add_mod_left]
  have low : (f.signBit + bits) % Nat.pow 2 f.fractionBits = bits % Nat.pow 2 f.fractionBits := by
    rw [signBit_eq, Nat.mul_add_mod]
  -- The two fields are read as before, so the kind of the datum is the same.
  unfold datum at found ⊢
  dsimp only at found ⊢
  rw [sign, high, low]
  split at found
  · split at found <;> cases found
  · next finite =>
    rw [if_neg finite]
    split at found
    · next zero =>
      obtain ⟨-, rfl, rfl⟩ := Datum.finite.inj found
      rw [if_pos zero]
      rfl
    · next nonzero =>
      obtain ⟨-, rfl, rfl⟩ := Datum.finite.inj found
      rw [if_neg nonzero]
      rfl

theorem roundBits_le (f : Format) (num den : Nat) : f.roundBits num den ≤ f.infinityBits := by
  unfold roundBits
  split
  · exact Nat.zero_le _
  · exact Nat.min_le_right _ _

/-- An integer of at most 53 bits can be moved up to where a normal double has its leading digit. -/
theorem double_digits {n : Nat} (nonzero : n ≠ 0) (short : n < 9007199254740992) :
    ∃ k ≤ 52, 4503599627370496 ≤ n * Nat.pow 2 k ∧ n * Nat.pow 2 k < 9007199254740992 := by
  have log : n.log2 ≤ 52 := Nat.lt_succ_iff.mp ((Nat.log2_lt nonzero).mpr short)
  refine ⟨52 - n.log2, Nat.sub_le _ _, ?_, ?_⟩
  · calc 4503599627370496 = 2 ^ n.log2 * 2 ^ (52 - n.log2) := by
          rw [← Nat.pow_add, Nat.add_sub_cancel' log]
      _ ≤ n * 2 ^ (52 - n.log2) := Nat.mul_le_mul_right _ (Nat.log2_self_le nonzero)
  · calc n * 2 ^ (52 - n.log2)
        < 2 ^ (n.log2 + 1) * 2 ^ (52 - n.log2) :=
          Nat.mul_lt_mul_of_pos_right Nat.lt_log2_self (Nat.pow_pos Nat.two_pos)
      _ = 9007199254740992 := by rw [← Nat.pow_add, Nat.add_right_comm, Nat.add_sub_cancel' log]

theorem double_integer {n : Nat} (short : n < 9007199254740992) :
    ∃ m e, double.datum (double.roundBits n 1) = .finite false m e ∧
      m * Nat.pow 2 e.toNat / Nat.pow 2 (-e).toNat = n := by
  by_cases zero : n = 0
  · subst zero
    exact ⟨0, double.leastExponent, by decide, by simp⟩
  obtain ⟨k, within, low, high⟩ := double_digits zero short
  have unit : Nat.pow 2 double.fractionBits = 4503599627370496 := by decide
  have fields : Nat.pow 2 double.exponentBits = 2048 := by decide
  have least : double.leastExponent = -1074 := by decide
  -- The normal double with these digits is the integer exactly, and rounding leaves it alone.
  have stands : double.datum ((1075 - k) * Nat.pow 2 double.fractionBits +
      (n * Nat.pow 2 k - 4503599627370496)) = .finite false (n * Nat.pow 2 k) (-k) := by
    have exponent : -1074 + ((1075 - k - 1 : Nat) : Int) = -k := by omega
    rw [datum_fields _ (by omega) (by omega), magnitude, if_neg (by omega), unit, least, exponent,
      Nat.add_sub_cancel' low]
  have up : (-(k : Int)).toNat = 0 := by omega
  have down : (-(-(k : Int))).toNat = k := by omega
  refine ⟨n * Nat.pow 2 k, -k, ?_, ?_⟩
  · rw [← datum_roundBits (by decide) stands]
    refine congrArg _ (roundBits_congr (by decide) Nat.one_pos (Nat.pow_pos Nat.two_pos) ?_)
    rw [dyadic_ratio, Nat.cast_one, div_one, Nat.cast_mul]
    simp
  · rw [up, down]
    calc n * Nat.pow 2 k * Nat.pow 2 0 / Nat.pow 2 k
        = n * Nat.pow 2 k / Nat.pow 2 k := congrArg (· / Nat.pow 2 k) (Nat.mul_one _)
      _ = n := Nat.mul_div_cancel _ (Nat.pow_pos Nat.two_pos)

end Binary.Format

theorem Double.datum_ofInt {n : Int} (short : n.natAbs < 9007199254740992) :
    ∃ m e, (Double.ofInt n).datum = .finite (decide (n < 0)) m e ∧
      m * Nat.pow 2 e.toNat / Nat.pow 2 (-e).toNat = n.natAbs := by
  obtain ⟨m, e, stands, whole⟩ := Binary.Format.double_integer short
  have bound := Binary.double.roundBits_le n.natAbs 1
  have infinity : Binary.double.infinityBits = 9218868437227405312 := by decide
  have sign : Binary.double.signBit = 9223372036854775808 := by decide
  refine ⟨m, e, ?_, whole⟩
  have bits : (Double.ofInt n).bits.toNat =
      (if n < 0 then Binary.double.signBit else 0) + Binary.double.roundBits n.natAbs 1 := by
    have below : (if n < 0 then Binary.double.signBit else 0) +
        Binary.double.roundBits n.natAbs 1 < UInt64.size := by
      have size : UInt64.size = 18446744073709551616 := rfl
      split <;> omega
    have ratio : Binary.double.ofDatum (.finite (decide (n < 0)) n.natAbs 0) =
        (if n < 0 then Binary.double.signBit else 0) + Binary.double.roundBits n.natAbs 1 := by
      simp [Binary.Format.ofDatum, Binary.Format.ofRatio]
    rw [Double.ofInt, Double.ofDatum, ratio, UInt64.toNat_ofNat_of_lt' below]
  rw [Double.datum, bits]
  by_cases negative : n < 0
  · rw [if_pos negative, decide_eq_true negative]
    exact Binary.Format.datum_signBit (by omega) stands
  · rw [if_neg negative, decide_eq_false negative, Nat.zero_add]
    exact stands

theorem Double.truncate_ofInt {n : Int} (short : n.natAbs < 9007199254740992) (low high : Int) :
    (Double.ofInt n).datum.truncate low high = max low (min n high) := by
  obtain ⟨m, e, stands, whole⟩ := Double.datum_ofInt short
  rw [stands, Binary.Datum.truncate, whole]
  by_cases negative : n < 0
  · simp only [negative, decide_true, if_true]
    omega
  · simp only [negative, decide_false, Bool.false_eq_true, if_false]
    omega

namespace ElementType

def leastWord (t : ElementType) : Int :=
  if t = .i32 then -2147483648 else 0

def greatestWord (t : ElementType) : Int :=
  if t = .i32 then 2147483647 else 4294967295

def HoldsWord (t : ElementType) (n : Int) : Prop :=
  t.leastWord ≤ n ∧ n ≤ t.greatestWord

end ElementType

namespace Word

def value : Word → Value
  | signed n => .i32 n
  | unsigned n => .u32 n

def number : Word → Int
  | signed n => n.toInt
  | unsigned n => n.toNat

def type (w : Word) : ElementType :=
  .leaf w.leaf

theorem number_held (w : Word) : w.type.HoldsWord w.number := by
  cases w with
  | signed n => exact ⟨n.le_toInt, Int.lt_add_one_iff.mp n.toInt_lt⟩
  | unsigned n =>
    exact ⟨Int.natCast_nonneg _, Int.lt_add_one_iff.mp (Int.ofNat_lt.mpr n.toNat_lt)⟩

theorem eq_of_number {v w : Word} (type : v.type = w.type) (number : v.number = w.number) : v = w := by
  cases v <;> cases w
  · exact congrArg signed (Int32.toInt.inj number)
  · exact nomatch type
  · exact nomatch type
  · exact congrArg unsigned (UInt32.toNat.inj (Int.ofNat.inj number))

/-- Conversions keep the bits, and thereby the number but for multiples of the number of words. -/
theorem toSigned_number (w : Word) : w.toSigned.toInt % 4294967296 = w.number % 4294967296 := by
  cases w with
  | signed n => rfl
  | unsigned n =>
    have cond := BitVec.toInt_eq_toNat_cond n.toBitVec
    change n.toBitVec.toInt % 4294967296 = (n.toBitVec.toNat : Int) % 4294967296
    omega

theorem toUnsigned_number (w : Word) :
    (w.toUnsigned.toNat : Int) % 4294967296 = w.number % 4294967296 := by
  cases w with
  | signed n =>
    have cond := BitVec.toInt_eq_toNat_cond n.toBitVec
    change (n.toBitVec.toNat : Int) % 4294967296 = n.toBitVec.toInt % 4294967296
    omega
  | unsigned n => rfl

theorem convert?_number {t : ElementType} (integer : t.isInteger = true) (w : Word) :
    ∃ v, w.convert? t = some v ∧ v.type = t ∧ v.number % 4294967296 = w.number % 4294967296 := by
  rcases ElementType.isInteger_iff.mp integer with rfl | rfl
  · exact ⟨signed w.toSigned, rfl, rfl, w.toSigned_number⟩
  · exact ⟨unsigned w.toUnsigned, rfl, rfl, w.toUnsigned_number⟩

end Word

theorem Double.ofNat_eq (n : Nat) : Double.ofNat n = Double.ofInt n := by
  have positive : decide ((n : Int) < 0) = false := by simp
  rw [Double.ofNat, Double.ofInt, positive, Int.natAbs_natCast]

theorem Double.toInt32_ofInt {n : Int} (short : n.natAbs < 9007199254740992) :
    (Double.ofInt n).toInt32.toInt = max (-2147483648) (min n 2147483647) := by
  have low : Int32.minValue.toInt = -2147483648 := by decide
  have high : Int32.maxValue.toInt = 2147483647 := by decide
  rw [Double.toInt32, Double.truncate_ofInt short, low, high]
  exact Int32.toInt_ofInt_of_le (by omega) (by omega)

theorem Double.toUInt32_ofInt {n : Int} (short : n.natAbs < 9007199254740992) :
    ((Double.ofInt n).toUInt32.toNat : Int) = max 0 (min n 4294967295) := by
  have high : ((UInt32.size : Nat) : Int) - 1 = 4294967295 := by decide
  have size : UInt32.size = 4294967296 := rfl
  rw [Double.toUInt32, Double.truncate_ofInt short, high, UInt32.toNat_ofNat_of_lt' (by omega)]
  exact Int.toNat_of_nonneg (by omega)

namespace Word

theorem number_range (w : Word) : -2147483648 ≤ w.number ∧ w.number ≤ 4294967295 := by
  cases w with
  | signed n =>
    have low := n.le_toInt
    have high := n.toInt_lt
    rw [number]
    omega
  | unsigned n =>
    have high := n.toNat_lt
    rw [number]
    omega

theorem retype_signed (w : Word) :
    w.value.retype .i32 = some (.i32 (Double.ofInt w.number).toInt32) := by
  cases w with
  | signed n => rfl
  | unsigned n =>
    rw [number, ← Double.ofNat_eq]
    rfl

theorem retype_unsigned (w : Word) :
    w.value.retype .u32 = some (.u32 (Double.ofInt w.number).toUInt32) := by
  cases w with
  | signed n => rfl
  | unsigned n =>
    rw [number, ← Double.ofNat_eq]
    rfl

/-- A word as a literal of another integer type is the nearest number of the type. -/
theorem retype_number {t : ElementType} (integer : t.isInteger = true) (w : Word) :
    ∃ v : Word, w.value.retype t = some v.value ∧ v.type = t ∧
      v.number = max t.leastWord (min w.number t.greatestWord) := by
  have range := w.number_range
  rcases ElementType.isInteger_iff.mp integer with rfl | rfl
  · exact ⟨signed (Double.ofInt w.number).toInt32, w.retype_signed, rfl,
      Double.toInt32_ofInt (by omega)⟩
  · exact ⟨unsigned (Double.ofInt w.number).toUInt32, w.retype_unsigned, rfl,
      Double.toUInt32_ofInt (by omega)⟩

theorem conform_number {t : ElementType} (integer : t.isInteger = true) (tag : Tag) (w : Word) :
    ∃ v : Word, (Expr.constant w.value).conform tag t = .constant v.value ∧ v.type = t ∧
      v.number = max t.leastWord (min w.number t.greatestWord) := by
  have own : (Expr.constant w.value).type = w.type := by cases w <;> rfl
  have scalar : w.type.isScalar = true := by cases w <;> rfl
  have scalar' : t.isScalar = true := by
    rcases ElementType.isInteger_iff.mp integer with rfl | rfl <;> rfl
  by_cases same : w.type = t
  · refine ⟨w, by rw [Expr.conform, own, if_pos (.inl same)], same, ?_⟩
    obtain ⟨low, high⟩ := same ▸ w.number_held
    omega
  · obtain ⟨v, retyped, type, number⟩ := w.retype_number integer
    refine ⟨v, ?_, type, number⟩
    simp only [Expr.conform, own, same, scalar, scalar', retyped, Bool.true_eq_false, or_self, if_false]

/-- The nearest number of a type is the one that a conversion gives only where the type has the number
already. -/
theorem convert?_eq_nearest {t : ElementType} (integer : t.isInteger = true) {v w : Word}
    (type : v.type = t) (nearest : v.number = max t.leastWord (min w.number t.greatestWord)) :
    w.convert? t = some v ↔ t.HoldsWord w.number := by
  obtain ⟨u, converted, type', congruent⟩ := w.convert?_number integer
  have same : u = v ↔ u.number = v.number :=
    ⟨congrArg number, eq_of_number (type'.trans type.symm)⟩
  have within : t.HoldsWord u.number := type' ▸ u.number_held
  have range := w.number_range
  rw [converted, Option.some.injEq, same, nearest]
  -- From here on only the bounds of the two types matter.
  rcases ElementType.isInteger_iff.mp integer with rfl | rfl
  · have least : ElementType.leastWord .i32 = -2147483648 := rfl
    have greatest : ElementType.greatestWord .i32 = 2147483647 := rfl
    unfold ElementType.HoldsWord at within ⊢
    omega
  · have least : ElementType.leastWord .u32 = 0 := rfl
    have greatest : ElementType.greatestWord .u32 = 4294967295 := rfl
    unfold ElementType.HoldsWord at within ⊢
    omega

end Word

/-- A word that is brought to an integer type as a literal becomes the nearest number of the type. This
is what a conversion of an expression with the word for its value comes to, in the query and in the
kernel, if the type has the number already, and otherwise it is not. -/
theorem Expr.conform_word {t : ElementType} (integer : t.isInteger = true) (tag : Tag) (w : Word) :
    ∃ v : Word, (constant w.value).conform tag t = constant v.value ∧ v.type = t ∧
      v.number = max t.leastWord (min w.number t.greatestWord) ∧
      (∀ e bindings, e.word? bindings = some w →
        ((convert tag e t).word? bindings = some v ↔ t.HoldsWord w.number)) ∧
      ∀ (s : Kernel.Invocation) (form : Kernel.Form) (names : Kernel.RecordNames)
        (k : Kernel.KernelType), names.typeOf t = .ok k → form.word? s = some w →
          ((Kernel.Form.call k.text [form]).word? s = some v ↔ t.HoldsWord w.number) := by
  obtain ⟨v, literal, type, nearest⟩ := w.conform_number integer tag
  have converted := Word.convert?_eq_nearest integer type nearest
  refine ⟨v, literal, type, nearest, fun e bindings found => ?_,
    fun s form names k typed found => ?_⟩
  · rw [Expr.word?, found, Option.bind_eq_bind, Option.bind_some, converted]
  · obtain ⟨u, own, _, called⟩ := Kernel.convert?_form integer typed found
    rw [called, ← own, converted]

/-- As an unsigned literal -1 is 0; as the value of an expression it is converted to 4294967295. -/
theorem minusOne_retyped : ∃ v : Word, (Expr.constant (.i32 (-1))).conform 0 .u32 = .constant v.value ∧
    v.number = 0 ∧
    (Expr.convert 0 (.constant (.i32 (-1))) .u32).word? [] = some (.unsigned 4294967295) ∧
    (Expr.convert 0 (.constant (.i32 (-1))) .u32).word? [] ≠ some v := by
  obtain ⟨v, literal, _, nearest, converted, _⟩ :=
    Expr.conform_word (t := .u32) rfl 0 (.signed (-1))
  refine ⟨v, literal, nearest.trans (by decide), rfl, fun same => ?_⟩
  have held := (converted _ [] rfl).mp same
  exact absurd held.1 (by decide)

end ArrayQuery
