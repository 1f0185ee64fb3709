import ArrayQuery.Decimal.Numeral
import ArrayQuery.Proofs.Numerals
import ArrayQuery.Proofs.Rounding

/-! The text of a finite single is read back as the same single: the digits that are written have a
value that is rounded to it. -/

set_option autoImplicit false
namespace ArrayQuery

def Binary.Datum.rational? : Binary.Datum → Option ℚ
  | .finite negative m e => some (if negative then -(m * 2 ^ e) else m * 2 ^ e)
  | _ => none

def Single.rational? (x : Single) : Option ℚ :=
  x.datum.rational?

namespace Decimal

def value (d : Decimal) : ℚ :=
  d.coefficient * 10 ^ d.exponent

theorem ratio_pos (d : Decimal) : 0 < d.ratio.2 :=
  Nat.pow_pos (by decide)

theorem ratio_eq_value (d : Decimal) : (d.ratio.1 : ℚ) / d.ratio.2 = d.value := by
  have power := Binary.zpow_eq_div (b := 10) (by decide) d.exponent
  rw [Nat.cast_ofNat] at power
  rw [ratio, value, power, Nat.cast_mul, mul_div_assoc]
  rfl

theorem value_pos {d : Decimal} (nonzero : d.coefficient ≠ 0) : 0 < d.value :=
  mul_pos (Nat.cast_pos.mpr (Nat.pos_of_ne_zero nonzero)) (zpow_pos (by norm_num) _)

theorem value_eq_zero {d : Decimal} : d.value = 0 ↔ d.coefficient = 0 := by
  rw [value, mul_eq_zero, Nat.cast_eq_zero, or_iff_left (zpow_ne_zero _ (by norm_num))]

/-- The power of ten of the first digit, counted from one, depends on the value alone. -/
theorem magnitude_eq_log {d : Decimal} (nonzero : d.coefficient ≠ 0) :
    (digitCount d.coefficient : Int) + d.exponent = Int.log 10 d.value + 1 := by
  have counted := digitCount_pos d.coefficient
  have pow_pos : (0 : ℚ) < 10 ^ d.exponent := zpow_pos (by norm_num) _
  have ten : (10 : ℚ) ≠ 0 := by norm_num
  have atLeast : (10 : ℚ) ^ (digitCount d.coefficient - 1 : Nat) ≤ d.coefficient := by
    exact_mod_cast pow_digitCount_le nonzero
  have below : (d.coefficient : ℚ) < 10 ^ digitCount d.coefficient := by
    exact_mod_cast lt_pow_digitCount d.coefficient
  have log : Int.log 10 d.value = (digitCount d.coefficient - 1 : Nat) + d.exponent := by
    apply Binary.log_eq (by decide) (value_pos nonzero)
    · rw [Nat.cast_ofNat, zpow_add₀ ten, zpow_natCast]
      exact mul_le_mul_of_nonneg_right atLeast pow_pos.le
    · rw [Nat.cast_ofNat, add_right_comm, zpow_add₀ ten, ← Nat.cast_succ, zpow_natCast,
        Nat.succ_eq_add_one, Nat.sub_add_cancel counted]
      exact mul_lt_mul_of_pos_right below pow_pos
  rw [log]
  omega

/-! ## Rounding of decimals -/

theorem weight_infinity : Binary.single.weight Binary.single.infinityBits = 2 ^ (128 : Int) := by
  have pattern : Binary.single.infinityBits = 254 * 2 ^ Binary.single.fractionBits + 2 ^ 23 := by decide
  have least : Binary.single.leastExponent = -149 := by decide
  rw [pattern, Binary.Format.weight_parts (by decide) (.inr (by decide)), least]
  norm_num

theorem nearest_large {r : ℚ} (large : (10 : ℚ) ^ (400 : Int) ≤ r) :
    Binary.single.Nearest r Binary.single.infinityBits := by
  refine Binary.Format.nearest_infinity (le_trans ?_ large)
  calc Binary.single.weight Binary.single.infinityBits = 2 ^ (128 : Int) := weight_infinity
    _ ≤ (10 : ℚ) ^ (128 : Int) := by norm_num
    _ ≤ 10 ^ (400 : Int) := zpow_le_zpow_right₀ (by norm_num) (by decide)

theorem nearest_small {r : ℚ} (positive : 0 < r) (small : r < (10 : ℚ) ^ (-400 : Int)) :
    Binary.single.Nearest r 0 := by
  have nothing : Binary.single.weight 0 = 0 := by simp [Binary.Format.weight]
  have first : Binary.single.weight (0 + 1) = 2 ^ (-149 : Int) := by
    norm_num [Binary.Format.weight, Binary.single, Binary.Format.leastExponent]
  have far : 2 * r ≤ 2 ^ (-149 : Int) := by
    calc 2 * r ≤ 2 * 10 ^ (-400 : Int) := by linarith
      _ ≤ 2 * 10 ^ (-150 : Int) :=
        mul_le_mul_of_nonneg_left (zpow_le_zpow_right₀ (by norm_num) (by decide)) (by norm_num)
      _ ≤ 2 ^ (-149 : Int) := by norm_num
  refine Binary.Format.nearest_lower (by decide) (nothing.trans_le positive.le) ?_ fun _ => rfl
  rwa [nothing, first, zero_add]

/-- A decimal is rounded to the single that is nearest to it, also where its size alone settles that. -/
theorem roundBits_nearest (d : Decimal) : Binary.single.Nearest d.value (d.roundBits Binary.single) := by
  by_cases zero : d.coefficient = 0
  · rw [roundBits, if_pos zero, value_eq_zero.mpr zero]
    exact Binary.Format.nearest_zero _
  · have positive := value_pos zero
    rw [roundBits, if_neg zero, magnitude_eq_log zero]
    dsimp only
    split
    · next large =>
      have beyond := (Int.zpow_le_iff_le_log (by decide) positive (b := 10) (x := 400)).mpr (by omega)
      rw [Nat.cast_ofNat] at beyond
      exact nearest_large beyond
    · split
      · next small =>
        have below := (Int.lt_zpow_iff_log_lt (by decide) positive (b := 10) (x := -400)).mpr (by omega)
        rw [Nat.cast_ofNat] at below
        exact nearest_small positive below
      · rw [← ratio_eq_value]
        exact Binary.Format.roundBits_nearest (by decide) _ d.ratio_pos

theorem roundBits_eq_iff {d : Decimal} {bits : Nat} :
    d.roundBits Binary.single = bits ↔ Binary.single.Nearest d.value bits :=
  ⟨fun same => same ▸ d.roundBits_nearest, fun nearest => d.roundBits_nearest.unique nearest⟩

theorem roundBits_congr {c d : Decimal} (same : c.value = d.value) :
    c.roundBits Binary.single = d.roundBits Binary.single := by
  rw [roundBits_eq_iff, same]
  exact d.roundBits_nearest

theorem dropDigits_reads {reads : Decimal → Bool} {exact : Decimal} (passes : reads exact = true)
    (k : Nat) : reads (dropDigits reads exact k) = true := by
  induction k with
  | zero => exact passes
  | succ k ih =>
    simp only [dropDigits]
    split
    · next low =>
      rw [Bool.and_eq_true] at low
      exact low.1
    · split
      · next high => exact high
      · exact ih

theorem roundBits_shortest (f : Binary.Format) (m : Nat) (e : Int) :
    (shortest f m e).roundBits f = (ofDyadic m e).roundBits f := by
  let reads (d : Decimal) : Bool := d.roundBits f == (ofDyadic m e).roundBits f
  have passes : reads (ofDyadic m e) = true := beq_self_eq_true _
  exact beq_iff_eq.mp (dropDigits_reads passes _)

theorem value_ofDyadic (m : Nat) (e : Int) : (ofDyadic m e).value = m * 2 ^ e := by
  unfold ofDyadic value
  split
  · next negative =>
    have halves : (10 : ℚ) ^ e = 2 ^ e * 5 ^ e := by rw [← mul_zpow]; norm_num
    have fives : (5 : ℚ) ^ (-e).toNat * 5 ^ e = 1 := by
      rw [← zpow_natCast, Int.toNat_of_nonneg (by omega), ← zpow_add₀ (by norm_num), neg_add_cancel,
        zpow_zero]
    calc ((m * Nat.pow 5 (-e).toNat : Nat) : ℚ) * 10 ^ e
        = m * 5 ^ (-e).toNat * (2 ^ e * 5 ^ e) := by rw [halves, Nat.pow_eq]; push_cast; rfl
      _ = m * 2 ^ e * (5 ^ (-e).toNat * 5 ^ e) := by ring
      _ = m * 2 ^ e := by rw [fives, mul_one]
  · next positive =>
    have power : (2 : ℚ) ^ e = 2 ^ e.toNat := by
      rw [← zpow_natCast, Int.toNat_of_nonneg (by omega)]
    rw [power, zpow_zero, mul_one, Nat.pow_eq]
    push_cast
    rfl

theorem roundBits_of_value {d : Decimal} {bits : Nat} {negative : Bool} {m : Nat} {e : Int}
    (found : Binary.single.datum bits = .finite negative m e) (same : d.value = m * 2 ^ e) :
    d.roundBits Binary.single = bits % Binary.single.signBit := by
  rw [roundBits_eq_iff, same, ← Binary.Format.weight_datum found]
  exact Binary.Format.nearest_self (Binary.Format.datum_unsigned found).2.le

/-! ## Reading -/

def cut (c : Char) (text : List Char) : List Char × List Char :=
  (text.takeWhile (· != c), (text.dropWhile (· != c)).drop 1)

def readPower : List Char → Int
  | '-' :: digits => -(numeral 10 digits : Int)
  | '+' :: digits => numeral 10 digits
  | digits => numeral 10 digits

def read (text : List Char) : Decimal :=
  let parts := cut 'e' text
  let sides := cut '.' parts.1
  ofDigits sides.1 sides.2 (readPower parts.2)

theorem cut_append {c : Char} {before : List Char} (absent : c ∉ before) (after : List Char) :
    cut c (before ++ c :: after) = (before, after) := by
  have each : ∀ x ∈ before, (x != c) = true := fun x member =>
    bne_iff_ne.mpr fun same => absent (same ▸ member)
  rw [cut, List.takeWhile_append_of_pos each, List.dropWhile_append_of_pos each]
  simp

theorem cut_absent {c : Char} {text : List Char} (absent : c ∉ text) : cut c text = (text, []) := by
  have each : ∀ x ∈ text, (x != c) = true := fun x member =>
    bne_iff_ne.mpr fun same => absent (same ▸ member)
  rw [cut, List.takeWhile_eq_self_iff.mpr each, List.dropWhile_eq_nil_iff.mpr each]
  rfl

theorem digits_lack {digits : List Char} (plain : digits.all Char.isDigit = true) {c : Char}
    (other : c.isDigit = false) : c ∉ digits := fun member => by
  rw [List.all_eq_true.mp plain c member] at other
  exact Bool.noConfusion other

theorem numeral_digits {digits : List Char} (plain : digits.all Char.isDigit = true) :
    numeral 10 digits = Nat.ofDigitChars 10 digits 0 := by
  rw [numeral, Nat.ofDigitChars_eq_foldl]
  refine List.foldl_ext _ _ _ fun n c member => ?_
  have digit := List.all_eq_true.mp plain c member
  have bounds := Char.isDigit_iff_toNat.mp digit
  have small : c.toNat - '0'.toNat < 10 := by
    have nine : '9'.toNat = '0'.toNat + 9 := rfl
    omega
  simp only [digitValue?, digit, if_true]
  rw [if_pos small, Option.getD_some, Nat.mul_comm]

theorem readPower_digits {digits : List Char} (plain : digits.all Char.isDigit = true) :
    readPower digits = Nat.ofDigitChars 10 digits 0 := by
  unfold readPower
  split
  · exact absurd List.mem_cons_self (digits_lack plain (c := '-') rfl)
  · exact absurd List.mem_cons_self (digits_lack plain (c := '+') rfl)
  · rw [numeral_digits plain]

theorem readPower_toString (n : Int) : readPower (toString n).toList = n := by
  rw [Int.toString_eq_repr, Int.repr_eq_if]
  split
  · next positive =>
    rw [Nat.toList_repr, readPower_digits (all_isDigit_toDigits _), Nat.ofDigitChars_ten_toDigits,
      Int.toNat_of_nonneg positive]
  · next negative =>
    have text : ("-" ++ (-n).toNat.repr).toList = '-' :: Nat.toDigits 10 (-n).toNat := by
      rw [String.toList_append, Nat.toList_repr]
      rfl
    rw [text, readPower, numeral_digits (all_isDigit_toDigits _), Nat.ofDigitChars_ten_toDigits]
    omega

theorem value_ofDigits {whole fraction : List Char} (plain : whole.all Char.isDigit = true)
    (plain' : fraction.all Char.isDigit = true) (power : Int) :
    (ofDigits whole fraction power).value =
      Nat.ofDigitChars 10 (whole ++ fraction) 0 * 10 ^ (power - fraction.length) := by
  rw [value, ofDigits, numeral_digits (by rw [List.all_append, plain, plain']; rfl)]

theorem read_point {whole fraction : List Char} (plain : whole.all Char.isDigit = true)
    (plain' : fraction.all Char.isDigit = true) :
    (read (whole ++ '.' :: fraction)).value =
      Nat.ofDigitChars 10 (whole ++ fraction) 0 * 10 ^ (-fraction.length : Int) := by
  have absent : 'e' ∉ whole ++ '.' :: fraction := by
    simp [digits_lack plain, digits_lack plain']
  rw [read, cut_absent absent]
  dsimp only
  rw [cut_append (digits_lack plain rfl), value_ofDigits plain plain', readPower_digits rfl]
  simp

theorem read_power {mantissa power : List Char} (absent : 'e' ∉ mantissa) :
    read (mantissa ++ 'e' :: power) =
      ofDigits (cut '.' mantissa).1 (cut '.' mantissa).2 (readPower power) := by
  rw [read, cut_append absent]

/-- Zeros behind the digits of a number make up for a smaller power of ten. -/
theorem value_shift (n k : Nat) (power : Int) :
    ((10 ^ k * n : Nat) : ℚ) * 10 ^ power = n * 10 ^ (k + power) := by
  rw [zpow_add₀ (by norm_num), zpow_natCast]
  push_cast
  ring

theorem read_placePoint {digits : List Char} (plain : digits.all Char.isDigit = true)
    (point : Int) :
    (read (placePoint digits point)).value =
      Nat.ofDigitChars 10 digits 0 * 10 ^ (point - digits.length) := by
  have zeros (k : Nat) : (List.replicate k '0').all Char.isDigit = true := by
    simp [List.all_replicate, Char.isDigit]
  have ten : (10 : ℚ) ≠ 0 := by norm_num
  unfold placePoint
  split
  · next small =>
    -- The point stands before all digits, with zeros between.
    have value := @read_point ['0']
      (List.replicate (-point).toNat '0' ++ digits) rfl (by simp [zeros, plain])
    have leading : Nat.ofDigitChars 10 (['0'] ++ (List.replicate (-point).toNat '0' ++ digits)) 0 =
        Nat.ofDigitChars 10 digits 0 := by
      rw [← List.append_assoc, ← List.replicate_one, List.replicate_append_replicate,
        Nat.ofDigitChars_append, Nat.ofDigitChars_replicate_zero, Nat.mul_zero]
    rw [leading] at value
    refine value.trans ?_
    congr 2
    rw [List.length_append, List.length_replicate]
    omega
  · next large =>
    dsimp only
    split
    · next short =>
      -- It stands behind all digits, and the zeros between are a power of ten.
      have value := @read_point (digits ++ List.replicate (point.toNat - digits.length) '0')
        ['0'] (by simp [zeros, plain]) rfl
      have trailing : Nat.ofDigitChars 10
          (digits ++ List.replicate (point.toNat - digits.length) '0' ++ ['0']) 0 =
            10 ^ (point.toNat - digits.length + 1) * Nat.ofDigitChars 10 digits 0 := by
        rw [List.append_assoc, ← List.replicate_one, List.replicate_append_replicate,
          Nat.ofDigitChars_append, Nat.ofDigitChars_replicate_zero]
      rw [trailing] at value
      rw [List.length_singleton, value_shift] at value
      refine value.trans ?_
      congr 2
      omega
    · next long =>
      have parts := List.all_eq_true.mp plain
      have value := @read_point (digits.take point.toNat) (digits.drop point.toNat)
        (List.all_eq_true.mpr fun c member => parts c (List.mem_of_mem_take member))
        (List.all_eq_true.mpr fun c member => parts c (List.mem_of_mem_drop member))
      rw [List.take_append_drop] at value
      refine value.trans ?_
      congr 2
      rw [List.length_drop]
      omega

theorem read_withPower {digits : List Char} (nonempty : digits ≠ [])
    (plain : digits.all Char.isDigit = true) (power : Int) :
    (read (withPower digits power)).value =
      Nat.ofDigitChars 10 digits 0 * 10 ^ (power + 1 - digits.length) := by
  obtain ⟨first, rest, rfl⟩ := List.exists_cons_of_ne_nil nonempty
  simp only [List.all_cons, Bool.and_eq_true] at plain
  have first_plain : [first].all Char.isDigit = true := by simp [plain.1]
  let mantissa : List Char := [first] ++ if (first :: rest).length ≤ 1 then [] else '.' :: rest
  have sides : cut '.' mantissa = ([first], rest) := by
    dsimp only [mantissa]
    split
    · next short =>
      obtain rfl : rest = [] := by simpa using short
      exact cut_absent (digits_lack first_plain rfl)
    · exact cut_append (digits_lack first_plain rfl) rest
  have absent : 'e' ∉ mantissa := by
    dsimp only [mantissa]
    split
    · exact digits_lack first_plain rfl
    · simp [digits_lack plain.2, List.ne_of_not_mem_cons (digits_lack first_plain (c := 'e') rfl)]
  have text : withPower (first :: rest) power = mantissa ++ 'e' :: (toString power).toList := rfl
  rw [text, read_power absent, sides, readPower_toString, value_ofDigits first_plain plain.2]
  congr 2
  rw [List.length_cons]
  omega

theorem toDigits_significant (n : Nat) : ∃ zeros, Nat.toDigits 10 n =
    ((Nat.toDigits 10 n).reverse.dropWhile (· == '0')).reverse ++ List.replicate zeros '0' := by
  generalize Nat.toDigits 10 n = digits
  refine ⟨(digits.reverse.takeWhile (· == '0')).length, ?_⟩
  have zeros : digits.reverse.takeWhile (· == '0') =
      List.replicate (digits.reverse.takeWhile (· == '0')).length '0' :=
    List.eq_replicate_iff.mpr ⟨rfl, fun c member => by simpa using List.mem_takeWhile_imp member⟩
  have split := congrArg List.reverse (List.takeWhile_append_dropWhile (p := (· == '0'))
    (l := digits.reverse))
  rwa [List.reverse_append, List.reverse_reverse, zeros, List.reverse_replicate, eq_comm] at split

theorem read_write {d : Decimal} (nonzero : d.coefficient ≠ 0) :
    (read (write compact d).toList).value = d.value := by
  obtain ⟨zeros, digits⟩ := toDigits_significant d.coefficient
  have nonempty := significant_ne_nil nonzero
  have plain := all_isDigit_toDigits d.coefficient
  unfold write
  rw [String.toList_ofList]
  generalize ((Nat.toDigits 10 d.coefficient).reverse.dropWhile (· == '0')).reverse = significant
    at digits nonempty
  rw [digits, List.all_append, Bool.and_eq_true] at plain
  have coefficient : d.coefficient = 10 ^ zeros * Nat.ofDigitChars 10 significant 0 := by
    have value := congrArg (Nat.ofDigitChars 10 · 0) digits
    rwa [Nat.ofDigitChars_ten_toDigits, Nat.ofDigitChars_append,
      Nat.ofDigitChars_replicate_zero] at value
  have counted : (Nat.toDigits 10 d.coefficient).length = significant.length + zeros := by
    rw [digits, List.length_append, List.length_replicate]
  have value : d.value =
      Nat.ofDigitChars 10 significant 0 * 10 ^ ((zeros : Int) + d.exponent) := by
    rw [Decimal.value, ← value_shift, ← coefficient]
  rw [value, counted]
  split
  · rw [read_placePoint plain.1]
    congr 2
    omega
  · rw [read_withPower nonempty plain.1]
    congr 2
    omega

/-- The text of a single's magnitude is rounded to the pattern of the single, less the sign. -/
theorem roundBits_write {x : Single} {negative : Bool} {m : Nat} {e : Int}
    (found : x.datum = .finite negative m e) :
    (read (if m = 0 then "0.0" else write compact (shortest Binary.single m e)).toList).roundBits
      Binary.single = x.bits.toNat % Binary.single.signBit := by
  split
  · next zero =>
    have none_left : read "0.0".toList = ⟨0, -1⟩ := by decide
    apply roundBits_of_value found
    rw [none_left, zero, value, Nat.cast_zero, zero_mul, zero_mul]
  · next nonzero =>
    rw [roundBits_congr (read_write (shortest_ne_zero _ nonzero e)), roundBits_shortest]
    exact roundBits_of_value found (value_ofDyadic m e)

def nearest? (d : Decimal) : Option ℚ :=
  (Binary.single.datum (d.roundBits Binary.single)).rational?

theorem nearest_write {x : Single} {negative : Bool} {m : Nat} {e : Int}
    (found : x.datum = .finite negative m e) :
    (read (if m = 0 then "0.0" else write compact (shortest Binary.single m e)).toList).nearest? =
      some ((m : ℚ) * 2 ^ e) := by
  rw [nearest?, roundBits_write found, (Binary.Format.datum_unsigned found).1]
  rfl

theorem magnitude_unsigned (m : Nat) (e : Int) (rest : List Char) :
    (if m = 0 then "0.0" else write compact (shortest Binary.single m e)).toList ≠ '-' :: rest := by
  intro same
  obtain ⟨c, _, spelled, digit, _⟩ := (same ▸ magnitude_written _ _ m e).numeral
  cases spelled
  exact absurd digit (by decide)

end Decimal

namespace Single

def read : List Char → Single
  | '-' :: digits =>
    ⟨UInt32.ofNat (Binary.single.signBit + (Decimal.read digits).roundBits Binary.single)⟩
  | digits => ⟨UInt32.ofNat ((Decimal.read digits).roundBits Binary.single)⟩

theorem read_unsigned {text : List Char} (unsigned : ∀ rest, text ≠ '-' :: rest) :
    read text = ⟨UInt32.ofNat ((Decimal.read text).roundBits Binary.single)⟩ := by
  unfold read
  split
  · exact absurd rfl (unsigned _)
  · rfl

theorem text_finite {x : Single} {negative : Bool} {m : Nat} {e : Int}
    (found : x.datum = .finite negative m e) : x.text.toList =
      (if Binary.single.signBit ≤ x.bits.toNat then ['-'] else []) ++
        (if m = 0 then "0.0" else Decimal.write Decimal.compact (Decimal.shortest Binary.single m e)).toList := by
  have below : x.bits.toNat < 4294967296 := x.bits.toNat_lt
  have half : Binary.single.signBit = 2147483648 := rfl
  have sign : negative = decide (Binary.single.signBit ≤ x.bits.toNat) := by
    rw [(Binary.Format.datum_pattern found).1, half, decide_eq_decide]
    omega
  rw [text, found, Decimal.writeDatum, String.toList_append, sign]
  congr 1
  split <;> simp_all

/-- The text of a finite single is read back as the single, bit by bit, with the sign of zero. -/
theorem read_text {x : Single} (finite : x.isFinite = true) : read x.text.toList = x := by
  obtain ⟨negative, m, e, datum⟩ := exists_datum finite
  have pattern := Decimal.roundBits_write datum
  have unsigned := Decimal.magnitude_unsigned m e
  have below : x.bits.toNat < 4294967296 := x.bits.toNat_lt
  have half : Binary.single.signBit = 2147483648 := rfl
  rw [text_finite datum]
  generalize (if m = 0 then "0.0"
    else Decimal.write Decimal.compact (Decimal.shortest Binary.single m e)) = digits
    at pattern unsigned
  rw [half] at pattern ⊢
  split
  · have whole : 2147483648 + x.bits.toNat % 2147483648 = x.bits.toNat := by omega
    rw [List.singleton_append, read, pattern, half, whole, UInt32.ofNat_toNat]
  · have whole : x.bits.toNat % 2147483648 = x.bits.toNat := by omega
    rw [List.nil_append, read_unsigned unsigned, pattern, whole, UInt32.ofNat_toNat]

end Single
end ArrayQuery
