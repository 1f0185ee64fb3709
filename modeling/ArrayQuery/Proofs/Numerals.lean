import ArrayQuery.Decimal.Text
import ArrayQuery.Proofs.Lexemes
import Mathlib.Data.List.TakeWhile

/-! The texts of integers and of finite singles are numerals of the kernel language, apart from a
minus sign in front. -/

set_option autoImplicit false
namespace ArrayQuery

theorem Single.exists_datum {x : Single} (finite : x.isFinite = true) :
    ∃ negative m e, x.datum = .finite negative m e := by
  unfold isFinite at finite
  split at finite
  · next negative m e datum => exact ⟨negative, m, e, datum⟩
  · exact absurd finite Bool.false_ne_true

namespace Kernel

theorem Scan.feed_append (s : Scan) (text rest : List Char) :
    s.feed (text ++ rest) = (s.feed text).bind fun t => t.feed rest := by
  simp [Scan.feed]

theorem feed_fraction (read digits : List Char) (plain : digits.all Char.isDigit = true) :
    (Scan.fraction read).feed digits = some (.fraction (digits.reverse ++ read)) :=
  Scan.feed_all .fraction (fun _ _ fits => if_pos fits) read digits plain

theorem feed_exponent (read digits : List Char) (plain : digits.all Char.isDigit = true) :
    (Scan.exponent read).feed digits = some (.exponent (digits.reverse ++ read)) :=
  Scan.feed_all .exponent (fun _ _ fits => if_pos fits) read digits plain

theorem isNumeral_whole (digits : List Char) (nonempty : digits ≠ [])
    (plain : digits.all Char.isDigit = true) {suffix : Char}
    (known : suffix = 'i' ∨ suffix = 'u' ∨ suffix = 'f') : IsNumeral (digits ++ [suffix]) := by
  cases digits with
  | nil => exact absurd rfl nonempty
  | cons c digits =>
    simp only [List.all_cons, Bool.and_eq_true] at plain
    refine ⟨c, digits ++ [suffix], rfl, plain.1, ?_⟩
    rw [Scan.feed_append, feed_digits [c] digits plain.2]
    rcases known with rfl | rfl | rfl <;> simp [Scan.feed, Scan.extend, Char.isDigit]

theorem isNumeral_point (whole fraction : List Char) (nonempty : whole ≠ [])
    (wholePlain : whole.all Char.isDigit = true)
    (fractionPlain : fraction.all Char.isDigit = true) :
    IsNumeral (whole ++ '.' :: (fraction ++ ['f'])) := by
  cases whole with
  | nil => exact absurd rfl nonempty
  | cons c whole =>
    simp only [List.all_cons, Bool.and_eq_true] at wholePlain
    refine ⟨c, whole ++ '.' :: (fraction ++ ['f']), rfl, wholePlain.1, ?_⟩
    have point : ∀ read rest, (Scan.whole read).feed ('.' :: rest) =
        (Scan.fraction ('.' :: read)).feed rest := fun _ _ => by
      simp [Scan.feed, Scan.extend, Char.isDigit]
    rw [Scan.feed_append, feed_digits [c] whole wholePlain.2, Option.bind_some, point,
      Scan.feed_append, feed_fraction _ fraction fractionPlain]
    simp [Scan.feed, Scan.extend, Char.isDigit]

theorem feed_mantissa (c : Char) {fraction : List Char}
    (fractional : fraction = [] ∨ ∃ digits, fraction = '.' :: digits ∧
      digits.all Char.isDigit = true) (rest : List Char) :
    (Scan.whole [c]).feed (fraction ++ 'e' :: rest) =
      (Scan.power ('e' :: (fraction.reverse ++ [c]))).feed rest := by
  rcases fractional with rfl | ⟨digits, rfl, plain⟩
  · simp [Scan.feed, Scan.extend, Char.isDigit]
  · have point : (Scan.whole [c]).feed ('.' :: digits ++ 'e' :: rest) =
        (Scan.fraction ['.', c]).feed (digits ++ 'e' :: rest) := by
      simp [Scan.feed, Scan.extend, Char.isDigit]
    rw [point, Scan.feed_append, feed_fraction _ digits plain]
    simp [Scan.feed, Scan.extend, Char.isDigit]

theorem feed_power {sign power : List Char} (signed : sign = [] ∨ sign = ['-']) (nonempty : power ≠ [])
    (plain : power.all Char.isDigit = true) (read : List Char) :
    (Scan.power read).feed (sign ++ (power ++ ['f'])) =
      some (.suffixed ('f' :: (power.reverse ++ (sign.reverse ++ read)))) := by
  cases power with
  | nil => exact absurd rfl nonempty
  | cons d power =>
    simp only [List.all_cons, Bool.and_eq_true] at plain
    have digits : ∀ read, (Scan.exponent (d :: read)).feed (power ++ ['f']) =
        some (.suffixed ('f' :: (power.reverse ++ d :: read))) := by
      intro read
      rw [Scan.feed_append, feed_exponent _ power plain.2]
      simp [Scan.feed, Scan.extend, Char.isDigit]
    rcases signed with rfl | rfl
    · have first : (Scan.power read).feed (d :: (power ++ ['f'])) =
          (Scan.exponent (d :: read)).feed (power ++ ['f']) := by
        simp [Scan.feed, Scan.extend, plain.1]
      simpa using first.trans (digits read)
    · have first : (Scan.power read).feed ('-' :: d :: (power ++ ['f'])) =
          (Scan.exponent (d :: '-' :: read)).feed (power ++ ['f']) := by
        simp [Scan.feed, Scan.extend, plain.1]
      simpa using first.trans (digits ('-' :: read))

theorem isNumeral_power {c : Char} (digit : c.isDigit = true) {fraction sign power : List Char}
    (fractional : fraction = [] ∨ ∃ digits, fraction = '.' :: digits ∧
      digits.all Char.isDigit = true)
    (signed : sign = [] ∨ sign = ['-']) (nonempty : power ≠ [])
    (plain : power.all Char.isDigit = true) :
    IsNumeral (c :: (fraction ++ 'e' :: (sign ++ (power ++ ['f'])))) := by
  refine ⟨c, fraction ++ 'e' :: (sign ++ (power ++ ['f'])), rfl, digit, ?_⟩
  rw [feed_mantissa c fractional, feed_power signed nonempty plain]
  simp

end Kernel

namespace Decimal

theorem all_isDigit_toDigits (n : Nat) : (Nat.toDigits 10 n).all Char.isDigit = true :=
  List.all_eq_true.mpr fun _ member => Nat.isDigit_of_mem_toDigits (by decide) (by decide) member

theorem int_text (n : Int) : ∃ sign digits, (toString n).toList = sign ++ digits ∧
    (sign = [] ∨ sign = ['-']) ∧ digits ≠ [] ∧ digits.all Char.isDigit = true := by
  have digits : ∀ k : Nat, k.repr.toList ≠ [] ∧ k.repr.toList.all Char.isDigit = true := fun k => by
    rw [Nat.toList_repr]
    exact ⟨Nat.toDigits_ne_nil, all_isDigit_toDigits k⟩
  simp only [Int.toString_eq_repr, Int.repr_eq_if]
  split
  · exact ⟨[], _, (List.nil_append _).symm, .inl rfl, digits _⟩
  · refine ⟨['-'], (-n).toNat.repr.toList, ?_, .inr rfl, digits _⟩
    rw [String.toList_append]
    rfl

theorem digitCount_pos (n : Nat) : 0 < digitCount n := by
  rw [digitCount, List.length_pos_iff]
  exact Nat.toDigits_ne_nil

theorem lt_pow_digitCount (n : Nat) : n < Nat.pow 10 (digitCount n) :=
  (Nat.length_toDigits_le_iff (by decide) (digitCount_pos n)).mp (Nat.le_refl _)

theorem digitCount_le_iff {n : Nat} (nonzero : n ≠ 0) {k : Nat} : digitCount n ≤ k ↔ n < Nat.pow 10 k := by
  cases k with
  | zero =>
    have counted := digitCount_pos n
    rw [Nat.pow_eq, Nat.pow_zero]
    omega
  | succ k => exact Nat.length_toDigits_le_iff (by decide) (Nat.succ_pos k)

theorem pow_digitCount_le {n : Nat} (positive : n ≠ 0) : Nat.pow 10 (digitCount n - 1) ≤ n := by
  apply Nat.le_of_not_lt
  intro less
  have short := (digitCount_le_iff positive).mpr less
  have counted := digitCount_pos n
  omega

theorem dropDigits_ne_zero (reads : Decimal → Bool) {exact : Decimal} {k : Nat}
    (bound : Nat.pow 10 k ≤ exact.coefficient) : (dropDigits reads exact k).coefficient ≠ 0 := by
  induction k with
  | zero =>
    have positive : 1 ≤ exact.coefficient := bound
    simp only [dropDigits]
    omega
  | succ k ih =>
    -- So few digits are dropped that the first one stays.
    have kept : exact.coefficient / Nat.pow 10 (k + 1) ≠ 0 :=
      Nat.ne_of_gt (Nat.div_pos bound (Nat.pow_pos (by decide)))
    have shorter : Nat.pow 10 k ≤ exact.coefficient :=
      Nat.le_trans (Nat.pow_le_pow_right (by decide) (Nat.le_succ k)) bound
    simp only [dropDigits]
    split
    · exact kept
    · split
      · exact Nat.succ_ne_zero _
      · exact ih shorter

theorem shortest_ne_zero (f : Binary.Format) {significand : Nat} (positive : significand ≠ 0)
    (exponent : Int) : (shortest f significand exponent).coefficient ≠ 0 := by
  have exact_ne : (ofDyadic significand exponent).coefficient ≠ 0 := by
    unfold ofDyadic
    split <;> exact Nat.mul_ne_zero positive (Nat.ne_of_gt (Nat.pow_pos (by decide)))
  exact dropDigits_ne_zero _ (pow_digitCount_le exact_ne)

theorem significant_ne_nil {n : Nat} (positive : n ≠ 0) :
    ((Nat.toDigits 10 n).reverse.dropWhile (· == '0')).reverse ≠ [] := by
  intro none_left
  have zeros : ∀ c ∈ Nat.toDigits 10 n, c = '0' := by
    have dropped := List.dropWhile_eq_nil_iff.mp (List.reverse_eq_nil_iff.mp none_left)
    intro c member
    exact beq_iff_eq.mp (dropped c (List.mem_reverse.mpr member))
  have value : Nat.ofDigitChars 10 (Nat.toDigits 10 n) 0 = 0 := by
    rw [List.eq_replicate_iff.mpr ⟨rfl, zeros⟩, Nat.ofDigitChars_replicate_zero, Nat.mul_zero]
  rw [Nat.ofDigitChars_ten_toDigits] at value
  exact positive value

def IsDigits (text : List Char) : Prop :=
  text ≠ [] ∧ text.all Char.isDigit = true

/-- The forms in which a number is written: digits on both sides of a point; or one digit, with digits behind
a point or none, and a power of ten, which may be negative. -/
inductive IsWritten : List Char → Prop
  | positional {whole fraction : List Char} (before : IsDigits whole) (behind : IsDigits fraction) :
      IsWritten (whole ++ '.' :: fraction)
  | scientific {first : Char} {rest sign power : List Char} (digit : first.isDigit = true)
      (fractional : rest = [] ∨ ∃ digits, rest = '.' :: digits ∧ IsDigits digits)
      (signed : sign = [] ∨ sign = ['-']) (exponent : IsDigits power) :
      IsWritten (first :: (rest ++ 'e' :: (sign ++ power)))

theorem IsWritten.numeral {text : List Char} (written : IsWritten text) : Kernel.IsNumeral (text ++ ['f']) := by
  cases written with
  | positional before behind =>
    have text := Kernel.isNumeral_point _ _ before.1 before.2 behind.2
    simpa using text
  | scientific digit fractional signed exponent =>
    have text := Kernel.isNumeral_power digit
      (fractional.imp_right fun ⟨digits, spelled, digital⟩ => ⟨digits, spelled, digital.2⟩)
      signed exponent.1 exponent.2
    simpa using text

theorem placePoint_written {digits : List Char} (digital : IsDigits digits) (point : Int) :
    IsWritten (placePoint digits point) := by
  obtain ⟨nonempty, plain⟩ := digital
  have zeros : ∀ k, (List.replicate k '0').all Char.isDigit = true := by
    intro k
    simp [List.all_replicate, Char.isDigit]
  have zero : IsDigits ['0'] := ⟨by decide, by decide⟩
  unfold placePoint
  split
  · exact .positional zero ⟨by simp [nonempty], by simp [zeros, plain]⟩
  · next positive =>
    dsimp only
    split
    · exact .positional ⟨by simp [nonempty], by simp [zeros, plain]⟩ zero
    · -- The point is among the digits: some are before it and some behind.
      have each := List.all_eq_true.mp plain
      refine .positional ⟨?_, List.all_eq_true.mpr fun c member => each c (List.mem_of_mem_take member)⟩
        ⟨?_, List.all_eq_true.mpr fun c member => each c (List.mem_of_mem_drop member)⟩
      · simp only [ne_eq, List.take_eq_nil_iff, nonempty, or_false]
        omega
      · simp only [ne_eq, List.drop_eq_nil_iff]
        omega

theorem withPower_written {digits : List Char} (digital : IsDigits digits) (power : Int) :
    IsWritten (withPower digits power) := by
  obtain ⟨nonempty, plain⟩ := digital
  obtain ⟨c, digits, rfl⟩ := List.exists_cons_of_ne_nil nonempty
  simp only [List.all_cons, Bool.and_eq_true] at plain
  have fraction : (if (c :: digits).length ≤ 1 then [] else '.' :: digits) = [] ∨
      ∃ rest, (if (c :: digits).length ≤ 1 then [] else '.' :: digits) = '.' :: rest ∧ IsDigits rest := by
    split
    · exact .inl rfl
    · next several => exact .inr ⟨digits, rfl, by simpa using several, plain.2⟩
  obtain ⟨sign, tail, spelled, signed, some_digit, digital⟩ := int_text power
  have text := IsWritten.scientific plain.1 fraction signed ⟨some_digit, digital⟩
  rw [← spelled] at text
  simpa [withPower] using text

theorem write_written (style : Style) {d : Decimal} (positive : d.coefficient ≠ 0) :
    IsWritten (write style d).toList := by
  have digital : IsDigits ((Nat.toDigits 10 d.coefficient).reverse.dropWhile (· == '0')).reverse := by
    refine ⟨significant_ne_nil positive, ?_⟩
    rw [List.all_reverse]
    refine List.all_eq_true.mpr fun c member => ?_
    have kept := (List.dropWhile_sublist _).mem member
    exact List.all_eq_true.mp (all_isDigit_toDigits _) c (List.mem_reverse.mp kept)
  unfold write
  rw [String.toList_ofList]
  split
  · exact placePoint_written digital _
  · exact withPower_written digital _

theorem magnitude_written (style : Style) (f : Binary.Format) (m : Nat) (e : Int) :
    IsWritten (if m = 0 then "0.0" else write style (shortest f m e)).toList := by
  have zero : IsDigits ['0'] := ⟨by decide, by decide⟩
  split
  · exact .positional zero zero
  · next positive => exact write_written style (shortest_ne_zero f positive e)

end Decimal

namespace Kernel

theorem isWord_append {name rest : String} (word : isWord name = true)
    (more : rest.toList.all isWordChar = true) : isWord (name ++ rest) = true := by
  unfold isWord at word ⊢
  rw [String.toList_append]
  cases spelled : name.toList with
  | nil => simp [spelled] at word
  | cons c cs =>
    simp only [spelled, Bool.and_eq_true] at word
    simp [word.1, word.2, more, List.all_append]

theorem digits_injective {n m : Nat} (same : (toString n).toList = (toString m).toList) :
    n = m := by
  simp only [Nat.toString_eq_repr, Nat.toList_repr] at same
  have values := congrArg (fun digits => Nat.ofDigitChars 10 digits 0) same
  simpa only [Nat.ofDigitChars_ten_toDigits] using values

theorem digits_wordChars (n : Nat) : (toString n).toList.all isWordChar = true := by
  rw [Nat.toString_eq_repr, Nat.toList_repr]
  refine List.all_eq_true.mpr fun c member => ?_
  have digit := List.all_eq_true.mp (Decimal.all_isDigit_toDigits n) c member
  simp [isWordChar, Char.isAlphanum, digit]

def IsSignedNumeral (text : List Char) : Prop :=
  ∃ sign digits, text = sign ++ digits ∧ (sign = [] ∨ sign = ['-']) ∧ IsNumeral digits

theorem int_isSignedNumeral (n : Int) : IsSignedNumeral ((toString n).toList ++ ['i']) := by
  obtain ⟨sign, digits, spelled, signed, nonempty, plain⟩ := Decimal.int_text n
  refine ⟨sign, digits ++ ['i'], ?_, signed, isNumeral_whole digits nonempty plain (.inl rfl)⟩
  rw [spelled, List.append_assoc]

theorem nat_isNumeral (n : Nat) : IsNumeral ((toString n).toList ++ ['u']) := by
  rw [Nat.toString_eq_repr, Nat.toList_repr]
  exact isNumeral_whole _ Nat.toDigits_ne_nil (Decimal.all_isDigit_toDigits n) (.inr (.inl rfl))

theorem single_isSignedNumeral {x : Single} (finite : x.isFinite = true) :
    IsSignedNumeral (x.text.toList ++ ['f']) := by
  obtain ⟨negative, significand, exponent, datum⟩ := Single.exists_datum finite
  rw [Single.text, datum]
  simp only [Decimal.writeDatum, String.toList_append]
  refine ⟨(if negative then "-" else "").toList, _, List.append_assoc .., ?_,
    (Decimal.magnitude_written _ _ significand exponent).numeral⟩
  cases negative
  · exact .inl rfl
  · exact .inr rfl

end Kernel
end ArrayQuery
