import ArrayQuery.Proofs.Decimals

/-! The fewest digits that read back. Decimals that are rounded to one single have no gap between them, so
that where any decimal of so many digits is among them, one of the two next to the number itself is. -/

set_option autoImplicit false
namespace ArrayQuery.Decimal

/-- Whether a number is written with so many digits, and zeros before or behind them. -/
def Fits (j : Nat) (r : ℚ) : Prop :=
  ∃ (c : Nat) (p : Int), c < 10 ^ j ∧ r = c * 10 ^ p

theorem Fits.mono {j j' : Nat} {r : ℚ} (fits : Fits j r) (more : j ≤ j') : Fits j' r := by
  obtain ⟨c, p, below, rfl⟩ := fits
  exact ⟨c, p, below.trans_le (Nat.pow_le_pow_right (by decide) more), rfl⟩

theorem Fits.multiple {j : Nat} {r : ℚ} (fits : Fits j r) (positive : 0 < j) (g : Int) :
    (∃ t : Nat, r = t * 10 ^ g) ∨ r < (10 ^ (j - 1) : Nat) * 10 ^ g := by
  obtain ⟨c, p, below, rfl⟩ := fits
  rcases le_or_gt g p with coarse | fine
  · refine .inl ⟨10 ^ (p - g).toNat * c, ?_⟩
    rw [value_shift]
    congr 2
    omega
  · refine .inr ?_
    have power (i : Nat) (q : Int) : ((10 ^ i : Nat) : ℚ) * 10 ^ q = 10 ^ (i + q) := by
      rw [zpow_add₀ (by norm_num), zpow_natCast]
      push_cast
      rfl
    calc (c : ℚ) * 10 ^ p < (10 ^ j : Nat) * 10 ^ p :=
          mul_lt_mul_of_pos_right (Nat.cast_lt.mpr below) (zpow_pos (by norm_num) p)
      _ = 10 ^ (j + p) := power j p
      _ ≤ 10 ^ ((j - 1 : Nat) + g) := zpow_le_zpow_right₀ (by norm_num) (by omega)
      _ = (10 ^ (j - 1) : Nat) * 10 ^ g := (power (j - 1) g).symm

theorem scaled_le_scaled {t u : Nat} {p : Int} : (t : ℚ) * 10 ^ p ≤ u * 10 ^ p ↔ t ≤ u := by
  rw [mul_le_mul_iff_left₀ (zpow_pos (by norm_num) p), Nat.cast_le]

section Neighbours

variable {exact : Decimal} {k : Nat}

theorem multiple_le_value {t : Nat} :
    (t : ℚ) * 10 ^ (exact.exponent + k) ≤ exact.value ↔ t ≤ exact.coefficient / 10 ^ k := by
  rw [add_comm, ← value_shift, value, scaled_le_scaled, Nat.le_div_iff_mul_le (Nat.pow_pos (by decide)),
    Nat.mul_comm]

theorem value_below_le : (exact.below k).value ≤ exact.value :=
  multiple_le_value.mpr (Nat.le_refl _)

theorem value_lt_above : exact.value < (exact.above k).value :=
  not_le.mp fun within => Nat.not_succ_le_self _ (multiple_le_value.mp within)

theorem quotient_lt (less : k ≤ digitCount exact.coefficient) :
    exact.coefficient / 10 ^ k < 10 ^ (digitCount exact.coefficient - k) := by
  rw [Nat.div_lt_iff_lt_mul (Nat.pow_pos (by decide)), ← Nat.pow_add, Nat.sub_add_cancel less]
  exact lt_pow_digitCount _

theorem fits_below (less : k ≤ digitCount exact.coefficient) :
    Fits (digitCount exact.coefficient - k) (exact.below k).value :=
  ⟨_, _, quotient_lt less, rfl⟩

/-- The upper neighbour may be a power of ten, which has only one digit that is not a zero. -/
theorem fits_above (less : k < digitCount exact.coefficient) :
    Fits (digitCount exact.coefficient - k) (exact.above k).value := by
  rcases Nat.lt_or_eq_of_le (Nat.succ_le_of_lt (quotient_lt less.le)) with small | power
  · exact ⟨_, _, small, rfl⟩
  · refine ⟨1, (digitCount exact.coefficient - k : Nat) + (exact.exponent + k),
      Nat.one_lt_pow (by omega) (by decide), ?_⟩
    have coefficient : (exact.above k).coefficient = 10 ^ (digitCount exact.coefficient - k) * 1 := by
      rw [Nat.mul_one]
      exact power
    rw [value, coefficient, value_shift]
    rfl

/-- A number of so many digits does not lie between the number and its neighbour of as many. -/
theorem Fits.apart {j : Nat} {r : ℚ} (nonzero : exact.coefficient ≠ 0) (fits : Fits j r) (positive : 0 < j)
    (parts : j + k = digitCount exact.coefficient) :
    (r ≤ exact.value → r ≤ (exact.below k).value) ∧ (exact.value < r → (exact.above k).value ≤ r) := by
  -- The lower neighbour keeps the first digit.
  have first : 10 ^ (j - 1) ≤ exact.coefficient / 10 ^ k := by
    rw [Nat.le_div_iff_mul_le (Nat.pow_pos (by decide)), ← Nat.pow_add]
    have one_less : j - 1 + k = digitCount exact.coefficient - 1 := by omega
    rw [one_less]
    exact pow_digitCount_le nonzero
  rcases fits.multiple positive (exact.exponent + k) with ⟨t, rfl⟩ | small
  · rw [← not_le, multiple_le_value]
    exact ⟨fun within => scaled_le_scaled.mpr within,
      fun beyond => scaled_le_scaled.mpr (Nat.lt_of_not_le beyond)⟩
  · have within := multiple_le_value.mpr first
    exact ⟨fun _ => small.le.trans (scaled_le_scaled.mpr first),
      fun beyond => absurd (small.trans_le within) beyond.not_gt⟩

end Neighbours

/-! ## What is left when digits are dropped -/

theorem below_zero (exact : Decimal) : exact.below 0 = exact := by
  rw [below, Nat.pow_eq, Nat.pow_zero, Nat.div_one, Int.natCast_zero, Int.add_zero]

theorem dropDigits_neighbour (reads : Decimal → Bool) (exact : Decimal) (most : Nat) :
    ∃ k ≤ most, (dropDigits reads exact most = exact.below k ∨ dropDigits reads exact most = exact.above k) ∧
      ∀ more, k < more → more ≤ most → ¬reads (exact.below more) ∧ ¬reads (exact.above more) := by
  induction most with
  | zero => exact ⟨0, Nat.le_refl 0, .inl exact.below_zero.symm, fun _ _ _ => by omega⟩
  | succ most ih =>
    simp only [dropDigits]
    split
    · exact ⟨most + 1, Nat.le_refl _, .inl rfl, fun _ _ _ => by omega⟩
    · next no_low =>
      split
      · exact ⟨most + 1, Nat.le_refl _, .inr rfl, fun _ _ _ => by omega⟩
      · next no_high =>
        obtain ⟨k, within, neighbour, none_more⟩ := ih
        refine ⟨k, Nat.le_succ_of_le within, neighbour, fun more beyond upTo => ?_⟩
        rcases Nat.lt_or_eq_of_le upTo with lower | rfl
        · exact none_more more beyond (Nat.le_of_lt_succ lower)
        · exact ⟨fun low => no_low (by simp [low, no_high]), no_high⟩

/-- No decimal that passes a test without gaps has fewer digits than what is left. -/
theorem dropDigits_fewest {reads : Decimal → Bool} {exact : Decimal} (nonzero : exact.coefficient ≠ 0)
    (passes : reads exact)
    (convex : ∀ low d high : Decimal, reads low → reads high → low.value ≤ d.value → d.value ≤ high.value →
      reads d)
    {d : Decimal} (accepted : reads d) {j : Nat} (positive : 0 < j) (fits : Fits j d.value) :
    Fits j (dropDigits reads exact (digitCount exact.coefficient - 1)).value := by
  obtain ⟨k, within, neighbour, none_more⟩ :=
    dropDigits_neighbour reads exact (digitCount exact.coefficient - 1)
  have counted := digitCount_pos exact.coefficient
  rcases Nat.lt_or_ge j (digitCount exact.coefficient - k) with fewer | enough
  · -- A neighbour with as many digits as the decimal would have been taken.
    obtain ⟨more, parts⟩ : ∃ more, j + more = digitCount exact.coefficient :=
      ⟨digitCount exact.coefficient - j, by omega⟩
    have apart := fits.apart nonzero positive parts
    obtain ⟨no_low, no_high⟩ := none_more more (by omega) (by omega)
    rcases le_or_gt d.value exact.value with within | beyond
    · exact absurd (convex _ _ _ accepted passes (apart.1 within) value_below_le) no_low
    · exact absurd (convex _ _ _ passes accepted value_lt_above.le (apart.2 beyond)) no_high
  · rcases neighbour with left | left <;> rw [left]
    · exact (fits_below (by omega)).mono enough
    · exact (fits_above (by omega)).mono enough

theorem shortest_fewest {m : Nat} (nonzero : m ≠ 0) (e : Int) {d : Decimal}
    (same : d.roundBits Binary.single = (ofDyadic m e).roundBits Binary.single) {j : Nat} (positive : 0 < j)
    (fits : Fits j d.value) : Fits j (shortest Binary.single m e).value := by
  have exact_nonzero : (ofDyadic m e).coefficient ≠ 0 := fun none_left => by
    have vanishes := value_eq_zero.mpr none_left
    rw [value_ofDyadic, mul_eq_zero, Nat.cast_eq_zero] at vanishes
    exact vanishes.elim nonzero (zpow_ne_zero e two_ne_zero)
  let reads (d : Decimal) : Bool := d.roundBits Binary.single == (ofDyadic m e).roundBits Binary.single
  have convex (low d high : Decimal) (first : reads low) (last : reads high) (above : low.value ≤ d.value)
      (below : d.value ≤ high.value) : reads d := by
    rw [beq_iff_eq, roundBits_eq_iff] at *
    exact first.convex last above below
  have passes : reads (ofDyadic m e) := beq_self_eq_true _
  have accepted : reads d := beq_iff_eq.mpr same
  exact dropDigits_fewest exact_nonzero passes convex accepted positive fits

def significantCount (n : Nat) : Nat :=
  ((Nat.toDigits 10 n).reverse.dropWhile (· == '0')).length

theorem ofDigitChars_last {digits : List Char} {c : Char} (digit : c.isDigit = true) (other : c ≠ '0') :
    Nat.ofDigitChars 10 (digits ++ [c]) 0 % 10 ≠ 0 := by
  have bounds := Char.isDigit_iff_toNat.mp digit
  have apart : c.toNat ≠ '0'.toNat := fun same => other (Char.toNat_inj.mp same)
  have ten : '9'.toNat = '0'.toNat + 9 := rfl
  rw [Nat.ofDigitChars_append, Nat.ofDigitChars_cons, Nat.ofDigitChars_nil]
  omega

theorem significant_parts {n : Nat} (nonzero : n ≠ 0) : ∃ zeros s, n = 10 ^ zeros * s ∧ s % 10 ≠ 0 ∧
    ∀ j, s < 10 ^ j ↔ significantCount n ≤ j := by
  obtain ⟨zeros, digits⟩ := toDigits_significant n
  have plain := all_isDigit_toDigits n
  have nonempty := significant_ne_nil nonzero
  have ended := List.head_dropWhile_not (· == '0') (mt List.reverse_eq_nil_iff.mpr nonempty)
  have counted : digitCount n = significantCount n + zeros := by
    rw [digitCount, digits, List.length_append, List.length_reverse, List.length_replicate, significantCount]
  have value := congrArg (Nat.ofDigitChars 10 · 0) digits
  simp only [Nat.ofDigitChars_ten_toDigits, Nat.ofDigitChars_append, Nat.ofDigitChars_replicate_zero] at value
  refine ⟨zeros, _, value, ?_, fun j => ?_⟩
  · rw [digits, List.all_append, Bool.and_eq_true] at plain
    generalize (Nat.toDigits 10 n).reverse.dropWhile (· == '0') = kept at *
    obtain ⟨c, rest, rfl⟩ := List.exists_cons_of_ne_nil (mt List.reverse_eq_nil_iff.mpr nonempty)
    rw [List.reverse_cons]
    rw [List.all_reverse, List.all_cons, Bool.and_eq_true] at plain
    exact ofDigitChars_last plain.1.1 (beq_eq_false_iff_ne.mp ended)
  · have whole := digitCount_le_iff nonzero (k := zeros + j)
    rw [counted, Nat.pow_eq, Nat.pow_add, Nat.add_comm, Nat.add_le_add_iff_left] at whole
    rw [whole]
    conv_rhs => lhs; rw [value]
    exact (Nat.mul_lt_mul_left (Nat.pow_pos (by decide))).symm

theorem le_of_scaled {s c : Nat} {q p : Int} (ended : s % 10 ≠ 0) (same : (s : ℚ) * 10 ^ q = c * 10 ^ p) :
    s ≤ c := by
  have ten : (10 : ℚ) ≠ 0 := by norm_num
  rcases le_or_gt p q with finer | coarser
  · have shift := value_shift s (q - p).toNat p
    rw [Int.toNat_of_nonneg (by omega), Int.sub_add_cancel, same] at shift
    rw [← Nat.cast_inj.mp (mul_right_cancel₀ (zpow_ne_zero p ten) shift)]
    exact Nat.le_mul_of_pos_left s (Nat.pow_pos (by decide))
  · -- A multiple of ten would end in zero.
    obtain ⟨k, more⟩ : ∃ k : Nat, p = (k + 1 : Nat) + q := ⟨(p - q - 1).toNat, by omega⟩
    have shift := value_shift c (k + 1) q
    rw [← more, ← same] at shift
    rw [← Nat.cast_inj.mp (mul_right_cancel₀ (zpow_ne_zero q ten) shift), Nat.pow_succ'] at ended
    exact absurd (Nat.mul_assoc 10 _ _ ▸ Nat.mul_mod_right 10 _) ended

theorem fits_iff {j : Nat} {d : Decimal} : Fits j d.value ↔ significantCount d.coefficient ≤ j := by
  by_cases zero : d.coefficient = 0
  · rw [value_eq_zero.mpr zero, zero]
    exact ⟨fun _ => Nat.zero_le j, fun _ => ⟨0, 0, Nat.pow_pos (by decide), by norm_num⟩⟩
  obtain ⟨zeros, s, parts, ended, counted⟩ := significant_parts zero
  have value : d.value = s * 10 ^ ((zeros : Int) + d.exponent) := by
    rw [Decimal.value, ← value_shift, ← parts]
  rw [← counted, value]
  constructor
  · rintro ⟨c, p, below, same⟩
    exact (le_of_scaled ended same).trans_lt below
  · exact fun below => ⟨s, _, below, rfl⟩

end ArrayQuery.Decimal
