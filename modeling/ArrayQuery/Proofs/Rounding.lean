import ArrayQuery.Proofs.Patterns
import Mathlib.Tactic.Linarith

/-! Rounding to a binary format. Patterns stand for numbers in their own order, so that the one nearest to a
number is one of two neighbours; of two that are equally near it is the even one, and there is no other. That
is the pattern to which a format rounds, so that rounding depends on the value of a ratio alone and leaves what
the format holds as it is. -/

set_option autoImplicit false
namespace ArrayQuery.Binary

theorem abs_sub_le_above {u v : ℚ} (less : u < v) (r : ℚ) : |r - v| ≤ |r - u| ↔ u + v ≤ 2 * r := by
  constructor
  · intro nearer
    rcases abs_cases (r - v) with ⟨first, _⟩ | ⟨first, _⟩ <;>
      rcases abs_cases (r - u) with ⟨second, _⟩ | ⟨second, _⟩ <;> linarith
  · intro beyond
    rw [abs_le]
    have side := le_abs_self (r - u)
    constructor <;> linarith

theorem abs_sub_le_below {u v : ℚ} (less : u < v) (r : ℚ) : |r - u| ≤ |r - v| ↔ 2 * r ≤ u + v := by
  have mirrored := abs_sub_le_above (neg_lt_neg less) (-r)
  rw [← abs_neg (-r - -u), ← abs_neg (-r - -v)] at mirrored
  have sides : -(-r - -u) = r - u ∧ -(-r - -v) = r - v := ⟨by ring, by ring⟩
  rw [sides.1, sides.2] at mirrored
  rw [mirrored]
  constructor <;> intro <;> linarith

theorem abs_sub_eq {u v : ℚ} (less : u < v) (r : ℚ) : |r - u| = |r - v| ↔ u + v = 2 * r := by
  rw [le_antisymm_iff, abs_sub_le_above less, abs_sub_le_below less, and_comm, ← le_antisymm_iff]

theorem roundHalfEven_nearest (num : Nat) {den : Nat} (positive : 0 < den) :
    ∃ q : Nat, (q : ℚ) ≤ num / den ∧ (num : ℚ) / den < (q + 1 : Nat) ∧
      ((roundHalfEven num den = q ∧ 2 * ((num : ℚ) / den) ≤ q + (q + 1 : Nat) ∧
          (2 * ((num : ℚ) / den) = q + (q + 1 : Nat) → q % 2 = 0)) ∨
        (roundHalfEven num den = q + 1 ∧ q + (q + 1 : Nat) ≤ 2 * ((num : ℚ) / den) ∧
          (2 * ((num : ℚ) / den) = q + (q + 1 : Nat) → (q + 1) % 2 = 0))) := by
  have den_pos : (0 : ℚ) < den := Nat.cast_pos.mpr positive
  have split := Nat.div_add_mod num den
  have below := Nat.mod_lt num positive
  have whole : (num : ℚ) / den = (num / den : Nat) + (num % den : Nat) / (den : ℚ) := by
    conv_lhs => rw [← split]
    push_cast
    field_simp
  -- What is left over is compared with a half.
  have half_lt : 2 * (num % den) < den ↔ 2 * ((num % den : Nat) / (den : ℚ)) < 1 := by
    rw [← mul_div_assoc, div_lt_one den_pos]
    exact_mod_cast Iff.rfl
  have lt_half : den < 2 * (num % den) ↔ 1 < 2 * ((num % den : Nat) / (den : ℚ)) := by
    rw [← mul_div_assoc, one_lt_div den_pos]
    exact_mod_cast Iff.rfl
  have less : ((num % den : Nat) : ℚ) / den < 1 := (div_lt_one den_pos).mpr (Nat.cast_lt.mpr below)
  have nonneg : (0 : ℚ) ≤ (num % den : Nat) / (den : ℚ) := div_nonneg (Nat.cast_nonneg _) den_pos.le
  refine ⟨num / den, by rw [whole]; linarith, by rw [whole]; push_cast; linarith, ?_⟩
  unfold roundHalfEven
  dsimp only
  rw [whole]
  push_cast
  split
  · next small =>
    rw [half_lt] at small
    exact .inl ⟨rfl, by linarith, fun tie => by linarith⟩
  · next not_small =>
    rw [half_lt] at not_small
    split
    · next large =>
      rw [lt_half] at large
      exact .inr ⟨rfl, by linarith, fun tie => by linarith⟩
    · next not_large =>
      rw [lt_half] at not_large
      rcases Nat.mod_two_eq_zero_or_one (num / den) with even | odd
      · exact .inl ⟨by rw [even, Nat.add_zero], by linarith, fun _ => even⟩
      · exact .inr ⟨by rw [odd], by linarith, fun _ => by omega⟩

namespace Format

variable {f : Format}

/-- The number that the fields of a magnitude's pattern stand for, the first pattern beyond the finite ones
included. -/
def weight (f : Format) (bits : Nat) : ℚ :=
  let field := bits / 2 ^ f.fractionBits
  let fraction := bits % 2 ^ f.fractionBits
  if field = 0 then fraction * 2 ^ f.leastExponent
  else (2 ^ f.fractionBits + fraction : Nat) * 2 ^ (f.leastExponent + (field - 1 : Nat))

/-- A significand may also be carried into the next exponent. -/
theorem weight_parts {k m : Nat} (digits : m ≤ 2 * 2 ^ f.fractionBits)
    (normal : k = 0 ∨ 2 ^ f.fractionBits ≤ m) :
    f.weight (k * 2 ^ f.fractionBits + m) = m * 2 ^ (f.leastExponent + k) := by
  have positive : 0 < 2 ^ f.fractionBits := Nat.two_pow_pos _
  have quotient (n : Nat) : (k * 2 ^ f.fractionBits + n) / 2 ^ f.fractionBits = k + n / 2 ^ f.fractionBits :=
    (Nat.add_comm _ _ ▸ Nat.add_mul_div_right n k positive).trans (Nat.add_comm _ _)
  have remainder : (k * 2 ^ f.fractionBits + m) % 2 ^ f.fractionBits = m % 2 ^ f.fractionBits :=
    Nat.mul_add_mod' k _ m
  unfold weight
  dsimp only
  rw [quotient, remainder]
  rcases Nat.lt_or_ge m (2 ^ f.fractionBits) with subnormal | leading
  · obtain rfl : k = 0 := by omega
    rw [Nat.div_eq_of_lt subnormal, Nat.mod_eq_of_lt subnormal, if_pos rfl, Nat.cast_zero, add_zero]
  · obtain ⟨fraction, rfl⟩ := Nat.exists_eq_add_of_le leading
    rw [Nat.add_div_left _ positive, Nat.add_mod_left, ← Nat.add_assoc, if_neg (Nat.succ_ne_zero _),
      Nat.add_sub_cancel]
    rcases Nat.lt_or_eq_of_le (Nat.add_le_add_iff_left.mp (Nat.two_mul _ ▸ digits)) with below | rfl
    · rw [Nat.div_eq_of_lt below, Nat.mod_eq_of_lt below, Nat.add_zero]
    · rw [Nat.div_self positive, Nat.mod_self, Nat.add_zero, Nat.cast_succ, ← add_assoc,
        zpow_add_one₀ two_ne_zero]
      push_cast
      ring

theorem exists_parts (f : Format) (bits : Nat) : ∃ k m, bits = k * 2 ^ f.fractionBits + m ∧
    m < 2 * 2 ^ f.fractionBits ∧ (k = 0 ∨ 2 ^ f.fractionBits ≤ m) := by
  have positive : 0 < 2 ^ f.fractionBits := Nat.two_pow_pos _
  have split := Nat.div_add_mod' bits (2 ^ f.fractionBits)
  have below := Nat.mod_lt bits positive
  cases field : bits / 2 ^ f.fractionBits with
  | zero =>
    refine ⟨0, bits, by omega, ?_, .inl rfl⟩
    rw [field] at split
    omega
  | succ k =>
    refine ⟨k, 2 ^ f.fractionBits + bits % 2 ^ f.fractionBits, ?_, by omega, .inr (Nat.le_add_right _ _)⟩
    rw [field, Nat.succ_mul] at split
    omega

theorem weight_strictMono (f : Format) : StrictMono f.weight := by
  refine strictMono_nat_of_lt_succ fun bits => ?_
  obtain ⟨k, m, rfl, digits, normal⟩ := f.exists_parts bits
  rw [Nat.add_assoc, weight_parts digits.le normal, weight_parts digits (normal.imp_right Nat.le_succ_of_le)]
  exact mul_lt_mul_of_pos_right (Nat.cast_lt.mpr (Nat.lt_succ_self m)) (zpow_pos two_pos _)

theorem weight_datum {bits : Nat} {negative : Bool} {m : Nat} {e : Int}
    (found : f.datum bits = .finite negative m e) : f.weight (bits % f.signBit) = m * 2 ^ e := by
  have pattern : (e - f.leastExponent).toNat * 2 ^ f.fractionBits + m = bits % f.signBit :=
    (datum_pattern found).2
  obtain ⟨field, fraction, _, below, stands⟩ := datum_finite found
  rw [Nat.pow_eq] at below
  have fits : f.leastExponent ≤ e ∧ m ≤ 2 * 2 ^ f.fractionBits ∧
      (e = f.leastExponent ∨ 2 ^ f.fractionBits ≤ m) := by
    unfold magnitude at stands
    rw [Nat.pow_eq] at stands
    split at stands
    · obtain ⟨-, rfl, rfl⟩ := Datum.finite.inj stands
      exact ⟨le_refl _, by omega, .inl rfl⟩
    · obtain ⟨-, rfl, rfl⟩ := Datum.finite.inj stands
      exact ⟨by omega, by omega, .inr (Nat.le_add_right _ _)⟩
  have exponent : f.leastExponent + ((e - f.leastExponent).toNat : Int) = e := by omega
  rw [← pattern, weight_parts fits.2.1 (fits.2.2.imp_left fun least => by omega), exponent]

/-! ## The nearest pattern -/

/-- Whether no pattern is nearer to a number, and of others that are as near this is the even one. What is
nearest to the first pattern beyond the finite ones is beyond them. -/
structure Nearest (f : Format) (r : ℚ) (bits : Nat) : Prop where
  bounded : bits ≤ f.infinityBits
  least : ∀ other ≤ f.infinityBits, |r - f.weight bits| ≤ |r - f.weight other|
  even : ∀ other ≤ f.infinityBits, other ≠ bits → |r - f.weight bits| = |r - f.weight other| → bits % 2 = 0

theorem nearest_zero (f : Format) : f.Nearest 0 0 where
  bounded := Nat.zero_le _
  least other _ := by
    have nothing : f.weight 0 = 0 := by simp [weight]
    rw [nothing, sub_zero, abs_zero]
    exact abs_nonneg _
  even _ _ _ _ := rfl

theorem nearest_self {bits : Nat} (bounded : bits ≤ f.infinityBits) : f.Nearest (f.weight bits) bits where
  bounded := bounded
  least other _ := by
    rw [sub_self, abs_zero]
    exact abs_nonneg _
  even other _ apart equal := by
    rw [sub_self, abs_zero, eq_comm, abs_eq_zero, sub_eq_zero] at equal
    exact absurd (f.weight_strictMono.injective equal).symm apart

theorem nearest_lower {r : ℚ} {bits : Nat} (finite : bits < f.infinityBits) (low : f.weight bits ≤ r)
    (nearer : 2 * r ≤ f.weight bits + f.weight (bits + 1))
    (tie : 2 * r = f.weight bits + f.weight (bits + 1) → bits % 2 = 0) : f.Nearest r bits := by
  have next := f.weight_strictMono bits.lt_succ_self
  refine ⟨finite.le, fun other _ => ?_, fun other _ apart equal => ?_⟩
  · rcases Nat.lt_trichotomy other bits with below | rfl | above
    · exact (abs_sub_le_above (f.weight_strictMono below) r).mpr (by linarith [f.weight_strictMono below])
    · exact le_refl _
    · have further := f.weight_strictMono.monotone (Nat.succ_le_of_lt above)
      exact (abs_sub_le_below (f.weight_strictMono above) r).mpr (by linarith)
  · rcases Nat.lt_or_gt_of_ne apart with below | above
    · have half := (abs_sub_eq (f.weight_strictMono below) r).mp equal.symm
      linarith [f.weight_strictMono below]
    · have half := (abs_sub_eq (f.weight_strictMono above) r).mp equal
      have further := f.weight_strictMono.monotone (Nat.succ_le_of_lt above)
      exact tie (le_antisymm nearer (by linarith))

theorem nearest_upper {r : ℚ} {bits : Nat} (finite : bits + 1 ≤ f.infinityBits) (high : r ≤ f.weight (bits + 1))
    (nearer : f.weight bits + f.weight (bits + 1) ≤ 2 * r)
    (tie : 2 * r = f.weight bits + f.weight (bits + 1) → (bits + 1) % 2 = 0) : f.Nearest r (bits + 1) := by
  have next := f.weight_strictMono bits.lt_succ_self
  refine ⟨finite, fun other _ => ?_, fun other _ apart equal => ?_⟩
  · rcases Nat.lt_trichotomy other (bits + 1) with below | rfl | above
    · have further := f.weight_strictMono.monotone (Nat.le_of_lt_succ below)
      exact (abs_sub_le_above (f.weight_strictMono below) r).mpr (by linarith)
    · exact le_refl _
    · exact (abs_sub_le_below (f.weight_strictMono above) r).mpr (by linarith [f.weight_strictMono above])
  · rcases Nat.lt_or_gt_of_ne apart with below | above
    · have half := (abs_sub_eq (f.weight_strictMono below) r).mp equal.symm
      have further := f.weight_strictMono.monotone (Nat.le_of_lt_succ below)
      exact tie (le_antisymm (by linarith) nearer)
    · have half := (abs_sub_eq (f.weight_strictMono above) r).mp equal
      linarith [f.weight_strictMono above]

theorem nearest_infinity {r : ℚ} (beyond : f.weight f.infinityBits ≤ r) : f.Nearest r f.infinityBits := by
  refine ⟨le_refl _, fun other within => ?_, fun other within apart equal => ?_⟩
  · rcases Nat.lt_or_eq_of_le within with below | rfl
    · exact (abs_sub_le_above (f.weight_strictMono below) r).mpr (by linarith [f.weight_strictMono below])
    · exact le_refl _
  · have below := f.weight_strictMono (Nat.lt_of_le_of_ne within apart)
    have half := (abs_sub_eq below r).mp equal.symm
    linarith

/-- Of the two neighbours of a number the nearer one, if it is not beyond the finite patterns. -/
theorem nearest_neighbour {r : ℚ} (bits : Nat) {rounded : Nat} (low : f.weight bits ≤ r)
    (high : r ≤ f.weight (bits + 1))
    (chosen : (rounded = bits ∧ 2 * r ≤ f.weight bits + f.weight (bits + 1) ∧
        (2 * r = f.weight bits + f.weight (bits + 1) → bits % 2 = 0)) ∨
      (rounded = bits + 1 ∧ f.weight bits + f.weight (bits + 1) ≤ 2 * r ∧
        (2 * r = f.weight bits + f.weight (bits + 1) → (bits + 1) % 2 = 0))) :
    f.Nearest r (min rounded f.infinityBits) := by
  rcases Nat.lt_or_ge bits f.infinityBits with finite | beyond
  · rcases chosen with ⟨rfl, nearer, tie⟩ | ⟨rfl, nearer, tie⟩
    · rw [Nat.min_eq_left finite.le]
      exact nearest_lower finite low nearer tie
    · rw [Nat.min_eq_left finite]
      exact nearest_upper finite high nearer tie
  · have top : min rounded f.infinityBits = f.infinityBits := Nat.min_eq_right (by omega)
    rw [top]
    exact nearest_infinity ((f.weight_strictMono.monotone beyond).trans low)

/-- There is one nearest pattern: two that are equally near would both be even, and one between them
nearer. -/
theorem Nearest.not_lt {r : ℚ} {bits bits' : Nat} (nearest : f.Nearest r bits) (nearest' : f.Nearest r bits') :
    ¬bits < bits' := by
  intro less
  have equal : |r - f.weight bits| = |r - f.weight bits'| :=
    le_antisymm (nearest.least bits' nearest'.bounded) (nearest'.least bits nearest.bounded)
  have half := (abs_sub_eq (f.weight_strictMono less) r).mp equal
  have even := nearest.even bits' nearest'.bounded less.ne' equal
  have even' := nearest'.even bits nearest.bounded less.ne equal.symm
  have between : bits + 1 < bits' := by omega
  have nearer := nearest.least (bits + 1) (between.le.trans nearest'.bounded)
  rw [abs_sub_le_below (f.weight_strictMono bits.lt_succ_self)] at nearer
  linarith [f.weight_strictMono between]

theorem Nearest.unique {r : ℚ} {bits bits' : Nat} (nearest : f.Nearest r bits) (nearest' : f.Nearest r bits') :
    bits = bits' :=
  Nat.le_antisymm (Nat.le_of_not_lt (nearest'.not_lt nearest)) (Nat.le_of_not_lt (nearest.not_lt nearest'))

theorem Nearest.convex {r s t : ℚ} {bits : Nat} (low : f.Nearest r bits) (high : f.Nearest t bits)
    (above : r ≤ s) (below : s ≤ t) : f.Nearest s bits := by
  refine ⟨low.bounded, fun other within => ?_, fun other within apart equal => ?_⟩
  · rcases Nat.lt_trichotomy other bits with less | rfl | greater
    · have half := (abs_sub_le_above (f.weight_strictMono less) r).mp (low.least other within)
      exact (abs_sub_le_above (f.weight_strictMono less) s).mpr (by linarith)
    · exact le_refl _
    · have half := (abs_sub_le_below (f.weight_strictMono greater) t).mp (high.least other within)
      exact (abs_sub_le_below (f.weight_strictMono greater) s).mpr (by linarith)
  · -- A tie in between is one of the ends.
    rcases Nat.lt_or_gt_of_ne apart with less | greater
    · have half := (abs_sub_le_above (f.weight_strictMono less) r).mp (low.least other within)
      have tie := (abs_sub_eq (f.weight_strictMono less) s).mp equal.symm
      exact low.even other within apart ((abs_sub_eq (f.weight_strictMono less) r).mpr (by linarith)).symm
    · have half := (abs_sub_le_below (f.weight_strictMono greater) t).mp (high.least other within)
      have tie := (abs_sub_eq (f.weight_strictMono greater) s).mp equal
      exact high.even other within apart ((abs_sub_eq (f.weight_strictMono greater) t).mpr (by linarith))

/-- At the exponent of a ratio there are as many digits as the format has, or fewer at the least one. -/
theorem digits_at {r : ℚ} (positive : 0 < r) {e : Int}
    (chosen : e = max (Int.log 2 r - f.fractionBits) f.leastExponent) {q : Nat} (low : q * (2 : ℚ) ^ e ≤ r)
    (high : r < (q + 1 : Nat) * (2 : ℚ) ^ e) :
    q < 2 * 2 ^ f.fractionBits ∧ ((e - f.leastExponent).toNat = 0 ∨ 2 ^ f.fractionBits ≤ q) := by
  have pow_pos : (0 : ℚ) < 2 ^ e := zpow_pos two_pos e
  have log_le := Int.zpow_log_le_self Nat.one_lt_two positive
  have lt_log := Int.lt_zpow_succ_log_self Nat.one_lt_two r
  rw [Nat.cast_ofNat] at log_le lt_log
  constructor
  · have bound : (q : ℚ) * 2 ^ e < (2 * 2 ^ f.fractionBits : Nat) * 2 ^ e := by
      calc (q : ℚ) * 2 ^ e ≤ r := low
        _ < 2 ^ (Int.log 2 r + 1) := lt_log
        _ ≤ 2 ^ ((f.fractionBits : Int) + 1 + e) := zpow_le_zpow_right₀ one_le_two (by omega)
        _ = (2 * 2 ^ f.fractionBits : Nat) * 2 ^ e := by
          rw [zpow_add₀ two_ne_zero, zpow_add_one₀ two_ne_zero, zpow_natCast]
          push_cast
          ring
    exact Nat.cast_lt.mp (lt_of_mul_lt_mul_right bound pow_pos.le)
  · rcases le_or_gt (Int.log 2 r - f.fractionBits) f.leastExponent with subnormal | normal
    · exact .inl (by omega)
    · have bound : ((2 ^ f.fractionBits : Nat) : ℚ) * 2 ^ e < (q + 1 : Nat) * 2 ^ e := by
        calc ((2 ^ f.fractionBits : Nat) : ℚ) * 2 ^ e = 2 ^ ((f.fractionBits : Int) + e) := by
              rw [zpow_add₀ two_ne_zero, zpow_natCast]
              push_cast
              rfl
          _ = 2 ^ Int.log 2 r := by congr 1; omega
          _ ≤ r := log_le
          _ < (q + 1 : Nat) * 2 ^ e := high
      exact .inr (Nat.le_of_lt_succ (Nat.cast_lt.mp (lt_of_mul_lt_mul_right bound pow_pos.le)))

theorem roundBits_nearest (fractional : 0 < f.fractionBits) (num : Nat) {den : Nat} (positive : 0 < den) :
    f.Nearest (num / den) (f.roundBits num den) := by
  by_cases zero : num = 0
  · rw [zero, roundBits, if_pos rfl, Nat.cast_zero, zero_div]
    exact f.nearest_zero
  have ratio_pos : (0 : ℚ) < num / den :=
    div_pos (Nat.cast_pos.mpr (Nat.pos_of_ne_zero zero)) (Nat.cast_pos.mpr positive)
  rw [roundBits, if_neg zero, floorLog2_eq_log zero positive]
  simp only [Nat.pow_eq]
  generalize chosen : max (Int.log 2 ((num : ℚ) / den) - f.fractionBits) f.leastExponent = e
  have pow_pos : (0 : ℚ) < 2 ^ e := zpow_pos two_pos e
  have scaled : ((num * 2 ^ (-e).toNat : Nat) : ℚ) / (den * 2 ^ e.toNat : Nat) = num / den / 2 ^ e := by
    have power := zpow_eq_div Nat.two_pos e
    rw [Nat.cast_ofNat] at power
    rw [power, Nat.cast_mul, Nat.cast_mul, div_div_eq_mul_div, div_mul_eq_mul_div, div_div]
  obtain ⟨q, low, high, rounded⟩ := roundHalfEven_nearest (num * 2 ^ (-e).toNat)
    (Nat.mul_pos positive (Nat.two_pow_pos e.toNat))
  rw [scaled] at low high rounded
  obtain ⟨digits, normal⟩ := digits_at ratio_pos chosen.symm ((le_div_iff₀ pow_pos).mp low)
    ((div_lt_iff₀ pow_pos).mp high)
  -- The two integers are the significands of neighbouring patterns.
  have exponent : f.leastExponent + ((e - f.leastExponent).toNat : Int) = e := by omega
  have lower := weight_parts digits.le normal
  have upper := weight_parts (f := f) digits (normal.imp_right Nat.le_succ_of_le)
  rw [exponent] at lower upper
  rw [Nat.succ_eq_add_one, ← Nat.add_assoc] at upper
  have parity (n : Nat) : ((e - f.leastExponent).toNat * 2 ^ f.fractionBits + n) % 2 = n % 2 := by
    obtain ⟨before, one_more⟩ := Nat.exists_eq_succ_of_ne_zero (Nat.ne_of_gt fractional)
    rw [one_more, Nat.pow_succ, ← Nat.mul_assoc, Nat.mul_add_mod']
  have whole : (num : ℚ) / den = num / den / 2 ^ e * 2 ^ e := (div_mul_cancel₀ _ pow_pos.ne').symm
  rw [whole]
  generalize (num : ℚ) / den / 2 ^ e = r at low high rounded
  have halves : f.weight ((e - f.leastExponent).toNat * 2 ^ f.fractionBits + q) +
      f.weight ((e - f.leastExponent).toNat * 2 ^ f.fractionBits + q + 1) = (q + (q + 1 : Nat)) * 2 ^ e := by
    rw [lower, upper, add_mul]
  apply nearest_neighbour ((e - f.leastExponent).toNat * 2 ^ f.fractionBits + q)
  · rw [lower]
    exact mul_le_mul_of_nonneg_right low pow_pos.le
  · rw [upper]
    exact mul_le_mul_of_nonneg_right high.le pow_pos.le
  · rw [halves, ← mul_assoc, mul_le_mul_iff_left₀ pow_pos, mul_le_mul_iff_left₀ pow_pos,
      mul_left_inj' pow_pos.ne', Nat.add_assoc, Nat.add_right_inj, Nat.add_right_inj, parity, parity]
    exact rounded

theorem roundBits_congr (fractional : 0 < f.fractionBits) {num den num' den' : Nat} (positive : 0 < den)
    (positive' : 0 < den') (ratio : (num : ℚ) / den = num' / den') :
    f.roundBits num den = f.roundBits num' den' := by
  have nearest := roundBits_nearest fractional num positive
  rw [ratio] at nearest
  exact nearest.unique (roundBits_nearest fractional num' positive')

theorem roundBits_finite (fractional : 0 < f.fractionBits) {bits : Nat} {negative : Bool} {m : Nat} {e : Int}
    (found : f.datum bits = .finite negative m e) :
    f.roundBits (m * Nat.pow 2 e.toNat) (Nat.pow 2 (-e).toNat) = bits % f.signBit := by
  have nearest := @roundBits_nearest f fractional (m * Nat.pow 2 e.toNat) (Nat.pow 2 (-e).toNat)
    (Nat.pow_pos Nat.two_pos)
  rw [dyadic_ratio, ← weight_datum found] at nearest
  exact nearest.unique (nearest_self (datum_unsigned found).2.le)

theorem datum_roundBits (fractional : 0 < f.fractionBits) {bits : Nat} {negative : Bool} {m : Nat} {e : Int}
    (found : f.datum bits = .finite negative m e) :
    f.datum (f.roundBits (m * Nat.pow 2 e.toNat) (Nat.pow 2 (-e).toNat)) = .finite false m e := by
  rw [roundBits_finite fractional found]
  exact (datum_unsigned found).1

end Format
end ArrayQuery.Binary
