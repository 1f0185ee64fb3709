import ArrayQuery.Binary.Format
import Mathlib.Data.Int.Log
import Mathlib.Data.Rat.Floor
import Mathlib.Tactic.FieldSimp
import Mathlib.Tactic.Positivity
import Mathlib.Tactic.Ring

/-! The patterns of a binary format: the power of two that a ratio starts at, and the fields of a pattern that
stands for a number. -/

set_option autoImplicit false
namespace ArrayQuery

namespace Binary

theorem zpow_eq_div {b : Nat} (positive : 0 < b) (k : Int) :
    (b : ℚ) ^ k = (b ^ k.toNat : Nat) / (b ^ (-k).toNat : Nat) := by
  have nonzero : (b : ℚ) ≠ 0 := Nat.cast_ne_zero.mpr (Nat.ne_of_gt positive)
  have parts : k = (k.toNat : Int) - ((-k).toNat : Int) := by omega
  conv_lhs => rw [parts]
  rw [zpow_sub₀ nonzero, zpow_natCast, zpow_natCast, Nat.cast_pow, Nat.cast_pow]

theorem dyadic_ratio (m : Nat) (e : Int) :
    ((m * Nat.pow 2 e.toNat : Nat) : ℚ) / (Nat.pow 2 (-e).toNat : Nat) = m * 2 ^ e := by
  have power := zpow_eq_div Nat.two_pos e
  rw [Nat.cast_ofNat] at power
  rw [power, Nat.cast_mul, mul_div_assoc]
  rfl

theorem zpow_le_ratio {b num den : Nat} (base : 0 < b) (positive : 0 < den) (k : Int) :
    (b : ℚ) ^ k ≤ num / den ↔ den * b ^ k.toNat ≤ num * b ^ (-k).toNat := by
  have den_pos : (0 : ℚ) < den := Nat.cast_pos.mpr positive
  have pow_pos : (0 : ℚ) < (b ^ (-k).toNat : Nat) := Nat.cast_pos.mpr (Nat.pow_pos base)
  rw [zpow_eq_div base, div_le_div_iff₀ pow_pos den_pos, ← Nat.cast_mul, ← Nat.cast_mul,
    Nat.cast_le, Nat.mul_comm]

theorem log_eq {b : Nat} (base : 1 < b) {r : ℚ} (positive : 0 < r) {k : Int}
    (low : (b : ℚ) ^ k ≤ r) (high : r < (b : ℚ) ^ (k + 1)) : Int.log b r = k := by
  have atLeast := (Int.zpow_le_iff_le_log base positive).mp low
  have below := (Int.lt_zpow_iff_log_lt base positive).mp high
  omega

theorem floorLog2_eq_log {num den : Nat} (nonzero : num ≠ 0) (positive : 0 < den) :
    floorLog2 num den = Int.log 2 ((num : ℚ) / den) := by
  have ratio_pos : (0 : ℚ) < num / den :=
    div_pos (Nat.cast_pos.mpr (Nat.pos_of_ne_zero nonzero)) (Nat.cast_pos.mpr positive)
  have atMost (k : Int) : k ≤ Int.log 2 ((num : ℚ) / den) ↔
      den * 2 ^ k.toNat ≤ num * 2 ^ (-k).toNat := by
    rw [← Int.zpow_le_iff_le_log Nat.one_lt_two ratio_pos, zpow_le_ratio Nat.two_pos positive]
  -- The logarithms of both numbers settle that of the ratio but for one.
  have lower : (num.log2 : Int) - (den.log2 + 1 : Nat) ≤ Int.log 2 ((num : ℚ) / den) := by
    rw [← Int.zpow_le_iff_le_log Nat.one_lt_two ratio_pos, Nat.cast_ofNat, zpow_sub₀ two_ne_zero,
      zpow_natCast, zpow_natCast]
    have above : (2 : ℚ) ^ num.log2 ≤ num := by exact_mod_cast Nat.log2_self_le nonzero
    have below : (den : ℚ) ≤ 2 ^ (den.log2 + 1) := by
      exact_mod_cast (Nat.lt_log2_self (n := den)).le
    exact div_le_div₀ (Nat.cast_nonneg num) above (Nat.cast_pos.mpr positive) below
  have upper : Int.log 2 ((num : ℚ) / den) < (num.log2 + 1 : Nat) - (den.log2 : Int) := by
    rw [← Int.lt_zpow_iff_log_lt Nat.one_lt_two ratio_pos, Nat.cast_ofNat, zpow_sub₀ two_ne_zero,
      zpow_natCast, zpow_natCast]
    have below : (num : ℚ) < 2 ^ (num.log2 + 1) := by exact_mod_cast Nat.lt_log2_self (n := num)
    have above : (2 : ℚ) ^ den.log2 ≤ den := by
      exact_mod_cast Nat.log2_self_le (Nat.ne_of_gt positive)
    exact div_lt_div₀ below above (by positivity) (by positivity)
  have here := atMost ((num.log2 : Int) - den.log2)
  unfold floorLog2
  simp only [Nat.pow_eq]
  split
  · next within =>
    have reached := here.mpr within
    omega
  · next beyond =>
    have missed := mt here.mp beyond
    omega

namespace Format

theorem signBit_eq (f : Format) : f.signBit = Nat.pow 2 f.fractionBits * Nat.pow 2 f.exponentBits := by
  rw [signBit, Nat.add_comm]
  exact Nat.pow_add ..

def magnitude (f : Format) (field fraction : Nat) : Datum :=
  if field = 0 then .finite false fraction f.leastExponent
  else .finite false (Nat.pow 2 f.fractionBits + fraction) (f.leastExponent + (field - 1 : Nat))

theorem datum_fields (f : Format) {field fraction : Nat}
    (finite : field < Nat.pow 2 f.exponentBits - 1) (below : fraction < Nat.pow 2 f.fractionBits) :
    f.datum (field * Nat.pow 2 f.fractionBits + fraction) = f.magnitude field fraction := by
  have pow_pos : 0 < Nat.pow 2 f.fractionBits := Nat.pow_pos Nat.two_pos
  have high : (field * Nat.pow 2 f.fractionBits + fraction) / Nat.pow 2 f.fractionBits = field := by
    rw [Nat.mul_comm, Nat.mul_add_div pow_pos, Nat.div_eq_of_lt below, Nat.add_zero]
  have low : (field * Nat.pow 2 f.fractionBits + fraction) % Nat.pow 2 f.fractionBits =
      fraction := by
    rw [Nat.mul_comm, Nat.mul_add_mod, Nat.mod_eq_of_lt below]
  have sign : (field * Nat.pow 2 f.fractionBits + fraction) / f.signBit = 0 := by
    rw [signBit_eq, ← Nat.div_div_eq_div_mul, high]
    exact Nat.div_eq_of_lt (by omega)
  have field_mod : field % Nat.pow 2 f.exponentBits = field := Nat.mod_eq_of_lt (by omega)
  unfold datum magnitude
  rw [high, low, sign, field_mod]
  dsimp only
  rw [if_neg (Nat.ne_of_lt finite)]
  rfl

theorem datum_finite {f : Format} {bits : Nat} {negative : Bool} {m : Nat} {e : Int}
    (found : f.datum bits = .finite negative m e) :
    ∃ field fraction, field < Nat.pow 2 f.exponentBits - 1 ∧
      fraction < Nat.pow 2 f.fractionBits ∧ f.magnitude field fraction = .finite false m e := by
  have bounded : bits / Nat.pow 2 f.fractionBits % Nat.pow 2 f.exponentBits <
      Nat.pow 2 f.exponentBits := Nat.mod_lt _ (Nat.pow_pos Nat.two_pos)
  refine ⟨bits / Nat.pow 2 f.fractionBits % Nat.pow 2 f.exponentBits,
    bits % Nat.pow 2 f.fractionBits, ?_, Nat.mod_lt _ (Nat.pow_pos Nat.two_pos), ?_⟩
  · unfold datum at found
    dsimp only at found
    split at found
    · split at found <;> exact nomatch found
    · next finite => omega
  · unfold datum at found
    unfold magnitude
    dsimp only at found
    split at found
    · split at found <;> exact nomatch found
    · split at found
      · next zero =>
        obtain ⟨-, rfl, rfl⟩ := Datum.finite.inj found
        rw [if_pos zero]
      · next nonzero =>
        obtain ⟨-, rfl, rfl⟩ := Datum.finite.inj found
        rw [if_neg nonzero]

/-- What a finite pattern stands for determines its sign and its other bits. -/
theorem datum_pattern {f : Format} {bits : Nat} {negative : Bool} {m : Nat} {e : Int}
    (found : f.datum bits = .finite negative m e) :
    negative = decide (bits / f.signBit % 2 = 1) ∧
      (e - f.leastExponent).toNat * Nat.pow 2 f.fractionBits + m = bits % f.signBit := by
  have fields : bits % f.signBit = bits / Nat.pow 2 f.fractionBits % Nat.pow 2 f.exponentBits *
      Nat.pow 2 f.fractionBits + bits % Nat.pow 2 f.fractionBits := by
    rw [signBit_eq, Nat.mod_mul, Nat.add_comm, Nat.mul_comm]
  unfold datum at found
  dsimp only at found
  split at found
  · split at found <;> exact nomatch found
  · split at found
    · next zero =>
      obtain ⟨rfl, rfl, rfl⟩ := Datum.finite.inj found
      rw [fields, zero, Int.sub_self, Int.toNat_zero]
      exact ⟨rfl, rfl⟩
    · next nonzero =>
      obtain ⟨rfl, rfl, rfl⟩ := Datum.finite.inj found
      obtain ⟨before, offset⟩ := Nat.exists_eq_succ_of_ne_zero nonzero
      have exponent : (f.leastExponent + ((before + 1 - 1 : Nat) : Int) - f.leastExponent).toNat =
          before := by omega
      rw [fields, offset, Nat.succ_eq_add_one, exponent, Nat.succ_mul, Nat.add_assoc]
      exact ⟨rfl, rfl⟩

theorem datum_unsigned {f : Format} {bits : Nat} {negative : Bool} {m : Nat} {e : Int}
    (found : f.datum bits = .finite negative m e) :
    f.datum (bits % f.signBit) = .finite false m e ∧ bits % f.signBit < f.infinityBits := by
  obtain ⟨field, fraction, finite, below, stands⟩ := datum_finite found
  have bounded : field * Nat.pow 2 f.fractionBits + fraction < f.infinityBits := by
    calc field * Nat.pow 2 f.fractionBits + fraction
        < (field + 1) * Nat.pow 2 f.fractionBits := by rw [Nat.succ_mul]; omega
      _ ≤ f.infinityBits := Nat.mul_le_mul_right _ (by omega)
  have unsigned : f.infinityBits ≤ f.signBit := by
    rw [signBit_eq, Nat.mul_comm]
    exact Nat.mul_le_mul_right _ (Nat.sub_le _ _)
  have same := datum_fields f finite below
  rw [stands] at same
  have pattern := (datum_pattern same).2
  rw [(datum_pattern found).2, Nat.mod_eq_of_lt (bounded.trans_le unsigned)] at pattern
  rw [pattern]
  exact ⟨same, bounded⟩

end Format

end Binary
end ArrayQuery
