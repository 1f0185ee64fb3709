import ArrayQuery.Proofs.FewestDigits
import ArrayQuery.Proofs.Readable

/-! The texts of float literals. A finite single is written with the fewest digits that are nearer to it than
to any other single, and behind a minus sign exactly if its sign bit is set, so that the text determines
every bit of it. -/

set_option autoImplicit false
namespace ArrayQuery

namespace Decimal

section Magnitudes

variable {x : Single} {negative : Bool} {m : Nat} {e : Int} (found : x.datum = .finite negative m e)
include found

theorem nearest_magnitude (bits : Nat) :
    Binary.single.Nearest (read (if m = 0 then "0.0" else write compact (shortest Binary.single m e)).toList).value
      bits ↔ bits = x.bits.toNat % Binary.single.signBit := by
  rw [← roundBits_eq_iff, roundBits_write found]
  exact eq_comm

theorem coefficient_ne_zero {d : Decimal} (nonzero : m ≠ 0)
    (nearest : Binary.single.Nearest d.value (x.bits.toNat % Binary.single.signBit)) : d.coefficient ≠ 0 := by
  intro none_left
  have rounded := roundBits_eq_iff.mpr nearest
  rw [roundBits, if_pos none_left, ← (Binary.Format.datum_pattern found).2] at rounded
  exact nonzero (Nat.eq_zero_of_add_eq_zero_left rounded.symm)

theorem magnitude_fewest {d : Decimal}
    (nearest : Binary.single.Nearest d.value (x.bits.toNat % Binary.single.signBit)) :
    significantCount
        (read (if m = 0 then "0.0" else write compact (shortest Binary.single m e)).toList).coefficient ≤
      significantCount d.coefficient := by
  split
  · have none_left : read "0.0".toList = ⟨0, -1⟩ := by decide
    rw [none_left]
    exact Nat.zero_le _
  · next nonzero =>
    have positive : 0 < significantCount d.coefficient := by
      have digits := significant_ne_nil (coefficient_ne_zero found nonzero nearest)
      rw [significantCount, List.length_pos_iff]
      exact mt List.reverse_eq_nil_iff.mpr digits
    have same : d.roundBits Binary.single = (ofDyadic m e).roundBits Binary.single :=
      (roundBits_eq_iff.mpr nearest).trans (roundBits_of_value found (value_ofDyadic m e)).symm
    rw [← fits_iff, read_write (shortest_ne_zero _ nonzero e)]
    exact shortest_fewest nonzero e same positive (fits_iff.mpr (Nat.le_refl _))

end Magnitudes

end Decimal

namespace Kernel

/-- The literal of a finite single is a minus sign if its sign bit is set, digits with a point or a power of
ten, and the suffix of singles. Those digits stand for a number to which the single without its sign is the
nearest one, of two equally near ones the even one, and no decimal of which this is true has fewer digits.
Other singles have other literals, the two zeros included. -/
theorem floatLiteral_determined {x : Single} (finite : x.isFinite = true) :
    ∃ t digits, floatLiteral x = .ok t ∧
      t.text.toList = (if Binary.single.signBit ≤ x.bits.toNat then ['-'] else []) ++ digits ++ ['f'] ∧
      Decimal.IsWritten digits ∧
      (∀ bits, Binary.single.Nearest (Decimal.read digits).value bits ↔
        bits = x.bits.toNat % Binary.single.signBit) ∧
      (∀ d : Decimal, Binary.single.Nearest d.value (x.bits.toNat % Binary.single.signBit) →
        Decimal.significantCount (Decimal.read digits).coefficient ≤ Decimal.significantCount d.coefficient) ∧
      ∀ y u, floatLiteral y = .ok u → u.text = t.text → y = x := by
  have accepted : floatLiteral x = .ok (.literal (.float x)) := if_pos finite
  have spelled (y : Single) : (Term.literal (.float y)).text.toList = y.text.toList ++ ['f'] := by
    simp [Term.text, Literal.text]
  obtain ⟨negative, m, e, datum⟩ := Single.exists_datum finite
  refine ⟨_, _, accepted, ?_, Decimal.magnitude_written Decimal.compact Binary.single m e,
    Decimal.nearest_magnitude datum, fun d => Decimal.magnitude_fewest datum, ?_⟩
  · rw [spelled, Single.text_finite datum]
  · intro y u found same
    obtain ⟨rfl, finite'⟩ := floatLiteral_ok found
    have texts := congrArg String.toList same
    rw [spelled, spelled] at texts
    rw [← Single.read_text finite', List.append_cancel_right texts, Single.read_text finite]

theorem floatLiteral_determined_least :
    let least : Single := ⟨0x80000001⟩
    least.isFinite = true ∧ ∃ t, floatLiteral least = .ok t ∧ t.text = "-1e-45f" ∧
      (∀ bits, Binary.single.Nearest (Decimal.read "1e-45".toList).value bits ↔ bits = 1) ∧
      ∀ y u, floatLiteral y = .ok u → u.text = "-1e-45f" → y = least := by
  intro least
  have finite : least.isFinite = true := by decide
  have spelled : (Term.literal (.float least)).text = "-1e-45f" := by decide +kernel
  obtain ⟨t, digits, accepted, text, _, nearest, _, alone⟩ := floatLiteral_determined finite
  obtain ⟨rfl, -⟩ := floatLiteral_ok accepted
  have written : digits = "1e-45".toList := by
    rw [spelled] at text
    exact List.append_cancel_right (List.cons.inj text).2.symm
  have pattern : least.bits.toNat % Binary.single.signBit = 1 := by decide
  rw [written, pattern] at nearest
  rw [spelled] at alone
  exact ⟨finite, _, accepted, spelled, nearest, alone⟩

/-- The greatest single, and the first of the great ones to be written with a power of ten. -/
example : (Term.literal (.float ⟨0x7f7fffff⟩)).text = "3.4028235e38f" ∧
    (Term.literal (.float ⟨0x5a0e1bca⟩)).text = "1e16f" := by decide +kernel

end Kernel
end ArrayQuery
