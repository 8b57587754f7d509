import TypedJson.Literal
import TypedJson.Proofs.NumberText
/-!
# Literals survive their text

A number is written as an integer where it is one of sixty-four bits.  The integer written is the
double itself, except at the end of the range, where it is one less; there the doubles are far
enough apart for the double to be the nearest one (`Double.ofInt?_min`).  So every literal is read
back (`Literal.ofJson?_toJson`).

Only numbers take an argument; strings and flags are written as they are.  A number is
written in one of two ways, and which one depends on its value and not on the text it had in
the source, so the round trip is up to that.  Negative zero is kept apart from zero by being
written as a double.
-/
namespace TypedJson

namespace Double

/-! An integral double is the integer times a power of two, and its sign is that of the integer. -/

theorem natAbs_units (d : Double) :
    d.units.natAbs = d.mantissa * twoTo (d.exponent + 1074).toNat := by
  unfold units
  dsimp only
  split
  · rw [Int.natAbs_neg, Int.natAbs_natCast]
  · rw [Int.natAbs_natCast]

theorem cast_units_natAbs (d : Double) :
    (d.units.natAbs : ℚ) = d.mantissa * 2 ^ d.exponent * 2 ^ (1074 : Int) := by
  have hexponent := d.canonical.2.1
  rw [natAbs_units, Nat.cast_mul, cast_twoTo_toNat (by omega), zpow_add₀ (by norm_num)]
  ring

theorem units_of_toInt? {d : Double} {i : Int} (h : d.toInt? = some i) :
    d.units = i * (twoTo 1074 : Nat) := by
  unfold toInt? at h
  split at h
  · rename_i hmod
    rw [Option.some.injEq] at h
    rw [← h]
    exact (Int.ediv_mul_cancel (Int.dvd_of_emod_eq_zero hmod)).symm
  · cases h

theorem cast_natAbs_of_toInt? {d : Double} {i : Int} (h : d.toInt? = some i) :
    (i.natAbs : ℚ) = d.mantissa * 2 ^ d.exponent := by
  have habs := cast_units_natAbs d
  rw [units_of_toInt? h, Int.natAbs_mul, Int.natAbs_natCast, Nat.cast_mul, cast_twoTo] at habs
  exact mul_right_cancel₀ (by positivity) habs

theorem negative_of_toInt? {d : Double} {i : Int} (h : d.toInt? = some i) (hm : d.mantissa ≠ 0) :
    d.negative = decide (i < 0) := by
  have hpos : (0 : Int) < (d.mantissa * twoTo (d.exponent + 1074).toNat : Nat) := by
    have hnat : 0 < d.mantissa * twoTo (d.exponent + 1074).toNat :=
      Nat.mul_pos (Nat.pos_of_ne_zero hm) (twoTo_pos _)
    exact_mod_cast hnat
  have htwo : (0 : Int) < (twoTo 1074 : Nat) := by exact_mod_cast twoTo_pos 1074
  have hunits := units_of_toInt? h
  cases hneg : d.negative
  · have hnot : ¬ d.units < 0 := by
      unfold units
      rw [hneg]
      exact not_lt.2 hpos.le
    rw [hunits] at hnot
    exact (decide_eq_false fun hi => hnot (mul_neg_of_neg_of_pos hi htwo)).symm
  · have hlt : d.units < 0 := by
      unfold units
      rw [hneg]
      exact neg_neg_of_pos hpos
    rw [hunits] at hlt
    exact (decide_eq_true (neg_of_mul_neg_left hlt htwo.le)).symm

theorem roundsTo_near {d : Double} (hm : d.mantissa ≠ 0) {x : ℚ}
    (hlow : d.mantissa * 2 ^ d.exponent - d.unit < x) (hhigh : x ≤ d.mantissa * 2 ^ d.exponent) :
    d.RoundsTo x := by
  have hu := d.unit_pos
  rw [two_zpow_exponent] at hlow hhigh
  have hstrict : d.roundingInterval.low * d.unit < x ∧ x < d.roundingInterval.high * d.unit := by
    rw [high_eq]
    constructor
    · rcases low_cases hm with ⟨-, -, heq⟩ | ⟨-, heq⟩
      · rw [heq]
        linarith
      · rw [heq]
        linarith
    · linarith
  unfold RoundsTo
  split
  · exact ⟨hstrict.1.le, hstrict.2.le⟩
  · exact hstrict

theorem eq_zero_of_mantissa {d : Double} (hm : d.mantissa = 0) (hplain : d ≠ negZero) :
    d = zero := by
  obtain ⟨negative, mantissa, exponent, hcanonical⟩ := d
  dsimp only at hm
  subst hm
  obtain rfl : exponent = -1074 := hcanonical.2.2.2.resolve_left (by decide)
  cases negative with
  | true => exact absurd rfl hplain
  | false => rfl

/-- The integer written for an integral double reads as the double: the one at the end of the
range, which is one too small, is still close enough. -/
theorem ofInt?_min {d : Double} {i : Int} (h : d.toInt? = some i) (hplain : d ≠ negZero)
    (hhigh : i ≤ twoTo 63) : ofInt? (min i ((twoTo 63 : Int) - 1)) = some d := by
  have habs := cast_natAbs_of_toInt? h
  by_cases hm : d.mantissa = 0
  · rw [eq_zero_of_mantissa hm hplain]
    rw [hm, Nat.cast_zero, zero_mul, Nat.cast_eq_zero, Int.natAbs_eq_zero] at habs
    subst habs
    rfl
  · have hu := d.unit_pos
    have hsign := negative_of_toInt? h hm
    unfold ofInt?
    by_cases hi : i < twoTo 63
    · rw [min_eq_left (by omega), ← hsign]
      refine ofRatio?_of_roundsTo hm Nat.one_pos ?_
      rw [Nat.cast_one, div_one, habs]
      exact roundsTo_near hm (by linarith) le_rfl
    · obtain rfl : i = twoTo 63 := by omega
      rw [min_eq_right (by omega)]
      have hnonneg : d.negative = decide ((twoTo 63 : Int) - 1 < 0) := hsign.trans (by decide)
      rw [← hnonneg]
      refine ofRatio?_of_roundsTo hm Nat.one_pos ?_
      have hvalue : (d.mantissa : ℚ) * 2 ^ d.exponent = 9223372036854775808 := by
        rw [← habs]
        norm_num
      have hnum : (((twoTo 63 : Int) - 1).natAbs : ℚ) = 9223372036854775807 := by norm_num
      rw [Nat.cast_one, div_one, hnum]
      refine roundsTo_near hm ?_ (by rw [hvalue]; norm_num)
      -- the last bit of so large a double stands for more than one
      have hmant := d.mantissa_le
      have hscale : (2 : ℚ) ^ d.exponent = 4 * d.unit := by
        unfold unit
        rw [zpow_sub₀ (by norm_num)]
        norm_num
        ring
      rw [hscale] at hvalue ⊢
      nlinarith

end Double

namespace Literal

theorem unsignedZero_eq {d : Double} (hplain : d ≠ Double.negZero) : d.unsignedZero = d := by
  unfold Double.unsignedZero
  split
  · rename_i hzero
    exact (Double.eq_zero_of_mantissa (beq_iff_eq.1 hzero) hplain).symm
  · rfl

theorem toDouble_numberToJson {d : Double} (hplain : d ≠ Double.negZero) :
    (numberToJson d).toDouble = d := by
  unfold numberToJson
  split
  · rename_i i hi
    split
    · rename_i hrange
      show (Double.ofInt? (min i ((twoTo 63 : Int) - 1))).getD Double.zero = d
      rw [Double.ofInt?_min hi hplain hrange.2]
      rfl
    · rfl
  · rfl

theorem fits_numberToJson (d : Double) : (numberToJson d).Fits := by
  unfold numberToJson
  split
  · split
    · rename_i hrange
      have h63 : ((twoTo 63 : Nat) : Int) = 9223372036854775808 := rfl
      have h64 : ((twoTo 64 : Nat) : Int) = 18446744073709551616 := rfl
      show _ ≤ min _ _ ∧ min _ _ < _
      rw [h63] at hrange ⊢
      rw [h64]
      omega
    · trivial
  · trivial

/-- **A literal written as JSON is read as the literal.** -/
theorem ofJson?_toJson (l : Literal) : ofJson? l.toJson = some l := by
  cases l with
  | bool b => rfl
  | str s => rfl
  | num d hplain =>
    show some (ofDouble (numberToJson d).toDouble) = _
    rw [toDouble_numberToJson hplain]
    have heq := unsignedZero_eq hplain
    unfold ofDouble
    congr 2

theorem decode_toJson (path : JsonPath) (l : Literal) :
    decode path (.ofJson l.toJson) = .ok l := by
  have hread := ofJson?_toJson l
  have htree : Decode.tree path (.ofJson l.toJson) = .ok l.toJson := by
    cases l <;> rfl
  unfold decode
  rw [htree]
  dsimp only [bind, Except.bind]
  rw [hread]
  rfl

end Literal

end TypedJson
