import TypedJson.Proofs.Rounding
/-!
# The shortest decimal of a double

`Double.shortest` tries grids of one, two, … digits and takes a neighbour of the double on the
first grid that has one in the rounding interval.  On the grid of seventeen digits there always
is one (`Double.step_lt_width`), since its step is less than the distance between two
doubles.  So the decimal lies in the rounding interval of the double (`Double.shortest_roundsTo`),
and reading it gives the double back (`Double.ofDecimal?_of_roundsTo`).

Nothing is shown of the decimal being the shortest one: the round trip needs only that it
lies in the interval.  What has to be shown for that is that the search does not end without
a point, so the last grid is looked at, and the others are passed over by `shortestFrom_eq`.
-/
namespace TypedJson

namespace Decimal

/-- The number that the decimal stands for. -/
def value (d : Decimal) : ℚ := d.coefficient * 10 ^ d.exponent

theorem value_dropZeros : ∀ (fuel : Nat) (d : Decimal), (dropZeros fuel d).value = d.value
  | 0, _ => rfl
  | fuel + 1, d => by
    unfold dropZeros
    split
    · rename_i h
      rw [value_dropZeros fuel]
      have hsplit : (d.coefficient : ℚ) = 10 * (d.coefficient / 10 : Nat) := by
        have hnat : d.coefficient = 10 * (d.coefficient / 10) := by omega
        exact_mod_cast hnat
      show ((d.coefficient / 10 : Nat) : ℚ) * 10 ^ (d.exponent + 1) = d.coefficient * 10 ^ d.exponent
      rw [hsplit, zpow_add_one₀ (by norm_num)]
      ring
    · rfl

theorem digitCount_pos (n : Nat) : 0 < digitCount n := Nat.length_toDigits_pos

theorem lt_tenTo_digitCount (n : Nat) : n < tenTo (digitCount n) :=
  (Nat.length_toDigits_le_iff (by decide) (digitCount_pos n)).1 (Nat.le_refl _)

theorem tenTo_le_of_digitCount {n : Nat} (hn : n ≠ 0) : tenTo (digitCount n - 1) ≤ n := by
  by_cases hone : digitCount n = 1
  · rw [hone]
    exact Nat.one_le_iff_ne_zero.2 hn
  · have hpos := digitCount_pos n
    by_contra hlt
    have hle := (Nat.length_toDigits_le_iff (b := 10) (n := n) (by decide)
      (show 0 < digitCount n - 1 by omega)).2 (Nat.lt_of_not_le hlt)
    have hle : digitCount n ≤ digitCount n - 1 := hle
    omega

end Decimal

namespace Double

open Decimal

theorem cast_tenTo (n : Nat) : ((tenTo n : Nat) : ℚ) = 10 ^ (n : Int) := by
  show ((10 ^ n : Nat) : ℚ) = _
  push_cast
  rw [zpow_natCast]

theorem cast_tenTo_toNat {e : Int} (he : 0 ≤ e) : ((tenTo e.toNat : Nat) : ℚ) = 10 ^ e := by
  rw [cast_tenTo, Int.toNat_of_nonneg he]

theorem tenTo_pos (n : Nat) : 0 < tenTo n := Nat.pow_pos (by decide)

theorem tenTo_decimalExponent_le {num den : Nat} (hnum : 0 < num) (hden : 0 < den) :
    (10 : ℚ) ^ decimalExponent num den ≤ num / den := by
  have hden' : (0 : ℚ) < den := by exact_mod_cast hden
  rw [le_div_iff₀ hden']
  unfold decimalExponent
  by_cases hle : den ≤ num
  · rw [if_pos hle]
    have hq : num / den ≠ 0 := Nat.ne_of_gt (Nat.div_pos hle hden)
    have hcount := digitCount_pos (num / den)
    have hexponent : (digitCount (num / den) : Int) - 1 = ((digitCount (num / den) - 1 : Nat) : Int) := by
      omega
    have hmul : tenTo (digitCount (num / den) - 1) * den ≤ num :=
      (Nat.mul_le_mul_right den (tenTo_le_of_digitCount hq)).trans (Nat.div_mul_le_self num den)
    rw [hexponent, ← cast_tenTo]
    exact_mod_cast hmul
  · rw [if_neg hle]
    have hlt := lt_tenTo_digitCount ((den - 1) / num)
    have hmul : den ≤ num * tenTo (digitCount ((den - 1) / num)) := by
      have h := (Nat.div_lt_iff_lt_mul hnum).1 hlt
      rw [Nat.mul_comm] at h
      omega
    have hcast : (den : ℚ) ≤ num * 10 ^ (digitCount ((den - 1) / num) : Int) := by
      rw [← cast_tenTo]
      exact_mod_cast hmul
    rw [zpow_neg, inv_mul_le_iff₀ (by positivity), mul_comm]
    exact hcast

/-! ## The grids

A grid is given by two integers, the numerator and the denominator of its step in units of
the interval, so that whether a point is in the interval is a question about integers.  Of
two neighbours of the middle at least one is close enough if the step is less than the
interval is wide. -/

/-- The step of the grid of multiples of `10 ^ g`, measured in units: numerator. -/
def stepNum (unitDen : Nat) (g : Int) : Nat :=
  if 0 ≤ g then tenTo g.toNat * unitDen else unitDen

/-- The step of the grid of multiples of `10 ^ g`, measured in units: denominator. -/
def stepDen (unitNum : Nat) (g : Int) : Nat :=
  if 0 ≤ g then unitNum else unitNum * tenTo (-g).toNat

theorem step_eq {unitNum unitDen : Nat} (hnum : 0 < unitNum) (hden : 0 < unitDen) (g : Int) :
    (stepNum unitDen g : ℚ) / stepDen unitNum g = 10 ^ g / (unitNum / unitDen) := by
  have hnum' : (unitNum : ℚ) ≠ 0 := by exact_mod_cast hnum.ne'
  have hden' : (unitDen : ℚ) ≠ 0 := by exact_mod_cast hden.ne'
  unfold stepNum stepDen
  by_cases hg : 0 ≤ g
  · rw [if_pos hg, if_pos hg, Nat.cast_mul, cast_tenTo_toNat hg]
    field_simp
  · rw [if_neg hg, if_neg hg, Nat.cast_mul, cast_tenTo_toNat (by omega), zpow_neg]
    have hpos : (10 : ℚ) ^ g ≠ 0 := by positivity
    field_simp

theorem stepNum_pos {unitDen : Nat} (hden : 0 < unitDen) (g : Int) : 0 < stepNum unitDen g := by
  unfold stepNum
  split
  · exact Nat.mul_pos (tenTo_pos _) hden
  · exact hden

theorem stepDen_pos {unitNum : Nat} (hnum : 0 < unitNum) (g : Int) : 0 < stepDen unitNum g := by
  unfold stepDen
  split
  · exact hnum
  · exact Nat.mul_pos hnum (tenTo_pos _)

/-- The point of a grid next to the middle of the interval, the step being `n / k` units. -/
def gridPoint? (r : RoundingInterval) (n k : Nat) : Option Nat :=
  let below := r.middle * k / n
  let above := below + 1
  let gapBelow := r.middle * k - below * n
  let gapAbove := above * n - r.middle * k
  if r.contains (below * n) k && r.contains (above * n) k then
    if gapBelow < gapAbove ∨ (gapBelow = gapAbove ∧ below % 2 = 0) then some below else some above
  else if r.contains (below * n) k then some below
  else if r.contains (above * n) k then some above
  else none

theorem gridNeighbour_eq (r : RoundingInterval) (unitNum unitDen : Nat) (g : Int) :
    gridNeighbour r unitNum unitDen g = gridPoint? r (stepNum unitDen g) (stepDen unitNum g) := rfl

theorem contains_of_gridPoint? {r : RoundingInterval} {n k c : Nat}
    (h : gridPoint? r n k = some c) : r.contains (c * n) k = true := by
  unfold gridPoint? at h
  dsimp only at h
  cases hhit : r.contains (r.middle * k / n * n) k <;>
    cases hnext : r.contains ((r.middle * k / n + 1) * n) k <;>
    simp only [hhit, hnext, Bool.and_true, Bool.and_false, Bool.false_eq_true, if_false, if_true,
      reduceCtorEq, Option.some.injEq] at h
  · rw [← h]
    exact hnext
  · rw [← h]
    exact hhit
  · split at h
    · rw [← Option.some.inj h]
      exact hhit
    · rw [← Option.some.inj h]
      exact hnext

/-- A grid whose step is less than the interval is wide has a point in it. -/
theorem gridPoint?_ne_none {r : RoundingInterval} {n k : Nat} (hn : 0 < n)
    (hlow : r.low < r.middle) (hhigh : r.middle < r.high) (hstep : n + r.low * k < r.high * k) :
    gridPoint? r n k ≠ none := by
  have hbelow := Nat.div_mul_le_self (r.middle * k) n
  have habove := Nat.lt_div_mul_add (a := r.middle * k) hn
  have hends : r.low * k ≤ r.middle * k := Nat.mul_le_mul_right _ hlow.le
  have strict : ∀ x, r.low * k < x → x < r.high * k → r.contains x k = true := by
    intro x h₁ h₂
    unfold RoundingInterval.contains
    split
    · exact decide_eq_true ⟨h₁.le, h₂.le⟩
    · exact decide_eq_true ⟨h₁, h₂⟩
  -- the point below or the point above lies strictly between the ends
  have hit : r.contains (r.middle * k / n * n) k = true ∨
      r.contains ((r.middle * k / n + 1) * n) k = true := by
    by_cases hinside : r.low * k < r.middle * k / n * n
    · have hk : 0 < k := by
        rcases Nat.eq_zero_or_pos k with rfl | hpos
        · simp at hstep
        · exact hpos
      exact .inl (strict _ hinside (hbelow.trans_lt (Nat.mul_lt_mul_of_pos_right hhigh hk)))
    · have hsum : (r.middle * k / n + 1) * n = r.middle * k / n * n + n := Nat.succ_mul _ n
      exact .inr (strict _ (by omega) (by omega))
  unfold gridPoint?
  dsimp only
  rcases hit with hit | hit
  · rw [hit]
    split
    · split <;> exact Option.some_ne_none _
    · exact Option.some_ne_none _
  · rw [hit]
    split
    · split <;> exact Option.some_ne_none _
    · split <;> exact Option.some_ne_none _

/-- The grids are tried until one has a point in the interval. -/
theorem shortestFrom_eq {r : RoundingInterval} {unitNum unitDen : Nat} {top : Int}
    (hlast : gridNeighbour r unitNum unitDen (top - 16) ≠ none) :
    ∀ (fuel count : Nat), 0 < fuel → fuel + count = 18 →
      ∃ c g, r.contains (c * stepNum unitDen g) (stepDen unitNum g) = true ∧
        shortestFrom r unitNum unitDen top fuel count = Decimal.dropZeros 20 ⟨c, g⟩
  | 0, _, hpos, _ => absurd hpos (Nat.lt_irrefl 0)
  | fuel + 1, count, _, hsum => by
    unfold shortestFrom
    dsimp only
    cases hgrid : gridNeighbour r unitNum unitDen (top - count + 1) with
    | some c =>
      rw [gridNeighbour_eq] at hgrid
      exact ⟨c, _, contains_of_gridPoint? hgrid, rfl⟩
    | none =>
      by_cases hfuel : fuel = 0
      · obtain rfl : count = 17 := by omega
        exact absurd ((show top - (17 : Nat) + 1 = top - 16 by push_cast; ring) ▸ hgrid) hlast
      · exact shortestFrom_eq hlast fuel (count + 1) (by omega) (by omega)

/-- A grid point in the interval, as a rational. -/
theorem roundsTo_of_contains {d : Double} {unitNum unitDen : Nat} (hnum : 0 < unitNum)
    (hden : 0 < unitDen) (hunit : (unitNum : ℚ) / unitDen = d.unit) {c : Nat} {g : Int}
    (h : d.roundingInterval.contains (c * stepNum unitDen g) (stepDen unitNum g) = true) :
    d.RoundsTo (c * 10 ^ g) := by
  have hk : (0 : ℚ) < stepDen unitNum g := by exact_mod_cast stepDen_pos hnum g
  have hu := d.unit_pos
  -- the integers compared are the rationals, scaled by one factor
  have hscale : 0 < d.unit / stepDen unitNum g := div_pos hu hk
  have hend : ∀ a : Nat, (a : ℚ) * d.unit =
      ((a * stepDen unitNum g : Nat) : ℚ) * (d.unit / stepDen unitNum g) := by
    intro a
    push_cast
    field_simp
  have hpoint : (c : ℚ) * 10 ^ g =
      ((c * stepNum unitDen g : Nat) : ℚ) * (d.unit / stepDen unitNum g) := by
    have heq := step_eq hnum hden g
    rw [hunit, div_eq_div_iff hk.ne' hu.ne'] at heq
    push_cast
    rw [mul_div_assoc', mul_assoc, heq]
    field_simp
  unfold RoundsTo
  unfold RoundingInterval.contains at h
  split at h
  · rename_i hclosed
    obtain ⟨h₁, h₂⟩ := of_decide_eq_true h
    rw [if_pos hclosed, hend, hend, hpoint]
    exact ⟨mul_le_mul_of_nonneg_right (Nat.cast_le.2 h₁) hscale.le,
      mul_le_mul_of_nonneg_right (Nat.cast_le.2 h₂) hscale.le⟩
  · rename_i hopen
    obtain ⟨h₁, h₂⟩ := of_decide_eq_true h
    rw [if_neg hopen, hend, hend, hpoint]
    exact ⟨mul_lt_mul_of_pos_right (Nat.cast_lt.2 h₁) hscale,
      mul_lt_mul_of_pos_right (Nat.cast_lt.2 h₂) hscale⟩

/-! ## The decimal

With seventeen digits the step is at most the number divided by `10 ^ 16`.  That is less than
the distance to the next double, as `10 ^ 16` is more than `2 ^ 53`.  Reading goes the other
way round with `ofRatio?_of_roundsTo`, except that exponents out of any range are cut off
before the powers are computed, and it has to be shown that those of a double are not among
them. -/

theorem unit_eq (d : Double) :
    (((if 0 ≤ d.exponent - 2 then twoTo (d.exponent - 2).toNat else 1 : Nat) : ℚ) /
      ((if 0 ≤ d.exponent - 2 then 1 else twoTo (-(d.exponent - 2)).toNat : Nat) : ℚ)) = d.unit := by
  unfold unit
  by_cases he : 0 ≤ d.exponent - 2
  · rw [if_pos he, if_pos he, cast_twoTo_toNat he, Nat.cast_one, div_one]
  · rw [if_neg he, if_neg he, cast_twoTo_toNat (by omega), Nat.cast_one, zpow_neg, one_div, inv_inv]

/-- With seventeen digits the grid is finer than the interval is wide. -/
theorem step_lt_width {d : Double} (hm : d.mantissa ≠ 0) {unitNum unitDen : Nat}
    (hnum : 0 < unitNum) (hden : 0 < unitDen) (hunit : (unitNum : ℚ) / unitDen = d.unit)
    {top : Int} (htop : (10 : ℚ) ^ top ≤ d.roundingInterval.middle * d.unit) :
    stepNum unitDen (top - 16) + d.roundingInterval.low * stepDen unitNum (top - 16) <
      d.roundingInterval.high * stepDen unitNum (top - 16) := by
  have hk : (0 : ℚ) < stepDen unitNum (top - 16) := by exact_mod_cast stepDen_pos hnum _
  have hu := d.unit_pos
  have hmiddle : (d.roundingInterval.middle : ℚ) = 4 * d.mantissa := by
    show ((4 * d.mantissa : Nat) : ℚ) = _
    push_cast
    rfl
  have hstep : (stepNum unitDen (top - 16) : ℚ) ≤
      4 * d.mantissa / 10 ^ 16 * stepDen unitNum (top - 16) := by
    have heq := step_eq hnum hden (top - 16)
    rw [hunit, zpow_sub₀ (by norm_num), div_eq_iff hk.ne'] at heq
    rw [heq, div_div]
    refine mul_le_mul_of_nonneg_right ?_ hk.le
    rw [div_le_div_iff₀ (by positivity) (by positivity)]
    rw [hmiddle] at htop
    norm_num
    linarith
  have hwidth : 4 * (d.mantissa : ℚ) / 10 ^ 16 <
      d.roundingInterval.high - d.roundingInterval.low := by
    rw [high_eq, div_lt_iff₀ (by norm_num)]
    have hmax := d.mantissa_le
    rcases low_cases hm with ⟨hpower, -, hlow⟩ | ⟨-, hlow⟩
    · rw [hlow, hpower]
      norm_num
    · rw [hlow]
      norm_num
      linarith
  have hlt := mul_lt_mul_of_pos_right hwidth hk
  have hsum : (stepNum unitDen (top - 16) : ℚ) +
      d.roundingInterval.low * stepDen unitNum (top - 16) <
      d.roundingInterval.high * stepDen unitNum (top - 16) := by linarith
  exact_mod_cast hsum

theorem low_lt_middle {d : Double} (hm : d.mantissa ≠ 0) :
    d.roundingInterval.low < d.roundingInterval.middle := by
  show (if d.mantissa = twoTo 52 ∧ -1074 < d.exponent then 4 * d.mantissa - 1
    else 4 * d.mantissa - 2) < 4 * d.mantissa
  split <;> omega

/-- **The shortest decimal of a double lies in its rounding interval.** -/
theorem shortest_roundsTo {d : Double} (hm : d.mantissa ≠ 0) : d.RoundsTo d.shortest.value := by
  have hunit := d.unit_eq
  unfold shortest
  rw [if_neg hm]
  dsimp only
  have hnum : 0 < (if 0 ≤ d.exponent - 2 then twoTo (d.exponent - 2).toNat else 1 : Nat) := by
    split
    · exact twoTo_pos _
    · exact Nat.one_pos
  have hden : 0 < (if 0 ≤ d.exponent - 2 then 1 else twoTo (-(d.exponent - 2)).toNat : Nat) := by
    split
    · exact Nat.one_pos
    · exact twoTo_pos _
  generalize (if 0 ≤ d.exponent - 2 then twoTo (d.exponent - 2).toNat else 1 : Nat) = unitNum
    at hunit hnum ⊢
  generalize (if 0 ≤ d.exponent - 2 then 1 else twoTo (-(d.exponent - 2)).toNat : Nat) = unitDen
    at hunit hden ⊢
  have hmiddle : 0 < d.roundingInterval.middle := (Nat.zero_le _).trans_lt (low_lt_middle hm)
  have htop := tenTo_decimalExponent_le (Nat.mul_pos hmiddle hnum) hden
  rw [Nat.cast_mul, mul_div_assoc, hunit] at htop
  have hlast : gridNeighbour d.roundingInterval unitNum unitDen
      (decimalExponent (d.roundingInterval.middle * unitNum) unitDen - 16) ≠ none := by
    rw [gridNeighbour_eq]
    exact gridPoint?_ne_none (stepNum_pos hden _) (low_lt_middle hm)
      (Nat.lt_add_of_pos_right (by decide)) (step_lt_width hm hnum hden hunit htop)
  obtain ⟨c, g, hcontains, heq⟩ := shortestFrom_eq hlast 17 1 (by decide) rfl
  rw [heq, Decimal.value_dropZeros]
  exact roundsTo_of_contains hnum hden hunit hcontains

theorem RoundsTo.lt {d : Double} {x : ℚ} (h : d.RoundsTo x) : x < 2 ^ (1024 : Int) := by
  refine h.bounds.2.trans_lt ?_
  have hmax : d.unit ≤ 2 ^ (969 : Int) := by
    unfold unit
    refine zpow_le_zpow_right₀ (by norm_num) ?_
    have hexponent := d.canonical.2.2.1
    omega
  have hmant := d.mantissa_le
  calc (d.roundingInterval.high : ℚ) * d.unit
      ≤ (4 * 9007199254740991 + 2) * 2 ^ (969 : Int) := by
        rw [high_eq]
        exact mul_le_mul (by linarith) hmax d.unit_pos.le (by norm_num)
    _ < 2 ^ (55 : Int) * 2 ^ (969 : Int) :=
        mul_lt_mul_of_pos_right (by norm_num) (by positivity)
    _ = 2 ^ (1024 : Int) := (zpow_add₀ (by norm_num) 55 969).symm

theorem two_zpow_le_ten_zpow : (2 : ℚ) ^ (1024 : Int) ≤ 10 ^ (311 : Int) := by
  have h : twoTo 1024 ≤ tenTo 311 := by decide +kernel
  have hcast := Nat.cast_le (α := ℚ) |>.2 h
  rw [cast_twoTo, cast_tenTo] at hcast
  exact hcast

theorem ten_zpow_le_two_zpow : (10 : ℚ) ^ (-331 : Int) ≤ 2 * 2 ^ (-1076 : Int) := by
  have h : twoTo 1075 ≤ tenTo 331 := by decide +kernel
  have hcast := Nat.cast_le (α := ℚ) |>.2 h
  rw [cast_twoTo, cast_tenTo] at hcast
  calc (10 : ℚ) ^ (-331 : Int) = (10 ^ (331 : Int))⁻¹ := zpow_neg _ _
    _ ≤ (2 ^ (1075 : Int))⁻¹ := inv_anti₀ (by positivity) hcast
    _ = 2 ^ (-1075 : Int) := (zpow_neg _ _).symm
    _ = 2 ^ (1 : Int) * 2 ^ (-1076 : Int) := zpow_add₀ (by norm_num) 1 (-1076)
    _ = 2 * 2 ^ (-1076 : Int) := by rw [zpow_one]

/-- **Reading a decimal in the rounding interval of a double gives the double.** -/
theorem ofDecimal?_of_roundsTo {d : Double} (hm : d.mantissa ≠ 0) {c : Nat} {e : Int}
    (h : d.RoundsTo (c * 10 ^ e)) : ofDecimal? d.negative c e = some d := by
  have hpos := h.pos hm
  have hlt := h.lt
  have hc : c ≠ 0 := by
    rintro rfl
    rw [Nat.cast_zero, zero_mul] at hpos
    exact absurd hpos (not_le.2 (by positivity))
  have hbelow : (c : ℚ) < 10 ^ (digitCount c : Int) := by
    rw [← cast_tenTo]
    exact_mod_cast lt_tenTo_digitCount c
  have habove : (10 : ℚ) ^ ((digitCount c : Int) - 1) ≤ c := by
    have hcount := digitCount_pos c
    rw [show (digitCount c : Int) - 1 = ((digitCount c - 1 : Nat) : Int) by omega, ← cast_tenTo]
    exact_mod_cast tenTo_le_of_digitCount hc
  have hscale : (0 : ℚ) < 10 ^ e := by positivity
  unfold ofDecimal?
  dsimp only
  change (if c = 0 ∨ (digitCount c : Int) + e < -330 then _ else if 311 < (digitCount c : Int) + e
    then _ else _) = _
  rw [if_neg, if_neg]
  · by_cases he : 0 ≤ e
    · rw [if_pos he]
      refine ofRatio?_of_roundsTo hm Nat.one_pos ?_
      rw [Nat.cast_mul, cast_tenTo_toNat he, Nat.cast_one, div_one]
      exact h
    · rw [if_neg he]
      refine ofRatio?_of_roundsTo hm (tenTo_pos _) ?_
      rw [cast_tenTo_toNat (by omega), zpow_neg, div_inv_eq_mul]
      exact h
  · -- not too large
    intro hlarge
    have hge : (10 : ℚ) ^ (311 : Int) ≤ c * 10 ^ e := by
      calc (10 : ℚ) ^ (311 : Int) ≤ 10 ^ ((digitCount c : Int) - 1 + e) :=
            zpow_le_zpow_right₀ (by norm_num) (by omega)
        _ = 10 ^ ((digitCount c : Int) - 1) * 10 ^ e := zpow_add₀ (by norm_num) _ _
        _ ≤ c * 10 ^ e := mul_le_mul_of_nonneg_right habove hscale.le
    exact absurd (hge.trans_lt hlt) (not_lt.2 two_zpow_le_ten_zpow)
  · -- not too small
    rintro (hzero | hsmall)
    · exact hc hzero
    · have hle : (c : ℚ) * 10 ^ e < 10 ^ (-331 : Int) := by
        calc (c : ℚ) * 10 ^ e < 10 ^ (digitCount c : Int) * 10 ^ e :=
              mul_lt_mul_of_pos_right hbelow hscale
          _ = 10 ^ ((digitCount c : Int) + e) := (zpow_add₀ (by norm_num) _ _).symm
          _ ≤ 10 ^ (-331 : Int) := zpow_le_zpow_right₀ (by norm_num) (by omega)
      exact absurd (hpos.trans_lt hle) (not_lt.2 ten_zpow_le_two_zpow)

end Double
end TypedJson
