import Mathlib
import TypedJson.Number.Decimal
/-!
# Rounding to a double

`Double.ofRatio?` rounds a positive quotient in two steps: it fixes the exponent by comparing
the two integers with powers of two (`ratioExponent_eq`) and then rounds the scaled quotient to
an integer (`scaledQuotient_eq`).  The rationals that it rounds to a given double are those of
the double's rounding interval (`Double.ofRatio?_of_roundsTo`); the one place where the interval
is not symmetric is a power of two, below which the exponent found is one less
(`Double.BelowPower`).

The function works on natural numbers only, so that it can be run; the proofs are over the
rationals.  Each step gets a lemma that says when its integer result is a given one, in terms
of an inequality between rationals, and the two are put together at the end.  The unit of all
these inequalities is a quarter of the last bit: in it the ends of the interval and the
middle are integers, also for a power of two, whose lower end is a quarter of the last bit
away.
-/
namespace TypedJson

/-- A quotient within a half of an integer rounds to it; of two such integers the even one is
taken. -/
theorem roundedQuotient_eq {num den q : Nat} (hden : 0 < den)
    (hlow : (q : ℚ) - 1 / 2 ≤ num / den) (hhigh : (num : ℚ) / den ≤ q + 1 / 2)
    (hodd : q % 2 = 1 → (q : ℚ) - 1 / 2 < num / den ∧ (num : ℚ) / den < q + 1 / 2) :
    roundedQuotient num den = q := by
  have hden' : (0 : ℚ) < den := by exact_mod_cast hden
  have low : 2 * q * den ≤ 2 * num + den := by
    rw [le_div_iff₀ hden'] at hlow
    have h : (2 * q * den : ℚ) ≤ 2 * num + den := by linarith
    exact_mod_cast h
  have high : 2 * num ≤ 2 * q * den + den := by
    rw [div_le_iff₀ hden'] at hhigh
    have h : (2 * num : ℚ) ≤ 2 * q * den + den := by linarith
    exact_mod_cast h
  have strict : q % 2 = 1 → 2 * q * den < 2 * num + den ∧ 2 * num < 2 * q * den + den := by
    intro hq
    obtain ⟨h₁, h₂⟩ := hodd hq
    rw [lt_div_iff₀ hden'] at h₁
    rw [div_lt_iff₀ hden'] at h₂
    have h₁ : (2 * q * den : ℚ) < 2 * num + den := by linarith
    have h₂ : (2 * num : ℚ) < 2 * q * den + den := by linarith
    exact ⟨by exact_mod_cast h₁, by exact_mod_cast h₂⟩
  have hsplit : den * (num / den) + num % den = num := Nat.div_add_mod num den
  have hrest : num % den < den := Nat.mod_lt num hden
  unfold roundedQuotient
  generalize num / den = k at hsplit ⊢
  generalize num % den = r at hsplit hrest ⊢
  subst hsplit
  have hk : k ≤ q := by
    by_contra hlt
    have hmul : (q + 1) * den ≤ k * den := Nat.mul_le_mul_right den (by omega)
    nlinarith
  have hq : q ≤ k + 1 := by
    by_contra hlt
    have hmul : (k + 2) * den ≤ q * den := Nat.mul_le_mul_right den (by omega)
    nlinarith
  dsimp only
  rcases Nat.eq_or_lt_of_le hk with rfl | hlt
  · -- the rest is at most a half
    have hhalf : 2 * r ≤ den := by nlinarith
    rcases Nat.eq_or_lt_of_le hhalf with heq | hless
    · rw [if_neg (by omega), if_pos heq]
      have heven : k % 2 = 0 := by
        by_contra hne
        have hstrict := (strict (by omega)).2
        nlinarith
      omega
    · rw [if_pos hless]
  · -- the rest is at least a half
    obtain rfl : q = k + 1 := by omega
    have hhalf : den ≤ 2 * r := by nlinarith
    rw [if_neg (by omega)]
    rcases Nat.eq_or_lt_of_le hhalf with heq | hless
    · rw [if_pos heq.symm]
      have heven : (k + 1) % 2 = 0 := by
        by_contra hne
        have hstrict := (strict (by omega)).1
        nlinarith
      omega
    · rw [if_neg (by omega)]

namespace Double

/-! ## Powers of two

Scaling is by a natural power on one side or the other, depending on the sign of the
exponent.  As rationals both are one power, and the case split ends here. -/

theorem cast_twoTo (n : Nat) : ((twoTo n : Nat) : ℚ) = 2 ^ (n : Int) := by
  show ((2 ^ n : Nat) : ℚ) = _
  push_cast
  rw [zpow_natCast]

theorem cast_twoTo_toNat {e : Int} (he : 0 ≤ e) : ((twoTo e.toNat : Nat) : ℚ) = 2 ^ e := by
  rw [cast_twoTo, Int.toNat_of_nonneg he]

theorem twoTo_pos (n : Nat) : 0 < twoTo n := Nat.pow_pos (by decide)

theorem scaledQuotient_eq {num den : Nat} (hden : 0 < den) (e : Int) {q : Nat}
    (hlow : (q : ℚ) - 1 / 2 ≤ num / den / 2 ^ e) (hhigh : (num : ℚ) / den / 2 ^ e ≤ q + 1 / 2)
    (hodd : q % 2 = 1 →
      (q : ℚ) - 1 / 2 < num / den / 2 ^ e ∧ (num : ℚ) / den / 2 ^ e < q + 1 / 2) :
    scaledQuotient num den e = q := by
  unfold scaledQuotient
  by_cases he : 0 ≤ e
  · rw [if_pos he]
    have hcast : (num : ℚ) / ((den * twoTo e.toNat : Nat) : ℚ) = num / den / 2 ^ e := by
      rw [Nat.cast_mul, cast_twoTo_toNat he, div_div]
    exact roundedQuotient_eq (Nat.mul_pos hden (twoTo_pos _)) (hcast ▸ hlow) (hcast ▸ hhigh)
      fun hq => hcast ▸ hodd hq
  · rw [if_neg he]
    have hcast : ((num * twoTo (-e).toNat : Nat) : ℚ) / den = num / den / 2 ^ e := by
      rw [Nat.cast_mul, cast_twoTo_toNat (by omega), zpow_neg]
      field_simp
    exact roundedQuotient_eq hden (hcast ▸ hlow) (hcast ▸ hhigh) fun hq => hcast ▸ hodd hq

theorem ratioExponent_test (num : Nat) {den : Nat} (hden : 0 < den) (e : Int) :
    (if 0 ≤ e then den * twoTo e.toNat * twoTo 52 ≤ num
      else den * twoTo 52 ≤ num * twoTo (-e).toNat) ↔ (2 : ℚ) ^ (e + 52) ≤ num / den := by
  have hden' : (0 : ℚ) < den := by exact_mod_cast hden
  rw [le_div_iff₀ hden', zpow_add₀ (by norm_num : (2 : ℚ) ≠ 0)]
  have h52 : ((twoTo 52 : Nat) : ℚ) = 2 ^ (52 : Int) := cast_twoTo 52
  by_cases he : 0 ≤ e
  · rw [if_pos he, ← Nat.cast_le (α := ℚ), Nat.cast_mul, Nat.cast_mul, cast_twoTo_toNat he, h52,
      show (den : ℚ) * 2 ^ e * 2 ^ (52 : Int) = 2 ^ e * 2 ^ (52 : Int) * den by ring]
  · have hpos : (0 : ℚ) < 2 ^ e := by positivity
    rw [if_neg he, ← Nat.cast_le (α := ℚ), Nat.cast_mul, Nat.cast_mul,
      cast_twoTo_toNat (by omega), h52, zpow_neg, ← div_eq_mul_inv, le_div_iff₀ hpos,
      show (den : ℚ) * 2 ^ (52 : Int) * 2 ^ e = 2 ^ e * 2 ^ (52 : Int) * den by ring]

theorem ratioExponent_eq {num den : Nat} (hnum : 0 < num) (hden : 0 < den) {f : Int}
    (hlow : (2 : ℚ) ^ f ≤ num / den) (hhigh : (num : ℚ) / den < 2 ^ (f + 1)) :
    ratioExponent num den = max (f - 52) (-1074) := by
  have hden' : (0 : ℚ) < den := by exact_mod_cast hden
  have hnum' : (0 : ℚ) < num := by exact_mod_cast hnum
  have bounds : ∀ n : Nat, n ≠ 0 →
      (2 : ℚ) ^ (n.log2 : Int) ≤ n ∧ (n : ℚ) < 2 ^ ((n.log2 : Int) + 1) := by
    intro n hn
    constructor
    · rw [zpow_natCast]
      exact_mod_cast Nat.log2_self_le hn
    · rw [show ((n.log2 : Int) + 1) = ((n.log2 + 1 : Nat) : Int) by push_cast; rfl, zpow_natCast]
      exact_mod_cast Nat.lt_log2_self
  obtain ⟨hnumLow, hnumHigh⟩ := bounds num (by omega)
  obtain ⟨hdenLow, hdenHigh⟩ := bounds den (by omega)
  have hone : (1 : ℚ) < 2 := by norm_num
  -- the difference of the two logarithms is off by one at most
  have hupper : (num : ℚ) / den < 2 ^ ((num.log2 : Int) - den.log2 + 1) := by
    rw [div_lt_iff₀ hden']
    calc (num : ℚ) < 2 ^ ((num.log2 : Int) + 1) := hnumHigh
      _ = 2 ^ ((num.log2 : Int) - den.log2 + 1) * 2 ^ (den.log2 : Int) := by
        rw [← zpow_add₀ (by norm_num)]
        congr 1
        ring
      _ ≤ 2 ^ ((num.log2 : Int) - den.log2 + 1) * den :=
        mul_le_mul_of_nonneg_left hdenLow (by positivity)
  have hlower : (2 : ℚ) ^ ((num.log2 : Int) - den.log2 - 1) < num / den := by
    rw [lt_div_iff₀ hden']
    calc (2 : ℚ) ^ ((num.log2 : Int) - den.log2 - 1) * den
        < 2 ^ ((num.log2 : Int) - den.log2 - 1) * 2 ^ ((den.log2 : Int) + 1) :=
          mul_lt_mul_of_pos_left hdenHigh (by positivity)
      _ = 2 ^ (num.log2 : Int) := by
        rw [← zpow_add₀ (by norm_num)]
        congr 1
        ring
      _ ≤ num := hnumLow
  have h₁ : f < (num.log2 : Int) - den.log2 + 1 :=
    (zpow_lt_zpow_iff_right₀ hone).1 (hlow.trans_lt hupper)
  have h₂ : (num.log2 : Int) - den.log2 - 1 < f + 1 :=
    (zpow_lt_zpow_iff_right₀ hone).1 (hlower.trans hhigh)
  have htest := ratioExponent_test num hden ((num.log2 : Int) - den.log2 - 52)
  have hsimp : (num.log2 : Int) - den.log2 - 52 + 52 = num.log2 - den.log2 := by ring
  rw [hsimp] at htest
  unfold ratioExponent
  dsimp only
  by_cases hbig : (2 : ℚ) ^ ((num.log2 : Int) - den.log2) ≤ num / den
  · rw [if_pos (htest.2 hbig)]
    have hlt : (num.log2 : Int) - den.log2 < f + 1 :=
      (zpow_lt_zpow_iff_right₀ hone).1 (hbig.trans_lt hhigh)
    congr 1
    omega
  · rw [if_neg (mt htest.1 hbig)]
    have hlt : f < (num.log2 : Int) - den.log2 :=
      (zpow_lt_zpow_iff_right₀ hone).1 (hlow.trans_lt (not_le.1 hbig))
    congr 1
    omega

/-! ## The interval of a double

The interval is closed where the mantissa is even, since a tie goes to the even neighbour. -/

/-- A quarter of the last bit of the mantissa. -/
def unit (d : Double) : ℚ := 2 ^ (d.exponent - 2)

/-- The rational lies in the rounding interval of the double. -/
def RoundsTo (d : Double) (x : ℚ) : Prop :=
  if d.roundingInterval.closed then
    d.roundingInterval.low * d.unit ≤ x ∧ x ≤ d.roundingInterval.high * d.unit
  else d.roundingInterval.low * d.unit < x ∧ x < d.roundingInterval.high * d.unit

theorem unit_pos (d : Double) : 0 < d.unit := by
  unfold unit
  positivity

theorem RoundsTo.bounds {d : Double} {x : ℚ} (h : d.RoundsTo x) :
    d.roundingInterval.low * d.unit ≤ x ∧ x ≤ d.roundingInterval.high * d.unit := by
  unfold RoundsTo at h
  split at h
  · exact h
  · exact ⟨h.1.le, h.2.le⟩

theorem RoundsTo.strict {d : Double} {x : ℚ} (h : d.RoundsTo x) (hodd : d.mantissa % 2 = 1) :
    d.roundingInterval.low * d.unit < x ∧ x < d.roundingInterval.high * d.unit := by
  unfold RoundsTo at h
  have hopen : d.roundingInterval.closed = false := by simp [roundingInterval, hodd]
  rw [if_neg (by rw [hopen]; decide)] at h
  exact h

/-- Below, the interval reaches a half or a quarter of the last bit. -/
theorem low_cases {d : Double} (hm : d.mantissa ≠ 0) :
    (d.mantissa = twoTo 52 ∧ -1074 < d.exponent ∧
      (d.roundingInterval.low : ℚ) = 4 * d.mantissa - 1) ∨
    ((d.mantissa ≠ twoTo 52 ∨ d.exponent = -1074) ∧
      (d.roundingInterval.low : ℚ) = 4 * d.mantissa - 2) := by
  have hexponent := d.canonical.2.1
  by_cases hedge : d.mantissa = twoTo 52 ∧ -1074 < d.exponent
  · refine .inl ⟨hedge.1, hedge.2, ?_⟩
    have hlow : d.roundingInterval.low = 4 * d.mantissa - 1 := if_pos hedge
    rw [hlow, Nat.cast_sub (by omega)]
    push_cast
    ring
  · refine .inr ⟨?_, ?_⟩
    · by_contra hboth
      exact hedge ⟨by tauto, by omega⟩
    · have hlow : d.roundingInterval.low = 4 * d.mantissa - 2 := if_neg hedge
      rw [hlow, Nat.cast_sub (by omega)]
      push_cast
      ring

theorem le_low {d : Double} (hm : d.mantissa ≠ 0) :
    (4 * d.mantissa - 2 : ℚ) ≤ d.roundingInterval.low := by
  rcases low_cases hm with ⟨-, -, heq⟩ | ⟨-, heq⟩
  · rw [heq]
    linarith
  · rw [heq]

theorem high_eq (d : Double) : (d.roundingInterval.high : ℚ) = 4 * d.mantissa + 2 := by
  show ((4 * d.mantissa + 2 : Nat) : ℚ) = _
  push_cast
  ring

theorem one_le_mantissa {d : Double} (hm : d.mantissa ≠ 0) : (1 : ℚ) ≤ d.mantissa := by
  exact_mod_cast Nat.one_le_iff_ne_zero.2 hm

theorem mantissa_le (d : Double) : (d.mantissa : ℚ) ≤ 9007199254740991 := by
  have hle : d.mantissa ≤ 9007199254740991 := Nat.le_of_lt_succ d.canonical.1
  exact_mod_cast hle

theorem two_zpow_exponent_add (d : Double) (k : Int) :
    (2 : ℚ) ^ (d.exponent + k) = 2 ^ (k + 2) * d.unit := by
  unfold unit
  rw [← zpow_add₀ (by norm_num)]
  congr 1
  ring

theorem two_zpow_exponent (d : Double) : (2 : ℚ) ^ d.exponent = 4 * d.unit := by
  have h := d.two_zpow_exponent_add 0
  norm_num at h
  exact h

theorem RoundsTo.pos {d : Double} (hm : d.mantissa ≠ 0) {x : ℚ} (h : d.RoundsTo x) :
    2 * (2 : ℚ) ^ (-1076 : Int) ≤ x := by
  refine le_trans ?_ h.bounds.1
  have hmin : (2 : ℚ) ^ (-1076 : Int) ≤ d.unit := by
    unfold unit
    refine zpow_le_zpow_right₀ (by norm_num) ?_
    have hexponent := d.canonical.2.1
    omega
  have hlow := le_low hm
  have hm' := one_le_mantissa hm
  exact mul_le_mul (by linarith) hmin (by positivity) (by linarith)

theorem RoundsTo.lt_two_zpow {d : Double} {x : ℚ} (h : d.RoundsTo x) :
    x < 2 ^ (d.exponent + 53) := by
  rw [two_zpow_exponent_add]
  refine h.bounds.2.trans_lt (mul_lt_mul_of_pos_right ?_ d.unit_pos)
  have hmax := d.mantissa_le
  rw [high_eq]
  norm_num
  linarith

theorem ofParts?_self (d : Double) : ofParts? d.negative d.mantissa d.exponent = some d :=
  dif_pos d.canonical

/-! ## Just below a power of two

A rational here is rounded up to the power, but the exponent found for it is that of the
doubles below, so the mantissa comes out at the top of the range and the result is put in
form once more. -/

/-- The double is a power of two and the rational is below it, where the exponent is one less. -/
def BelowPower (d : Double) (x : ℚ) : Prop :=
  d.mantissa = twoTo 52 ∧ -1074 < d.exponent ∧ x < d.mantissa * 2 ^ d.exponent

theorem BelowPower.bounds {d : Double} {x : ℚ} (hbelow : d.BelowPower x) (h : d.RoundsTo x) :
    (2 ^ 54 - 1) * d.unit ≤ x ∧ x < 2 ^ 54 * d.unit := by
  obtain ⟨hpower, hexponent, hlt⟩ := hbelow
  have hmant : (d.mantissa : ℚ) = 2 ^ 52 := by
    rw [hpower]
    norm_num
  have hm : d.mantissa ≠ 0 := by
    rw [hpower]
    decide
  constructor
  · have hlow := h.bounds.1
    rcases low_cases hm with ⟨-, -, heq⟩ | ⟨hne | heq, -⟩
    · rw [heq, hmant] at hlow
      norm_num at hlow ⊢
      exact hlow
    · exact absurd hpower hne
    · omega
  · rw [hmant, two_zpow_exponent] at hlt
    norm_num at hlt ⊢
    linarith

theorem BelowPower.ratioExponent {d : Double} {num den : Nat} (hnum : 0 < num) (hden : 0 < den)
    (hbelow : d.BelowPower (num / den)) (h : d.RoundsTo (num / den)) :
    ratioExponent num den = d.exponent - 1 := by
  obtain ⟨hlow, hhigh⟩ := hbelow.bounds h
  have hexponent := hbelow.2.1
  have hu := d.unit_pos
  rw [ratioExponent_eq (f := d.exponent + 51) hnum hden]
  · rw [max_eq_left (by omega)]
    ring
  · rw [two_zpow_exponent_add]
    refine le_trans ?_ hlow
    norm_num
    linarith
  · rw [show d.exponent + 51 + 1 = d.exponent + 52 by ring, two_zpow_exponent_add]
    norm_num at hhigh ⊢
    exact hhigh

/-- There the mantissa is rounded up to the top. -/
theorem BelowPower.scaledQuotient {d : Double} {num den : Nat} (hden : 0 < den)
    (hbelow : d.BelowPower (num / den)) (h : d.RoundsTo (num / den)) :
    scaledQuotient num den (d.exponent - 1) = twoTo 53 := by
  obtain ⟨hlow, hhigh⟩ := hbelow.bounds h
  have hu := d.unit_pos
  have hhalf : (2 : ℚ) ^ (d.exponent - 1) = 2 * d.unit := by
    rw [sub_eq_add_neg, two_zpow_exponent_add]
    norm_num
  refine scaledQuotient_eq hden _ ?_ ?_ fun hodd => absurd hodd (by decide)
  · rw [hhalf, le_div_iff₀ (by linarith)]
    norm_num at hlow ⊢
    linarith
  · rw [hhalf, div_le_iff₀ (by linarith)]
    norm_num at hhigh ⊢
    linarith

/-! ## Everywhere else

The exponent found is that of the double, or the least one for a subnormal double, and the
rounded quotient is its mantissa. -/

theorem RoundsTo.two_zpow_le {d : Double} {x : ℚ} (h : d.RoundsTo x) (hbelow : ¬ d.BelowPower x)
    (hexponent : -1074 < d.exponent) : (2 : ℚ) ^ (d.exponent + 52) ≤ x := by
  have hu := d.unit_pos
  have hlarge : twoTo 52 ≤ d.mantissa := d.canonical.2.2.2.resolve_right (by omega)
  rw [two_zpow_exponent_add]
  by_cases hpower : d.mantissa = twoTo 52
  · have habove : (d.mantissa : ℚ) * 2 ^ d.exponent ≤ x :=
      not_lt.1 fun hlt => hbelow ⟨hpower, hexponent, hlt⟩
    rw [two_zpow_exponent, hpower] at habove
    norm_num at habove ⊢
    linarith
  · have hmore : (4503599627370497 : ℚ) ≤ d.mantissa := by
      have hlt : 4503599627370497 ≤ d.mantissa := Nat.lt_of_le_of_ne hlarge (Ne.symm hpower)
      exact_mod_cast hlt
    have hm : d.mantissa ≠ 0 := (Nat.pos_of_ne_zero (by decide) |>.trans_le hlarge).ne'
    refine le_trans (mul_le_mul_of_nonneg_right ?_ hu.le) h.bounds.1
    refine le_trans ?_ (le_low hm)
    norm_num
    linarith

theorem RoundsTo.ratioExponent {d : Double} {num den : Nat} (hm : d.mantissa ≠ 0) (hnum : 0 < num)
    (hden : 0 < den) (h : d.RoundsTo (num / den)) (hbelow : ¬ d.BelowPower (num / den)) :
    ratioExponent num den = d.exponent := by
  have hone : (1 : ℚ) < 2 := by norm_num
  have hpos : (0 : ℚ) < num / den := lt_of_lt_of_le (by positivity) (h.pos hm)
  obtain ⟨f, hfLow, hfHigh⟩ := exists_mem_Ico_zpow hpos hone
  have hlt : f < d.exponent + 53 :=
    (zpow_lt_zpow_iff_right₀ hone).1 (hfLow.trans_lt h.lt_two_zpow)
  have hleast := d.canonical.2.1
  rw [ratioExponent_eq hnum hden hfLow hfHigh]
  by_cases hexponent : -1074 < d.exponent
  · have hge : d.exponent + 52 < f + 1 :=
      (zpow_lt_zpow_iff_right₀ hone).1 ((h.two_zpow_le hbelow hexponent).trans_lt hfHigh)
    omega
  · omega

theorem RoundsTo.scaledQuotient {d : Double} {num den : Nat} (hm : d.mantissa ≠ 0)
    (hden : 0 < den) (h : d.RoundsTo (num / den)) :
    scaledQuotient num den d.exponent = d.mantissa := by
  obtain ⟨hlow, hhigh⟩ := h.bounds
  have hle := mul_le_mul_of_nonneg_right (le_low hm) d.unit_pos.le
  have hscaled : (0 : ℚ) < 2 ^ d.exponent := by positivity
  rw [high_eq] at hhigh
  refine scaledQuotient_eq hden _ ?_ ?_ fun hodd => ?_
  · rw [le_div_iff₀ hscaled, two_zpow_exponent]
    linarith
  · rw [div_le_iff₀ hscaled, two_zpow_exponent]
    linarith
  · obtain ⟨hlt, hgt⟩ := h.strict hodd
    rw [high_eq] at hgt
    rw [lt_div_iff₀ hscaled, div_lt_iff₀ hscaled, two_zpow_exponent]
    exact ⟨by linarith, by linarith⟩

/-- **A quotient in the rounding interval of a double rounds to the double.** -/
theorem ofRatio?_of_roundsTo {d : Double} (hm : d.mantissa ≠ 0) {num den : Nat} (hden : 0 < den)
    (h : d.RoundsTo (num / den)) : ofRatio? d.negative num den = some d := by
  have hnum : 0 < num := by
    rcases Nat.eq_zero_or_pos num with rfl | hpos
    · have hx := h.pos hm
      rw [Nat.cast_zero, zero_div] at hx
      exact absurd hx (not_le.2 (by positivity))
    · exact hpos
  unfold ofRatio?
  rw [if_neg (by omega)]
  dsimp only
  by_cases hbelow : d.BelowPower (num / den)
  · rw [hbelow.ratioExponent hnum hden h, hbelow.scaledQuotient hden h, if_pos rfl,
      sub_add_cancel, ← hbelow.1]
    exact d.ofParts?_self
  · rw [h.ratioExponent hm hnum hden hbelow, h.scaledQuotient hm hden,
      if_neg (Nat.ne_of_lt d.canonical.1)]
    exact d.ofParts?_self

end Double
end TypedJson
