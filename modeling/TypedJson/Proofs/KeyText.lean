import TypedJson.Conformance.Check
import TypedJson.Proofs.LiteralText
/-!
# Keys that spell numbers

A key spells a number if it is the plain text of a double.  Reading the digits of that text gives
the double back (`Double.ofPlainText?_plainText`), so no key spells two numbers and
`Scalar.numericKey?` finds the one that it spells (`Scalar.numericKey?_eq_some_iff`).  Doubles of
the same value are equal but for the sign of a zero (`Double.sameNumber_iff`), so a numeric literal
admits the keys that spell its value (`Check.literalAdmits_iff`).

A numeric key is compared with a literal by its text, while data is compared by value.  The
two agree because the text of a double is canonical: the program accepts a key as a number
only if printing what it read gives the key again.  So there is nothing to say about how a
key like `07` would be read; it spells no number.
-/
namespace TypedJson

open Decimal

namespace Double

/-- The text of a whole number, or of one with a point and more digits, is read as the double that
its digits round to. -/
theorem ofPlainText?_of_digits {d : Double} {body whole fraction : List Char}
    (htext : d.shortest.positional = body) (hwhole : IsWhole whole)
    (hdigits : ∀ c ∈ fraction, c.isDigit = true)
    (hbody : (body = whole ∧ fraction = []) ∨ body = whole ++ '.' :: fraction)
    (hread : ofDecimal? d.negative (decimalValue (whole ++ fraction)) (-(fraction.length : Int)) =
      some d) : ofPlainText? d.plainText = some d := by
  have hstop : ∀ rest : List Char, rest = [] ∨ (∃ ds, rest = '.' :: ds) →
      (whole ++ rest).takeWhile Char.isDigit = whole ∧
        (whole ++ rest).dropWhile Char.isDigit = rest := by
    intro rest hrest
    rw [List.takeWhile_append_of_pos hwhole.digits, List.dropWhile_append_of_pos hwhole.digits]
    rcases hrest with rfl | ⟨ds, rfl⟩
    · simp
    · simp [show Char.isDigit '.' = false from rfl]
  have hhead : body.head? ≠ some '-' := by
    rcases hbody with ⟨rfl, -⟩ | rfl
    · exact Source.head_digits hwhole
    · rw [List.head?_append_of_ne_nil whole hwhole.nonempty]
      exact Source.head_digits hwhole
  have hnegative : ((d.signText ++ body).head? == some '-') = d.negative := by
    unfold signText
    cases d.negative with
    | true => rfl
    | false => exact beq_eq_false_iff_ne.2 hhead
  have hdropped :
      (if d.negative then (d.signText ++ body).drop 1 else d.signText ++ body) = body := by
    unfold signText
    cases d.negative <;> rfl
  unfold ofPlainText?
  dsimp only
  rw [show d.plainText.toList = d.signText ++ body by rw [plainText, String.toList_ofList, htext],
    hnegative, hdropped]
  rcases hbody with ⟨rfl, rfl⟩ | rfl
  · have hparts := hstop [] (.inl rfl)
    rw [List.append_nil] at hparts hread
    rw [hparts.1, hparts.2]
    simp only [List.append_nil, hread, beq_self_eq_true, if_true]
  · have hparts := hstop ('.' :: fraction) (.inr ⟨fraction, rfl⟩)
    rw [hparts.1, hparts.2]
    have hall : fraction.all Char.isDigit = true := List.all_eq_true.2 hdigits
    simp only [hall, hread, beq_self_eq_true, if_true]

/-- **A double is read back from its plain text.** -/
theorem ofPlainText?_plainText (d : Double) : ofPlainText? d.plainText = some d := by
  by_cases hm : d.mantissa = 0
  · have hleast : d.exponent = -1074 := by
      have hnormal := d.canonical.2.2.2
      rw [hm] at hnormal
      exact hnormal.resolve_left (by decide)
    have htext : d.shortest.positional = ['0'] := by
      unfold shortest
      rw [if_pos hm]
      rfl
    refine ofPlainText?_of_digits htext (isWhole_digits 0) (fun c hc => ?_) (.inl ⟨rfl, rfl⟩) ?_
    · exact absurd hc List.not_mem_nil
    · unfold ofDecimal?
      dsimp only
      rw [if_pos (.inl rfl), ← hm, ← hleast]
      exact d.ofParts?_self
  · have hread : ∀ {ds : List Char} {n : Nat},
        (decimalValue ds : ℚ) * 10 ^ (-(n : Int)) = d.shortest.value →
        ofDecimal? d.negative (decimalValue ds) (-(n : Int)) = some d := fun hvalue =>
      ofDecimal?_of_roundsTo hm (hvalue ▸ shortest_roundsTo hm)
    have hdigits : ∀ c ∈ digits d.shortest.coefficient, c.isDigit = true :=
      fun c => isDigit_of_mem_digits
    have hzeros : ∀ n, ∀ c ∈ List.replicate n '0', c.isDigit = true := by
      intro n c hc
      rw [List.eq_of_mem_replicate hc]
      decide
    have hwhole := isWhole_digits d.shortest.coefficient
    by_cases hexponent : 0 ≤ d.shortest.exponent
    · have htext : d.shortest.positional = digits d.shortest.coefficient ++
          List.replicate d.shortest.exponent.toNat '0' := by
        unfold positional
        dsimp only
        rw [if_pos hexponent]
      refine ofPlainText?_of_digits htext (hwhole.append (Source.digits_ne_zero hm) (hzeros _))
        (fun c hc => absurd hc List.not_mem_nil) (.inl ⟨rfl, rfl⟩) (hread (n := 0) ?_)
      rw [List.append_nil, cast_decimalValue_zeros, decimalValue_digits,
        Int.toNat_of_nonneg hexponent, Nat.cast_zero, neg_zero, zpow_zero, mul_one]
      rfl
    · by_cases hpoint : 0 < d.shortest.pointPosition
      · have htext : d.shortest.positional =
            (digits d.shortest.coefficient).take d.shortest.pointPosition.toNat ++
              '.' :: (digits d.shortest.coefficient).drop d.shortest.pointPosition.toNat := by
          unfold positional
          dsimp only
          rw [if_neg hexponent, if_pos hpoint]
        refine ofPlainText?_of_digits htext (hwhole.take (by omega))
          (fun c hc => hdigits c (List.mem_of_mem_drop hc)) (.inr rfl) (hread ?_)
        have hvalue := value_inside (d := d.shortest) (by omega) hpoint
        rwa [zero_sub] at hvalue
      · have htext : d.shortest.positional = ['0'] ++ '.' ::
            (List.replicate (-d.shortest.pointPosition).toNat '0' ++
              digits d.shortest.coefficient) := by
          unfold positional
          dsimp only
          rw [if_neg hexponent, if_neg hpoint]
          rfl
        refine ofPlainText?_of_digits htext (isWhole_digits 0) (fun c hc => ?_) (.inr rfl) (hread ?_)
        · rcases List.mem_append.1 hc with hc | hc
          · exact hzeros _ c hc
          · exact hdigits c hc
        · have hvalue := value_below (d := d.shortest) (by omega)
          rwa [zero_sub] at hvalue

theorem plainText_of_ofPlainText? {text : String} {d : Double} (h : ofPlainText? text = some d) :
    text = d.plainText := by
  unfold ofPlainText? at h
  dsimp only at h
  split at h
  · cases h
  · split at h
    · cases h
    · split at h
      · rename_i htext
        cases h
        exact (beq_iff_eq.1 htext).symm
      · cases h

/-! ## Equality as numbers

The parts of a double are canonical too: a mantissa with a leading bit, or the least
exponent.  So two doubles of one value have equal parts, and only zero has two signs. -/

theorem parts_eq {a b : Double}
    (h : a.mantissa * twoTo (a.exponent + 1074).toNat = b.mantissa * twoTo (b.exponent + 1074).toNat)
    (hle : a.exponent ≤ b.exponent) : a.mantissa = b.mantissa ∧ a.exponent = b.exponent := by
  obtain ⟨halt, halow, -, -⟩ := a.canonical
  obtain ⟨-, -, -, hbnormal⟩ := b.canonical
  obtain ⟨k, hk⟩ := Int.le.dest hle
  have hpower : twoTo (b.exponent + 1074).toNat = twoTo (a.exponent + 1074).toNat * twoTo k := by
    show 2 ^ _ = 2 ^ _ * 2 ^ _
    rw [← Nat.pow_add]
    congr 1
    omega
  have hmantissa : a.mantissa = b.mantissa * twoTo k := by
    rw [hpower, Nat.mul_left_comm, Nat.mul_comm] at h
    exact Nat.eq_of_mul_eq_mul_left (twoTo_pos _) h
  cases k with
  | zero => exact ⟨by rw [hmantissa]; exact Nat.mul_one _, by omega⟩
  | succ k =>
    -- a larger exponent comes with a full mantissa, and twice that is too large for the other
    have hfull : twoTo 52 ≤ b.mantissa := hbnormal.resolve_right (by omega)
    have htwice : twoTo (k + 1) = 2 * twoTo k := Nat.pow_succ'
    have hone : 1 ≤ twoTo k := twoTo_pos k
    have hlarge : twoTo 53 ≤ b.mantissa * twoTo (k + 1) := by
      rw [htwice]
      calc twoTo 53 = twoTo 52 * (2 * 1) := rfl
        _ ≤ b.mantissa * (2 * twoTo k) := Nat.mul_le_mul hfull (by omega)
    omega

theorem units_eq_zero_iff {d : Double} : d.units = 0 ↔ d.isZero = true := by
  rw [← Int.natAbs_eq_zero, natAbs_units, Nat.mul_eq_zero,
    or_iff_left (Nat.ne_of_gt (twoTo_pos _)), isZero, beq_iff_eq]

theorem negative_iff_units_neg {d : Double} (h : d.units ≠ 0) :
    d.negative = true ↔ d.units < 0 := by
  unfold units at *
  generalize d.mantissa * twoTo (d.exponent + 1074).toNat = n at *
  cases hsign : d.negative with
  | true =>
    simp only [hsign, if_true, true_iff] at *
    omega
  | false =>
    simp only [hsign, if_false, Bool.false_eq_true, false_iff] at *
    omega

theorem eq_of_units_eq {a b : Double} (h : a.units = b.units) (hne : a.units ≠ 0) : a = b := by
  have habs := congrArg Int.natAbs h
  rw [natAbs_units, natAbs_units] at habs
  have hsign : a.negative = b.negative := by
    rw [Bool.eq_iff_iff, negative_iff_units_neg hne, negative_iff_units_neg (h ▸ hne), h]
  have hparts : a.mantissa = b.mantissa ∧ a.exponent = b.exponent := by
    rcases Int.le_total a.exponent b.exponent with hle | hle
    · exact parts_eq habs hle
    · obtain ⟨hm, he⟩ := parts_eq habs.symm hle
      exact ⟨hm.symm, he.symm⟩
  obtain ⟨na, ma, ea, ca⟩ := a
  obtain ⟨nb, mb, eb, cb⟩ := b
  obtain ⟨rfl, rfl⟩ := hparts
  cases hsign
  rfl

/-- **Doubles are the same number exactly if they are equal but for the sign of a zero.** -/
theorem sameNumber_iff {a b : Double} :
    a.sameNumber b = true ↔ a.unsignedZero = b.unsignedZero := by
  unfold sameNumber unsignedZero
  rw [beq_iff_eq]
  cases ha : a.isZero with
  | true =>
    rw [units_eq_zero_iff.2 ha, eq_comm, units_eq_zero_iff]
    cases hb : b.isZero with
    | true => simp
    | false =>
      simp only [if_true, if_false, Bool.false_eq_true, false_iff]
      rintro rfl
      cases hb
  | false =>
    have hne : a.units ≠ 0 := fun h => by
      rw [units_eq_zero_iff.1 h] at ha
      cases ha
    cases hb : b.isZero with
    | true =>
      rw [units_eq_zero_iff.2 hb]
      simp only [if_true, if_false, Bool.false_eq_true]
      refine iff_of_false hne ?_
      rintro rfl
      cases ha
    | false =>
      simp only [if_false, Bool.false_eq_true]
      exact ⟨fun h => eq_of_units_eq h hne, fun h => congrArg units h⟩

end Double

/-- **The numeric reading of a key is the number whose plain text it is.** -/
theorem Scalar.numericKey?_eq_some_iff {key : String} {d : Double} :
    numericKey? key = some d ↔ key = d.plainText := by
  constructor
  · exact Double.plainText_of_ofPlainText?
  · rintro rfl
    exact d.ofPlainText?_plainText

theorem Scalar.isSome_numericKey?_iff {key : String} :
    (numericKey? key).isSome = true ↔ ∃ d : Double, key = d.plainText := by
  rw [Option.isSome_iff_exists]
  exact exists_congr fun _ => numericKey?_eq_some_iff

/-- The literal is the key, or the number that the key is the text of. -/
def Literal.IsKey (key : String) : Literal → Prop
  | .bool _ => False
  | .num d _ => ∃ n : Double, key = n.plainText ∧ n.sameNumber d = true
  | .str s => s = key

theorem Check.literalAdmits_iff {key : String} {l : Literal} :
    literalAdmits key l = true ↔ l.IsKey key := by
  cases l with
  | bool b => exact iff_of_false Bool.false_ne_true id
  | str s => exact beq_iff_eq
  | num d plain =>
    simp only [literalAdmits, Literal.IsKey, Option.any_eq_true, beq_iff_eq,
      Scalar.numericKey?_eq_some_iff, Double.sameNumber_iff, Literal.unsignedZero_eq plain]

end TypedJson
