import TypedJson.Proofs.KeyText
import TypedJson.Proofs.SchemaFile
/-!
# The JSON form of a literal

A double that is an integer in the range from `-2 ^ 63` to `2 ^ 63` is written as an integer of
sixty-four bits, any other one as a double (`Literal.numberToJson_cases`).  The integer written is
the nearest of sixty-four bits, so it is the double itself but for `2 ^ 63`, where it is one less;
reading it rounds back to the double.  The sign of a zero is the only thing that is lost
(`Literal.sameNumber_numberToJson`), and equality of literals does not see it.

All comparisons are made with exact integers: a double is an integer number of units of `2 ^
-1074`, and it is the integer `i` if that number is `i` times `2 ^ 1074`.  So no rounding
comes into the statements but the one that is their subject.
-/
namespace TypedJson

namespace Double

/-- The double is this integer. -/
def IsInteger (d : Double) (i : Int) : Prop := d.units = i * (twoTo 1074 : Nat)

theorem IsInteger.unique {d : Double} {i j : Int} (hi : d.IsInteger i) (hj : d.IsInteger j) :
    i = j := by
  have hne : ((twoTo 1074 : Nat) : Int) ≠ 0 := Int.natCast_ne_zero.2 (twoTo_pos 1074).ne'
  exact Int.eq_of_mul_eq_mul_right hne (hi.symm.trans hj)

theorem toInt?_eq_some_iff {d : Double} {i : Int} : d.toInt? = some i ↔ d.IsInteger i := by
  refine ⟨units_of_toInt?, fun h => ?_⟩
  have hmod : d.units % (twoTo 1074 : Nat) = 0 := Int.emod_eq_zero_of_dvd ⟨i, by rw [h, mul_comm]⟩
  have hsome : d.toInt? = some (d.units / (twoTo 1074 : Nat)) := if_pos hmod
  have hread : d.IsInteger (d.units / (twoTo 1074 : Nat)) := units_of_toInt? hsome
  rw [hsome, hread.unique h]

theorem toInt?_eq_none_iff {d : Double} : d.toInt? = none ↔ ∀ i, ¬ d.IsInteger i := by
  simp only [Option.eq_none_iff_forall_ne_some, ne_eq, toInt?_eq_some_iff]

end Double

namespace Literal

/-- The nearest integer of sixty-four bits. -/
def saturated (i : Int) : Int := max (-(twoTo 63 : Int)) (min i ((twoTo 63 : Int) - 1))

theorem saturated_eq {i : Int} (hlow : -(twoTo 63 : Int) ≤ i) (hhigh : i < twoTo 63) :
    saturated i = i := by
  unfold saturated
  rw [min_eq_left (by omega), max_eq_right hlow]

theorem saturated_top : saturated (twoTo 63) = (twoTo 63 : Int) - 1 := by decide

/-- A double is written as the nearest integer of sixty-four bits if it is an integer of the range,
and as itself otherwise. -/
theorem numberToJson_cases (d : Double) :
    (∃ i : Int, d.IsInteger i ∧ -(twoTo 63 : Int) ≤ i ∧ i ≤ twoTo 63 ∧
      numberToJson d = .int (saturated i)) ∨
    ((∀ i : Int, d.IsInteger i → i < -(twoTo 63 : Int) ∨ (twoTo 63 : Int) < i) ∧
      numberToJson d = .float d) := by
  unfold numberToJson
  cases hd : d.toInt? with
  | none => exact .inr ⟨fun i hi => (Double.toInt?_eq_none_iff.1 hd i hi).elim, rfl⟩
  | some i =>
    have hi := Double.toInt?_eq_some_iff.1 hd
    dsimp only
    split
    · rename_i hrange
      refine .inl ⟨i, hi, hrange.1, hrange.2, ?_⟩
      unfold saturated
      rw [max_eq_right (le_min hrange.1 (by decide))]
    · refine .inr ⟨fun j hj => ?_, rfl⟩
      rw [hj.unique hi]
      omega

theorem isInteger_of_numberToJson {d : Double} {j : Int} (h : numberToJson d = .int j) :
    d.IsInteger j ∨ (d.IsInteger (twoTo 63) ∧ j = (twoTo 63 : Int) - 1) := by
  rcases numberToJson_cases d with ⟨i, hi, hlow, hhigh, hwritten⟩ | ⟨-, hwritten⟩
  · rw [hwritten, JsonNumber.int.injEq] at h
    by_cases htop : i = twoTo 63
    · rw [htop] at hi h
      exact .inr ⟨hi, h.symm.trans saturated_top⟩
    · rw [saturated_eq hlow (by omega)] at h
      exact .inl (h ▸ hi)
  · rw [hwritten] at h
    cases h

theorem numberToJson_negZero : numberToJson Double.negZero = numberToJson Double.zero := by
  decide +kernel

theorem numberToJson_unsignedZero (d : Double) : numberToJson d.unsignedZero = numberToJson d := by
  by_cases hneg : d = Double.negZero
  · rw [hneg]
    exact numberToJson_negZero.symm
  · rw [unsignedZero_eq hneg]

/-- What is written for a double reads as the same number. -/
theorem sameNumber_numberToJson (d : Double) : (numberToJson d).toDouble.sameNumber d = true := by
  rw [Double.sameNumber_iff, ← numberToJson_unsignedZero, toDouble_numberToJson d.unsignedZero_ne,
    unsignedZero_eq d.unsignedZero_ne]

theorem ofDouble_eq_iff {a b : Double} : ofDouble a = ofDouble b ↔ a.sameNumber b = true := by
  unfold ofDouble
  rw [num.injEq, Double.sameNumber_iff]

theorem matchesValue_toJson (l : Literal) : l.matchesValue l.toJson = true := by
  cases l with
  | bool b => exact beq_self_eq_true b
  | str s => exact beq_self_eq_true s
  | num d hplain =>
    show ((numberToJson d).toDouble.unsignedZero == d) = true
    rw [toDouble_numberToJson hplain, unsignedZero_eq hplain]
    exact beq_self_eq_true d

theorem decode_text (path : JsonPath) (l : Literal) :
    decode path (.ofSource (Source.ofString l.text)) = .ok l := by
  unfold text
  rw [(Document.ofSource_printed (fits_toJson l)).1]
  exact decode_toJson path l

/-- **The JSON form of a literal is the literal.**  A literal matches its JSON form and is decoded
from it, as a value and as text.  The number that is written for a double, the negative zero
included, is the same number, and literals are equal if they are the same number.  What is written
is the nearest integer of sixty-four bits for an integer from `-2 ^ 63` to `2 ^ 63`, and the double
otherwise; that integer is the double except at `2 ^ 63`, where it is one less. -/
theorem toJson_faithful :
    (∀ l : Literal, l.matchesValue l.toJson = true ∧
      ∀ path, decode path (.ofJson l.toJson) = .ok l ∧
        decode path (.ofSource (Source.ofString l.text)) = .ok l) ∧
    (∀ d : Double, (ofDouble d).toJson = .number (numberToJson d) ∧
      (numberToJson d).toDouble.sameNumber d = true) ∧
    (∀ a b : Double, ofDouble a = ofDouble b ↔ a.sameNumber b = true) ∧
    ∀ d : Double,
      ((∃ i : Int, d.IsInteger i ∧ -(twoTo 63 : Int) ≤ i ∧ i ≤ twoTo 63 ∧
          numberToJson d = .int (saturated i)) ∨
        ((∀ i : Int, d.IsInteger i → i < -(twoTo 63 : Int) ∨ (twoTo 63 : Int) < i) ∧
          numberToJson d = .float d)) ∧
      ∀ j : Int, numberToJson d = .int j →
        d.IsInteger j ∨ (d.IsInteger (twoTo 63) ∧ j = (twoTo 63 : Int) - 1) := by
  refine ⟨fun l => ⟨matchesValue_toJson l, fun path => ⟨decode_toJson path l, decode_text path l⟩⟩,
    fun d => ⟨?_, sameNumber_numberToJson d⟩, fun a b => ofDouble_eq_iff,
    fun d => ⟨numberToJson_cases d, fun j h => isInteger_of_numberToJson h⟩⟩
  exact congrArg Json.number (numberToJson_unsignedZero d)

/-- At `-2 ^ 63` and `2 ^ 63`, and at the doubles next to them on either side. -/
example :
    [Double.ofParts? true (twoTo 52 + 1) 11, Double.ofParts? true (twoTo 52) 11,
      Double.ofParts? true (twoTo 53 - 1) 10, Double.ofParts? false (twoTo 53 - 1) 10,
      Double.ofParts? false (twoTo 52) 11, Double.ofParts? false (twoTo 52 + 1) 11].map
        (·.map fun d => (numberToJson d).text) =
    [some "-9.223372036854778e+18", some "-9223372036854775808", some "-9223372036854774784",
      some "9223372036854774784", some "9223372036854775807", some "9.223372036854778e+18"] := by
  decide +kernel

end Literal

end TypedJson
