import TypedJson.Basic
/-!
# Finite doubles, held exactly

A JSON number that is no integer is a double: a sign, a 53-bit mantissa and a
power of two.  `Double` keeps those three parts in their one canonical form, so
two doubles are equal as values exactly when they are the same double, the two
zeros being the only pair that also compare equal as numbers
(`Double.sameNumber`).  Every operation is done on exact integers and rounded
once, to nearest with ties to even, by `Double.ofRatio`; infinities and NaN do
not exist here, and a result too large for a double is `none`.
-/
namespace TypedJson

/-- The mantissa and exponent of a double, in their one canonical form. -/
def CanonicalParts (mantissa : Nat) (exponent : Int) : Prop :=
  mantissa < twoTo 53 ∧ -1074 ≤ exponent ∧ exponent ≤ 971 ∧
    (twoTo 52 ≤ mantissa ∨ exponent = -1074)

instance (m : Nat) (e : Int) : Decidable (CanonicalParts m e) :=
  inferInstanceAs (Decidable (_ ∧ _ ∧ _ ∧ _))

/-- The finite double `± mantissa · 2 ^ exponent`. -/
structure Double where
  negative : Bool
  mantissa : Nat
  exponent : Int
  canonical : CanonicalParts mantissa exponent
  deriving DecidableEq

/-- The quotient rounded to the nearest integer, a half to the even neighbour. -/
def roundedQuotient (num den : Nat) : Nat :=
  let q := num / den
  let twice := 2 * (num % den)
  if twice < den then q
  else if twice = den then q + q % 2
  else q + 1

namespace Double

def zero : Double := ⟨false, 0, -1074, by decide⟩

def negZero : Double := ⟨true, 0, -1074, by decide⟩

instance : Inhabited Double := ⟨zero⟩

/-- The double with these parts, if they are canonical. -/
def ofParts? (negative : Bool) (mantissa : Nat) (exponent : Int) : Option Double :=
  if h : CanonicalParts mantissa exponent then some ⟨negative, mantissa, exponent, h⟩ else none

/-- `num / (den · 2 ^ e)`, rounded to an integer. -/
def scaledQuotient (num den : Nat) (e : Int) : Nat :=
  if 0 ≤ e then roundedQuotient num (den * twoTo e.toNat)
  else roundedQuotient (num * twoTo (-e).toNat) den

/-- The exponent that gives `num / den` 53 significant bits, or the least one. -/
def ratioExponent (num den : Nat) : Int :=
  let e : Int := (num.log2 : Int) - den.log2 - 52
  let big := if 0 ≤ e then den * twoTo e.toNat * twoTo 52 ≤ num
    else den * twoTo 52 ≤ num * twoTo (-e).toNat
  max (if big then e else e - 1) (-1074)

/-- The double nearest to `± num / den`; `none` when that is beyond the largest one. -/
def ofRatio? (negative : Bool) (num den : Nat) : Option Double :=
  if num = 0 then ofParts? negative 0 (-1074)
  else
    let e := ratioExponent num den
    let q := scaledQuotient num den e
    if q = twoTo 53 then ofParts? negative (twoTo 52) (e + 1) else ofParts? negative q e

/-- The double nearest to `± coefficient · 10 ^ exponent`.  The two early answers
keep the powers of ten small and are those of the general rule: the number is
above `10 ^ 310`, or below `10 ^ -330`. -/
def ofDecimal? (negative : Bool) (coefficient : Nat) (exponent : Int) : Option Double :=
  let magnitude := (Nat.toDigits 10 coefficient).length + exponent
  if coefficient = 0 ∨ magnitude < -330 then ofParts? negative 0 (-1074)
  else if 311 < magnitude then none
  else if 0 ≤ exponent then ofRatio? negative (coefficient * tenTo exponent.toNat) 1
  else ofRatio? negative coefficient (tenTo (-exponent).toNat)

/-- The double nearest to an integer. -/
def ofInt? (i : Int) : Option Double := ofRatio? (decide (i < 0)) i.natAbs 1

/-- The value in units of the least positive double, `2 ^ -1074`. -/
def units (d : Double) : Int :=
  let n : Int := ((d.mantissa * twoTo (d.exponent + 1074).toNat : Nat) : Int)
  if d.negative then -n else n

/-- The double nearest to `n` units of `2 ^ -1074`; zero takes the given sign. -/
def ofUnits? (zeroSign : Bool) (n : Int) : Option Double :=
  ofRatio? (if n = 0 then zeroSign else decide (n < 0)) n.natAbs (twoTo 1074)

/-- Equality as numbers: the two zeros are the same number. -/
def sameNumber (a b : Double) : Bool := a.units == b.units

def isZero (d : Double) : Bool := d.mantissa == 0

/-- The same number without the sign of a zero. -/
def unsignedZero (d : Double) : Double := if d.isZero then zero else d

def add? (a b : Double) : Option Double :=
  ofUnits? (a.negative && b.negative) (a.units + b.units)

def neg (d : Double) : Double := { d with negative := !d.negative }

def mul? (a b : Double) : Option Double :=
  ofRatio? (a.negative != b.negative) (a.units.natAbs * b.units.natAbs) (twoTo 2148)

/-- The quotient of two doubles; `none` too when the divisor is zero. -/
def div? (a b : Double) : Option Double :=
  if b.isZero then none
  else ofRatio? (a.negative != b.negative) a.units.natAbs b.units.natAbs

/-- The remainder of the quotient rounded toward zero; it has the dividend's sign. -/
def rem? (a b : Double) : Option Double :=
  if b.isZero then none else ofUnits? a.negative (a.units.tmod b.units)

/-- The integer that the double is, if it is one. -/
def toInt? (d : Double) : Option Int :=
  if d.units % twoTo 1074 = 0 then some (d.units / twoTo 1074) else none

def isIntegral (d : Double) : Bool := d.toInt?.isSome

/-- The 64-bit word of the interchange format. -/
def word (d : Double) : Nat :=
  let fields := if d.mantissa < twoTo 52 then d.mantissa
    else (d.exponent + 1075).toNat * twoTo 52 + (d.mantissa - twoTo 52)
  if d.negative then twoTo 63 + fields else fields

end Double
end TypedJson
