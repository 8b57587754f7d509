import TypedJson.Number.Double
/-!
# The decimal text of a double

`Double.shortest` is the decimal with the fewest digits that reads back as the
double, and the nearest such decimal when there are several.  Two notations
write it down: `Double.markedText`, which always shows that the number is no
integer and turns to an exponent for very large and very small numbers, and
`Double.plainText`, which is positional throughout and leaves out an empty
fraction.
-/
namespace TypedJson

/-- The decimal `coefficient · 10 ^ exponent`. -/
structure Decimal where
  coefficient : Nat
  exponent : Int
  deriving DecidableEq

namespace Decimal

def digits (n : Nat) : List Char := Nat.toDigits 10 n

def digitCount (n : Nat) : Nat := (digits n).length

/-- Takes up to `fuel` trailing zeros out of the coefficient. -/
def dropZeros : Nat → Decimal → Decimal
  | 0, d => d
  | fuel + 1, d =>
    if d.coefficient % 10 = 0 ∧ d.coefficient ≠ 0 then
      dropZeros fuel ⟨d.coefficient / 10, d.exponent + 1⟩
    else d

/-- The number of digits left of the decimal point, if positive. -/
def pointPosition (d : Decimal) : Int := digitCount d.coefficient + d.exponent

/-- Digits and zeros, with a point where it is needed. -/
def positional (d : Decimal) : List Char :=
  let ds := digits d.coefficient
  let point := d.pointPosition
  if 0 ≤ d.exponent then ds ++ List.replicate d.exponent.toNat '0'
  else if 0 < point then ds.take point.toNat ++ '.' :: ds.drop point.toNat
  else '0' :: '.' :: List.replicate (-point).toNat '0' ++ ds

/-- One digit, the others after a point, and the exponent, with a mark of its own if
it is not negative. -/
def scientific (d : Decimal) (plus : List Char) : List Char :=
  let e := d.pointPosition - 1
  let exponent := (if e < 0 then ['-'] else plus) ++ digits e.natAbs
  match digits d.coefficient with
  | [] => []
  | [c] => c :: 'e' :: exponent
  | c :: cs => c :: '.' :: cs ++ 'e' :: exponent

end Decimal

namespace Double

/-- The reals that round to a double lie between `low` and `high`, in units of a
quarter of its last mantissa bit; the ends belong to them when the mantissa is
even.  Below a power of two the neighbours are half as far apart. -/
structure RoundingInterval where
  low : Nat
  middle : Nat
  high : Nat
  closed : Bool

def roundingInterval (d : Double) : RoundingInterval :=
  let m := 4 * d.mantissa
  { low := if d.mantissa = twoTo 52 ∧ -1074 < d.exponent then m - 1 else m - 2
    middle := m
    high := m + 2
    closed := d.mantissa % 2 == 0 }

def RoundingInterval.contains (r : RoundingInterval) (num den : Nat) : Bool :=
  if r.closed then decide (r.low * den ≤ num ∧ num ≤ r.high * den)
  else decide (r.low * den < num ∧ num < r.high * den)

/-- The greatest `k` with `10 ^ k ≤ num / den`, for a positive quotient. -/
def decimalExponent (num den : Nat) : Int :=
  if den ≤ num then (Decimal.digitCount (num / den) : Int) - 1
  else -(Decimal.digitCount ((den - 1) / num) : Int)

/-- The multiple of `10 ^ g` nearest to `num / den` among the two next to it that
lie in the interval, in which a unit is `num / (middle · den)`. -/
def gridNeighbour (r : RoundingInterval) (unitNum unitDen : Nat) (g : Int) : Option Nat :=
  -- `c · 10 ^ g` measured in units is `c · stepNum / stepDen`
  let stepNum := if 0 ≤ g then tenTo g.toNat * unitDen else unitDen
  let stepDen := if 0 ≤ g then unitNum else unitNum * tenTo (-g).toNat
  let below := r.middle * stepDen / stepNum
  let above := below + 1
  let hitBelow := r.contains (below * stepNum) stepDen
  let hitAbove := r.contains (above * stepNum) stepDen
  let gapBelow := r.middle * stepDen - below * stepNum
  let gapAbove := above * stepNum - r.middle * stepDen
  if hitBelow && hitAbove then
    if gapBelow < gapAbove ∨ (gapBelow = gapAbove ∧ below % 2 = 0) then some below else some above
  else if hitBelow then some below
  else if hitAbove then some above
  else none

/-- Tries the grids of `count`, `count + 1`, … digits. -/
def shortestFrom (r : RoundingInterval) (unitNum unitDen : Nat) (top : Int) : Nat → Nat → Decimal
  | 0, _ => ⟨0, 0⟩
  | fuel + 1, count =>
    let g := top - count + 1
    match gridNeighbour r unitNum unitDen g with
    | some c => Decimal.dropZeros 20 ⟨c, g⟩
    | none => shortestFrom r unitNum unitDen top fuel (count + 1)

/-- The shortest decimal that reads back as the magnitude of the double; seventeen
digits always do. -/
def shortest (d : Double) : Decimal :=
  if d.mantissa = 0 then ⟨0, 0⟩
  else
    let e := d.exponent - 2
    let unitNum := if 0 ≤ e then twoTo e.toNat else 1
    let unitDen := if 0 ≤ e then 1 else twoTo (-e).toNat
    let r := d.roundingInterval
    shortestFrom r unitNum unitDen (decimalExponent (r.middle * unitNum) unitDen) 17 1

def signText (d : Double) : List Char := if d.negative then ['-'] else []

/-- Positional without a fraction that is empty. -/
def plainText (d : Double) : String :=
  String.ofList (d.signText ++ d.shortest.positional)

/-- Positional while the leading digit stands for a power of ten from `10 ^ least` to
`10 ^ 15`, with an exponent otherwise, and never without either a point or an exponent. -/
def markedText (least : Int) (plus : List Char) (d : Double) : String :=
  let s := d.shortest
  let point := s.pointPosition
  let body :=
    if d.mantissa = 0 then ['0', '.', '0']
    else if least < point ∧ point ≤ 16 then
      if 0 ≤ s.exponent then s.positional ++ ['.', '0'] else s.positional
    else s.scientific plus
  String.ofList (d.signText ++ body)

/-- The notation of JSON text: positional from `10 ^ -5` on, and `1e+16`. -/
def jsonText (d : Double) : String := d.markedText (-5) ['+']

/-- `plainText` with a fraction in any case. -/
def pointText (d : Double) : String :=
  if d.plainText.contains '.' then d.plainText else d.plainText ++ ".0"

end Double

/-! ## Reading decimal digits -/

/-- The number that a run of decimal digits spells. -/
def decimalValue (cs : List Char) : Nat :=
  cs.foldl (fun n c => 10 * n + (c.toNat - '0'.toNat)) 0

/-- The double that a text is the plain text of, if there is one: an optional
minus, digits, and possibly a point and more digits, spelled exactly as
`Double.plainText` spells the number. -/
def Double.ofPlainText? (text : String) : Option Double :=
  let cs := text.toList
  let negative := cs.head? == some '-'
  let body := if negative then cs.drop 1 else cs
  let whole := body.takeWhile Char.isDigit
  let fraction := match body.dropWhile Char.isDigit with
    | [] => some []
    | '.' :: ds => if ds.all Char.isDigit then some ds else none
    | _ => none
  match fraction with
  | none => none
  | some fs =>
    match Double.ofDecimal? negative (decimalValue (whole ++ fs)) (-(fs.length : Int)) with
    | none => none
    | some d => if d.plainText == text then some d else none

end TypedJson
