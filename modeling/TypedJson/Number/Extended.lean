import TypedJson.Number.Decimal
/-!
# Doubles with infinities

The results of arithmetic that a finite double cannot hold: a quotient by zero, or
a number beyond the largest double, is infinite, and what has no value at all is
`nan`.  The finite case is left to the exact operations of `Double`.
-/
namespace TypedJson

inductive Extended
  | finite (value : Double)
  | infinite (negative : Bool)
  | nan
  deriving DecidableEq

namespace Extended

instance : Inhabited Extended := ⟨.nan⟩

/-- A double, or the infinity that stands for what is too large for one. -/
def ofOption (negative : Bool) : Option Double → Extended
  | some d => .finite d
  | none => .infinite negative

def ofInt (i : Int) : Extended := ofOption (decide (i < 0)) (Double.ofInt? i)

def ofDecimal (negative : Bool) (coefficient : Nat) (exponent : Int) : Extended :=
  ofOption negative (Double.ofDecimal? negative coefficient exponent)

def isNegative : Extended → Bool
  | .finite d => d.negative
  | .infinite n => n
  | .nan => false

def isZero : Extended → Bool
  | .finite d => d.isZero
  | _ => false

def neg : Extended → Extended
  | .finite d => .finite d.neg
  | .infinite n => .infinite (!n)
  | .nan => .nan

def abs (x : Extended) : Extended := if x.isNegative then x.neg else x

def add : Extended → Extended → Extended
  | .finite a, .finite b => ofOption a.negative (a.add? b)
  | .infinite m, .infinite n => if m = n then .infinite m else .nan
  | .infinite m, .finite _ => .infinite m
  | .finite _, .infinite n => .infinite n
  | _, _ => .nan

def sub (a b : Extended) : Extended := a.add b.neg

def mul (a b : Extended) : Extended :=
  let negative := a.isNegative != b.isNegative
  match a, b with
  | .finite x, .finite y => ofOption negative (x.mul? y)
  | .nan, _ | _, .nan => .nan
  | _, _ => if a.isZero || b.isZero then .nan else .infinite negative

def div (a b : Extended) : Extended :=
  let negative := a.isNegative != b.isNegative
  match a, b with
  | .finite x, .finite y =>
    if y.isZero then (if x.isZero then .nan else .infinite negative)
    else ofOption negative (x.div? y)
  | .infinite _, .finite _ => .infinite negative
  | .finite _, .infinite _ => .finite (if negative then Double.negZero else Double.zero)
  | _, _ => .nan

/-- The remainder of the quotient rounded toward zero; it has the dividend's sign. -/
def rem : Extended → Extended → Extended
  | .finite a, .finite b => match a.rem? b with | some d => .finite d | none => .nan
  | .finite a, .infinite _ => .finite a
  | _, _ => .nan

/-- The order of the numbers.  The two zeros are equal, and `nan` comes before
everything, itself included. -/
def compare : Extended → Extended → Ordering
  | .nan, _ => .lt
  | _, .nan => .gt
  | .finite a, .finite b => Ord.compare a.units b.units
  | .infinite m, .infinite n => if m = n then .eq else if m then .lt else .gt
  | .infinite m, .finite _ => if m then .lt else .gt
  | .finite _, .infinite n => if n then .gt else .lt

end Extended
end TypedJson
