import TypedJson.Json.Decoding
import TypedJson.Json.Printer
/-!
# Literal constants

A literal is a boolean, a number or a string that a type admits by value.  A number
is meant as a number: it has no negative zero, and `Literal.matchesValue` does not care
whether the data writes it as an integer or as a double.  In JSON it is written as
an integer wherever it is one that fits into 64 bits.
-/
namespace TypedJson

inductive Literal
  | bool (value : Bool)
  | num (value : Double) (plain : value ≠ Double.negZero)
  | str (value : String)
  deriving DecidableEq

theorem Double.unsignedZero_ne (d : Double) : d.unsignedZero ≠ Double.negZero := by
  unfold Double.unsignedZero
  split
  · decide
  · rename_i h
    intro e
    subst e
    exact h rfl

namespace Literal

def ofDouble (d : Double) : Literal := .num d.unsignedZero d.unsignedZero_ne

/-- The literal that a value spells, if it is a scalar other than `null`. -/
def ofJson? : Json → Option Literal
  | .bool b => some (.bool b)
  | .number n => some (ofDouble n.toDouble)
  | .string s => some (.str s)
  | _ => none

/-- Integers from `-2 ^ 63` to `2 ^ 63` are written as such, the last one as the
largest integer of 64 bits; its nearest double is `2 ^ 63` again. -/
def numberToJson (d : Double) : JsonNumber :=
  match d.toInt? with
  | some i => if -(twoTo 63 : Int) ≤ i ∧ i ≤ twoTo 63 then .int (min i ((twoTo 63 : Int) - 1)) else .float d
  | none => .float d

def toJson : Literal → Json
  | .bool b => .bool b
  | .num d _ => .number (numberToJson d)
  | .str s => .string s

/-- Strict equality with a data value: nothing is converted. -/
def matchesValue : Literal → Json → Bool
  | .bool a, .bool b => a == b
  | .str a, .string b => a == b
  | .num a _, .number n => n.toDouble.unsignedZero == a
  | _, _ => false

def text (l : Literal) : String := l.toJson.compact

/-- The decoder of a literal: any scalar other than `null`. -/
def decode : Decoder Literal := fun path d => do
  let j ← Decode.tree path d
  match ofJson? j with
  | some l => pure l
  | none => Decode.fail path (.noVariant "Literal")

end Literal
end TypedJson
