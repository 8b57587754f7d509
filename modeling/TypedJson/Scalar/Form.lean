import TypedJson.Json.Printer
import TypedJson.Scalar.Date
import TypedJson.Pattern.Check
/-!
# What a data value can stand for

Data has no dates and no patterns of its own, so they travel in disguise: a date as
a text, as a number of milliseconds, or inside an object whose only member is
`$date`; a pattern inside an object whose only member is `$regex`.
-/
namespace TypedJson

/-- The name of the kind of a value, or of its absence. -/
def Json.typeName : Option Json → String
  | none => "undefined"
  | some (.bool _) => "boolean"
  | some (.number _) => "number"
  | some (.string _) => "string"
  | some _ => "object"

/-- A string as it is, anything else as JSON text. -/
def Json.plainText : Json → String
  | .string s => s
  | j => j.compact

namespace Scalar

def dateTag : String := "$date"

def patternTag : String := "$regex"

def isIntegral : Json → Bool
  | .number (.int _) => true
  | .number (.float d) => d.isIntegral
  | _ => false

/-- The value is one of the primitive type of that name. -/
def matchesPrimitive (name : String) (value : Json) : Bool :=
  match name, value with
  | "boolean", .bool _ => true
  | "string", .string _ => true
  | "number", .number _ => true
  | "bigint", v => isIntegral v
  | _, _ => false

/-- The number that an object key spells, if the key is the number's plain text. -/
def numericKey? (key : String) : Option Double := Double.ofPlainText? key

/-- How a value stands for a date. -/
inductive DateForm
  | tagged
  /-- Only after conversion of the text. -/
  | string
  | timestamp
  deriving DecidableEq

def isWord64 (i : Int) : Bool := decide (-(twoTo 63 : Int) ≤ i ∧ i < twoTo 63)

/-- A number of milliseconds is a date in itself only if it is not negative. -/
def dateForm? : Json → Option DateForm
  | .string s => (Date.parse? s).map fun _ => .string
  | .number (.int ms) =>
    if 0 ≤ ms && isWord64 ms && Date.isTimestamp ms then some .timestamp else none
  | .object [(tag, value)] =>
    if tag = dateTag then
      match value with
      | .string s => (Date.parse? s).map fun _ => .tagged
      | .number (.int ms) => if isWord64 ms && Date.isTimestamp ms then some .tagged else none
      | _ => none
    else none
  | _ => none

/-- An object whose only member is a well-formed pattern. -/
def isTaggedPattern : Json → Bool
  | .object [(tag, .string pattern)] => tag == patternTag && Pattern.isWellFormed pattern
  | _ => false

end Scalar
end TypedJson
