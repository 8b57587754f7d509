import TypedJson.Filter.Basic
/-!
# The operations on single values

Arithmetic, indexing and the named functions of one value.  Null is neutral in a sum,
arrays subtract, objects merge, texts repeat and split; everything else with the wrong
operands is a `Failure`.
-/
namespace TypedJson
namespace Filter

namespace Number

def add : Number → Number → Number
  | .int a, .int b => ofInt (a + b)
  | a, b => .float (a.toExtended.add b.toExtended)

def sub : Number → Number → Number
  | .int a, .int b => ofInt (a - b)
  | a, b => .float (a.toExtended.sub b.toExtended)

def mul : Number → Number → Number
  | .int a, .int b => ofInt (a * b)
  | a, b => .float (a.toExtended.mul b.toExtended)

/-- A quotient is a double even of integers. -/
def div (a b : Number) : Number := .float (a.toExtended.div b.toExtended)

/-- There is no remainder of integers by zero. -/
def rem? : Number → Number → Option Number
  | .int a, .int b => if b = 0 then none else some (ofInt (a.tmod b))
  | a, b => some (.float (a.toExtended.rem b.toExtended))

def neg : Number → Number
  | .int a => ofInt (-a)
  | a => .float a.toExtended.neg

def abs : Number → Number
  | .int a => ofInt a.natAbs
  | a => .float a.toExtended.abs

/-- A numeral that enters a calculation counts as the double it spells. -/
def calculated : Number → Number
  | .numeral t => .float (numeralValue t)
  | n => n

end Number

namespace Value

def calculated : Value → Value
  | .number n => .number n.calculated
  | v => v

mutual

/-- Puts the members of the second object over those of the first, objects under one
name being merged in turn. -/
def mergeDeep : Value → Value → Value
  | .object a, .object b => .object (mergeMembers a b)
  | _, v => v

def mergeMembers (a : List (String × Value)) : List (String × Value) → List (String × Value)
  | [] => a
  | (k, v) :: rest =>
    let merged := match Json.member? k a with
      | some (.object old) => mergeDeep (.object old) v
      | _ => v
    mergeMembers (Json.setMember k merged a) rest

end

def isPrefixOf : List Char → List Char → Bool
  | [], _ => true
  | _ :: _, [] => false
  | a :: as, b :: bs => a == b && isPrefixOf as bs

/-- The pieces of a text between separators; `pending` characters of the last separator
are yet to be passed over. -/
def splitChars (separator : List Char) : List Char → Nat → List Char → List (List Char)
  | [], _, piece => [piece.reverse]
  | _ :: cs, n + 1, piece => splitChars separator cs n piece
  | c :: cs, 0, piece =>
    if isPrefixOf separator (c :: cs) then
      piece.reverse :: splitChars separator cs (separator.length - 1) []
    else splitChars separator cs 0 (c :: piece)

/-- An empty text has no pieces, and an empty separator parts all characters. -/
def split (text separator : String) : List String :=
  if text.isEmpty then []
  else if separator.isEmpty then text.toList.map String.singleton
  else (splitChars separator.toList text.toList 0 []).map String.ofList

/-- A text so many times over; null unless that is at least once. -/
def repeated (s : String) (times : Int) : Value :=
  if 0 < times then .string (String.ofList (List.replicate times.toNat s.toList).flatten) else .null

def calculate (op : ArithmeticOp) (left right : Value) : Outcome Value :=
  match op, left, right with
  | .add, .null, v => .ok v
  | .add, v, .null => .ok v
  | .add, .number a, .number b => .ok (.number (a.add b))
  | .add, .string a, .string b => .ok (.string (a ++ b))
  | .add, .array a, .array b => .ok (.array (a ++ b))
  | .add, .object a, .object b =>
    .ok (.object (b.foldl (fun kept m => Json.setMember m.1 m.2 kept) a))
  | .sub, .number a, .number b => .ok (.number (a.sub b))
  | .sub, .array a, .array b =>
    .ok (.array (a.filter fun v => !b.any fun w => v.compare w == .eq))
  | .mul, .number a, .number b => .ok (.number (a.mul b))
  | .mul, .string s, .number (.int n) => .ok (repeated s n)
  | .mul, .number (.int n), .string s => .ok (repeated s n)
  | .mul, .object a, .object b => .ok (mergeDeep (.object a) (.object b))
  | .div, .number a, .number b => .ok (.number (a.div b))
  | .div, .string a, .string b => .ok (.array ((split a b).map .string))
  | .rem, .number a, .number b =>
    match a.rem? b with
    | some n => .ok (.number n)
    | none => .error (.noResult .rem left right)
  | op, left, right => .error (.noResult op left.calculated right.calculated)

def negate : Value → Outcome Value
  | .number n => .ok (.number n.neg)
  | v => .error (.wrongForm v .number)

def single (name value : Value) : Outcome Value :=
  match name with
  | .string k => .ok (.object [(k, value)])
  | name => .error (.wrongForm name .string)

/-! ## Steps of a path -/

def items? : Value → Outcome (List Value)
  | .array items => .ok items
  | .object members => .ok (members.map (·.2))
  | v => .error (.wrongForm v .iterable)

/-- A position counted from the end if negative, inside a list of that length. -/
def position? (length : Nat) (i : Int) : Option Nat :=
  let p := if i < 0 then i + length else i
  if 0 ≤ p ∧ p < length then some p.toNat else none

def index (container key : Value) : Outcome Value :=
  match container, key with
  | .array items, .number (.int i) =>
    .ok (match position? items.length i with | some p => items.getD p .null | none => .null)
  | .object members, .string k => .ok ((Json.member? k members).getD .null)
  | .array _, key | .object _, key => .error (.noIndex container key)
  | container, _ => .error (.wrongForm container .iterable)

/-- An end of a slice, counted from the end if negative and kept within the length. -/
def boundary (length : Nat) (missing : Nat) : Option Value → Outcome Nat
  | none => .ok missing
  | some (.number (.int i)) =>
    .ok (if i < 0 then length - min length i.natAbs else min length i.toNat)
  | some v => .error (.wrongForm v .integer)

def sliceList (items : List α) (start stop : Option Value) : Outcome (List α) := do
  let lower ← boundary items.length 0 start
  let upper ← boundary items.length items.length stop
  pure ((items.drop lower).take (upper - lower))

/-- A part of an array or of a text. -/
def slice (container : Value) (start stop : Option Value) : Outcome Value :=
  match container with
  | .array items => (sliceList items start stop).map .array
  | .string s => (sliceList s.toList start stop).map fun cs => .string (String.ofList cs)
  | v => .error (.wrongForm v .rangeable)

/-! ## Functions -/

def has (container key : Value) : Outcome Bool :=
  match container, key with
  | .array items, .number (.int i) =>
    if 0 ≤ i then .ok (decide (i < items.length)) else .error (.noIndex container key)
  | .object members, .string k => .ok (Json.member? k members).isSome
  | _, _ => .error (.noIndex container key)

def length : Value → Outcome Value
  | .null => .ok (.int 0)
  | .bool b => .error (.raised (.string ((Value.bool b).text ++ " has no length")))
  | .number n => .ok (.number n.abs)
  | .string s => .ok (.nat s.length)
  | .array items => .ok (.nat items.length)
  | .object members => .ok (.nat members.length)

def keys : Value → Outcome Value
  | .array items => .ok (.array ((List.range items.length).map .nat))
  | .object members => .ok (.array (sort (members.map fun m => .string m.1)))
  | v => .error (.wrongForm v .iterable)

def typeName : Value → String
  | .null => "null"
  | .bool _ => "boolean"
  | .number _ => "number"
  | .string _ => "string"
  | .array _ => "array"
  | .object _ => "object"

/-- A text is its own text. -/
def plainText : Value → String
  | .string s => s
  | v => v.text

/-- The number that a text spells; a text of another JSON value stands for that value. -/
def toNumber : Value → Outcome Value
  | .number n => .ok (.number n)
  | .string s =>
    let numeral := String.ofList (s.toList.filter fun c => !Source.isBlank (some c))
    match Json.ofSource (Source.ofString s) with
    | .ok (.number _) | .error .numberOutOfRange => .ok (.number (.ofNumeral numeral))
    | .ok j => .ok (.ofJson j)
    | .error _ =>
      .error (.raised (.string ("cannot parse " ++ s ++ " as JSON: value expected")))
  | v => .error (.wrongForm v .string)

def applied (f : Function) (v : Value) : Outcome Value :=
  match f, v with
  | .raise, v => .error (.raised v)
  | .length, v => v.length
  | .keys, v => v.keys
  | .sort, .array items => .ok (.array (sort items))
  | .sort, v => .error (.wrongForm v .array)
  | .typeName, v => .ok (.string v.typeName)
  | .toText, v => .ok (.string v.plainText)
  | .toNumber, v => v.toNumber

/-! ## Ranges -/

/-- The size of a finite number in units of the least double. -/
def units : Value → Option Int
  | .number (.int i) => some (i * twoTo 1074)
  | .number n => match n.toExtended with | .finite d => some d.units | _ => none
  | .null => some 0
  | _ => none

/-- Whether a range that stands at `v` goes on. -/
def continues (direction : Ordering) (v stop : Value) : Bool :=
  match direction with
  | .gt => v.compare stop == .lt
  | .lt => v.compare stop == .gt
  | .eq => v.compare stop != .eq

def rangeFrom (direction : Ordering) (stop step : Value) : Nat → Value → List (Outcome Value)
  | 0, _ => []
  | fuel + 1, v =>
    if continues direction v stop then
      .ok v :: (match calculate .add v step with
        | .ok next => rangeFrom direction stop step fuel next
        | .error e => [.error e])
    else []

/-- Counts from `start` toward `stop`, which is left out.  A range whose steps lead
nowhere has no end and is empty here. -/
def range (start stop step : Value) : List (Outcome Value) :=
  let bound := match start.units, stop.units, step.units with
    | some a, some b, some s => if s = 0 then 0 else ((b - a).natAbs / s.natAbs) + 3
    | none, _, _ => 2
    | _, _, _ => 0
  rangeFrom (step.compare (.int 0)) stop step bound start

end Value
end Filter
end TypedJson
