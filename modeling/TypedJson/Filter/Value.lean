import TypedJson.Number.Extended
import TypedJson.Json.Decoding
import TypedJson.Json.Printer
/-!
# The values that filters compute with

They are JSON values whose numbers remember how they came about: an integer that fits
into 64 bits is exact and wraps, a numeral that is no such integer keeps its digits
until something is calculated from it, and what is calculated with doubles is a
double, infinities included.  Values of all kinds are ordered, and objects by their
sorted names first: `Value.compare`.
-/
namespace TypedJson
namespace Filter

inductive Number
  | int (value : Int)
  | numeral (text : String)
  | float (value : Extended)
  deriving DecidableEq

inductive Value
  | null
  | bool (value : Bool)
  | number (value : Number)
  | string (value : String)
  | array (items : List Value)
  | object (members : List (String × Value))

instance : Inhabited Value := ⟨.null⟩

/-- Reads digits, a fraction and an exponent as a double; all else has no value. -/
def numeralValue (text : String) : Extended :=
  let cs := text.toList
  let negative := cs.head? == some '-'
  let cs := if negative then cs.drop 1 else cs
  let whole := cs.takeWhile Char.isDigit
  let rest := cs.dropWhile Char.isDigit
  let (fraction, rest) := match rest with
    | '.' :: r => (r.takeWhile Char.isDigit, r.dropWhile Char.isDigit)
    | r => ([], r)
  let exponent : Int := match rest.drop 1 with
    | '-' :: ds => -(decimalValue ds : Int)
    | '+' :: ds => decimalValue ds
    | ds => decimalValue ds
  Extended.ofDecimal negative (decimalValue (whole ++ fraction)) (exponent - (fraction.length : Int))

namespace Number

/-- An integer of 64 bits: what lies outside wraps around. -/
def ofInt (i : Int) : Number := .int (i.bmod (twoTo 64))

def fitsInt (i : Int) : Bool := -(twoTo 63 : Int) ≤ i && i < twoTo 63

/-- The integer that a numeral spells if it fits, else the numeral itself. -/
def ofNumeral (text : String) : Number :=
  let cs := text.toList
  let negative := cs.head? == some '-'
  let digits := if negative then cs.drop 1 else cs
  let n : Int := decimalValue digits
  let i := if negative then -n else n
  if digits.all Char.isDigit && !digits.isEmpty && fitsInt i then .int i else .numeral text

def ofJson (n : JsonNumber) : Number := ofNumeral n.text

def toExtended : Number → Extended
  | .int i => Extended.ofInt i
  | .numeral t => numeralValue t
  | .float x => x

/-- What is not finite, or spelled as no JSON number is, becomes null. -/
def toJson : Number → Json
  | .int i => .int i
  | .numeral t => match Json.ofSource (Source.ofString t) with | .ok j => j | .error _ => .null
  | .float (.finite d) => .number (.float d)
  | .float _ => .null

def text : Number → String
  | .int i => toString i
  | .numeral t => t
  | .float (.finite d) => d.markedText (-4) []
  | .float _ => "null"

def compare : Number → Number → Ordering
  | .int a, .int b => Ord.compare a b
  | a, b => a.toExtended.compare b.toExtended

end Number

namespace Value

def int (i : Int) : Value := .number (.int i)

def nat (n : Nat) : Value := .int n

mutual

def ofJson : Json → Value
  | .null => .null
  | .bool b => .bool b
  | .number n => .number (.ofJson n)
  | .string s => .string s
  | .array items => .array (ofJsonItems items)
  | .object members => .object (ofJsonMembers members)

def ofJsonItems : List Json → List Value
  | [] => []
  | j :: rest => ofJson j :: ofJsonItems rest

def ofJsonMembers : List (String × Json) → List (String × Value)
  | [] => []
  | (k, j) :: rest => (k, ofJson j) :: ofJsonMembers rest

end

mutual

def toJson : Value → Json
  | .null => .null
  | .bool b => .bool b
  | .number n => n.toJson
  | .string s => .string s
  | .array items => .array (toJsonItems items)
  | .object members => .object (toJsonMembers members)

def toJsonItems : List Value → List Json
  | [] => []
  | v :: rest => toJson v :: toJsonItems rest

def toJsonMembers : List (String × Value) → List (String × Json)
  | [] => []
  | (k, v) :: rest => (k, toJson v) :: toJsonMembers rest

end

mutual

def chars : Value → List Char
  | .null => "null".toList
  | .bool true => "true".toList
  | .bool false => "false".toList
  | .number n => n.text.toList
  | .string s => Json.quoted s
  | .array items => '[' :: itemChars items
  | .object members => '\x7b' :: memberChars members

/-- The items with their separators and the closing bracket. -/
def itemChars : List Value → List Char
  | [] => [']']
  | [v] => chars v ++ [']']
  | v :: rest => chars v ++ ',' :: itemChars rest

def memberChars : List (String × Value) → List Char
  | [] => ['\x7d']
  | [(k, v)] => Json.quoted k ++ ':' :: chars v ++ ['\x7d']
  | (k, v) :: rest => Json.quoted k ++ ':' :: chars v ++ ',' :: memberChars rest

end

/-- JSON without blanks; numbers are written as they came about. -/
def text (v : Value) : String := String.ofList v.chars

/-- All but null and false. -/
def isTruthy : Value → Bool
  | .null | .bool false => false
  | _ => true

/-! ## Order -/

/-- The kinds in their order. -/
def rank : Value → Nat
  | .null => 0
  | .bool _ => 1
  | .number _ => 2
  | .string _ => 3
  | .array _ => 4
  | .object _ => 5

def sortMembers (members : List (String × α)) : List (String × α) :=
  members.mergeSort (fun a b => decide (a.1 ≤ b.1))

mutual

/-- The value with the members of every object sorted by name. -/
def sorted : Value → Value
  | .array items => .array (sortedItems items)
  | .object members => .object (sortMembers (sortedMembers members))
  | v => v

def sortedItems : List Value → List Value
  | [] => []
  | v :: rest => sorted v :: sortedItems rest

def sortedMembers : List (String × Value) → List (String × Value)
  | [] => []
  | (k, v) :: rest => (k, sorted v) :: sortedMembers rest

end

def compareNames : List String → List String → Ordering
  | [], [] => .eq
  | [], _ :: _ => .lt
  | _ :: _, [] => .gt
  | a :: as, b :: bs => (Ord.compare a b).then (compareNames as bs)

mutual

/-- The order of values whose objects are sorted. -/
def compareSorted : Value → Value → Ordering
  | .bool a, .bool b => Ord.compare a b
  | .number a, .number b => a.compare b
  | .string a, .string b => Ord.compare a b
  | .array a, .array b => compareItems a b
  | .object a, .object b => (compareNames (a.map (·.1)) (b.map (·.1))).then (compareMembers a b)
  | a, b => Ord.compare a.rank b.rank

def compareItems : List Value → List Value → Ordering
  | [], [] => .eq
  | [], _ :: _ => .lt
  | _ :: _, [] => .gt
  | a :: as, b :: bs => (compareSorted a b).then (compareItems as bs)

def compareMembers : List (String × Value) → List (String × Value) → Ordering
  | [], [] => .eq
  | [], _ :: _ => .lt
  | _ :: _, [] => .gt
  | (_, a) :: as, (_, b) :: bs => (compareSorted a b).then (compareMembers as bs)

end

def compare (a b : Value) : Ordering := compareSorted a.sorted b.sorted

def sort (items : List Value) : List Value :=
  items.mergeSort (fun a b => a.compare b != .gt)

end Value
end Filter
end TypedJson
