import TypedJson.Number.Decimal
/-!
# JSON values

An integer and a double are different numbers even when they are equal in
value: `1` and `1.0` print differently.  An object is the list of its members in
order; `Json.keepLast` is the rule for repeated names (the first position and the
last value), and a value that obeys it has `Json.DistinctNames`.
-/
namespace TypedJson

inductive JsonNumber
  | int (value : Int)
  | float (value : Double)
  deriving DecidableEq

inductive Json
  | null
  | bool (value : Bool)
  | number (value : JsonNumber)
  | string (value : String)
  | array (items : List Json)
  | object (members : List (String × Json))

instance : Inhabited Json := ⟨.null⟩

namespace JsonNumber

/-- The double nearest to the number.  An integer beyond the largest double, which
no text reads as, counts as zero. -/
def toDouble : JsonNumber → Double
  | .int i => (Double.ofInt? i).getD Double.zero
  | .float d => d

def text : JsonNumber → String
  | .int i => toString i
  | .float d => d.jsonText

end JsonNumber

namespace Json

def int (i : Int) : Json := .number (.int i)

def nat (n : Nat) : Json := .int n

/-- Adds a member, or puts the value in the place of the member of that name. -/
def setMember (name : String) (value : α) : List (String × α) → List (String × α)
  | [] => [(name, value)]
  | (n, v) :: rest => if n = name then (n, value) :: rest else (n, v) :: setMember name value rest

/-- One member per name: the first position, the last value. -/
def keepLast (members : List (String × α)) : List (String × α) :=
  members.foldl (fun kept m => setMember m.1 m.2 kept) []

mutual

/-- `keepLast` in every object of the value. -/
def keepLastDeep : Json → Json
  | .array items => .array (keepLastItems items)
  | .object members => .object (keepLast (keepLastMembers members))
  | j => j

def keepLastItems : List Json → List Json
  | [] => []
  | j :: rest => keepLastDeep j :: keepLastItems rest

def keepLastMembers : List (String × Json) → List (String × Json)
  | [] => []
  | (name, j) :: rest => (name, keepLastDeep j) :: keepLastMembers rest

end

/-- The value of the first member of that name. -/
def member? (name : String) (members : List (String × α)) : Option α :=
  (members.find? (·.1 == name)).map (·.2)

mutual

/-- No object in the value has two members of one name. -/
def DistinctNames : Json → Prop
  | .array items => DistinctNamesAll items
  | .object members => (members.map (·.1)).Nodup ∧ DistinctNamesMembers members
  | _ => True

def DistinctNamesAll : List Json → Prop
  | [] => True
  | j :: rest => DistinctNames j ∧ DistinctNamesAll rest

def DistinctNamesMembers : List (String × Json) → Prop
  | [] => True
  | (_, j) :: rest => DistinctNames j ∧ DistinctNamesMembers rest

end

mutual

/-- How deeply arrays and objects are nested: none in a scalar. -/
def depth : Json → Nat
  | .array items => depthAll items + 1
  | .object members => depthMembers members + 1
  | _ => 0

def depthAll : List Json → Nat
  | [] => 0
  | j :: rest => max (depth j) (depthAll rest)

def depthMembers : List (String × Json) → Nat
  | [] => 0
  | (_, j) :: rest => max (depth j) (depthMembers rest)

end

mutual

/-- Equality of values, members in order. -/
def same : Json → Json → Bool
  | .null, .null => true
  | .bool a, .bool b => a == b
  | .number a, .number b => decide (a = b)
  | .string a, .string b => a == b
  | .array a, .array b => sameAll a b
  | .object a, .object b => sameMembers a b
  | _, _ => false

def sameAll : List Json → List Json → Bool
  | [], [] => true
  | a :: as, b :: bs => same a b && sameAll as bs
  | _, _ => false

def sameMembers : List (String × Json) → List (String × Json) → Bool
  | [], [] => true
  | (m, a) :: as, (n, b) :: bs => m == n && same a b && sameMembers as bs
  | _, _ => false

end

end Json
end TypedJson
