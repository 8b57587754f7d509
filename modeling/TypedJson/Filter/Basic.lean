import TypedJson.Filter.Value
/-!
# Filters

A filter turns one value into a stream of values.  Its forms are few: what users call
by name, such as `map` or `select`, is built from these where a filter's text is
resolved.
-/
namespace TypedJson

namespace Filter

inductive ArithmeticOp
  | add | sub | mul | div | rem
  deriving DecidableEq

def ArithmeticOp.text : ArithmeticOp → String
  | .add => "+"
  | .sub => "-"
  | .mul => "*"
  | .div => "/"
  | .rem => "%"

inductive Comparison
  | eq | ne | lt | le | gt | ge
  deriving DecidableEq

def Comparison.holds : Comparison → Ordering → Bool
  | .eq, o => o == .eq
  | .ne, o => o != .eq
  | .lt, o => o == .lt
  | .le, o => o != .gt
  | .gt, o => o == .gt
  | .ge, o => o != .lt

/-- What makes one value out of one value. -/
inductive Function
  | raise
  | length
  | keys
  | sort
  | typeName
  | toText
  | toNumber
  deriving DecidableEq

end Filter

mutual

inductive Filter
  | identity
  | nothing
  | constant (value : Filter.Value)
  | apply (function : Filter.Function)
  /-- All outputs in one array. -/
  | collect (items : Filter)
  /-- An object of one member. -/
  | member (name value : Filter)
  | negate (operand : Filter)
  | pipe (first second : Filter)
  | both (first second : Filter)
  | arithmetic (op : Filter.ArithmeticOp) (left right : Filter)
  | comparison (op : Filter.Comparison) (left right : Filter)
  /-- Decided by the left side alone when that is `decisive`. -/
  | logic (decisive : Bool) (left right : Filter)
  | alternative (left right : Filter)
  | conditional (condition yes no : Filter)
  | attempt (body : Filter)
  | path (root : Filter) (steps : List FilterStep)
  | sum (items : Filter)
  | first (items : Filter)
  | has (key : Filter)
  | range (start stop step : Filter)

/-- One step of a path; an optional one yields nothing where it fails. -/
inductive FilterStep
  | each (optional : Bool)
  | index (key : Filter) (optional : Bool)
  | slice (start stop : Option Filter) (optional : Bool)

end

namespace Filter

instance : Inhabited Filter := ⟨.identity⟩

/-- The forms of data that an operation can be in want of. -/
inductive Form
  | integer
  | number
  | string
  | array
  | iterable
  | rangeable
  deriving DecidableEq

def Form.text : Form → String
  | .integer => "integer"
  | .number => "number"
  | .string => "string"
  | .array => "array"
  | .iterable => "iterable (array or object)"
  | .rangeable => "rangeable (array or string)"

/-- Why a stream holds a failure in place of a value. -/
inductive Failure
  | raised (value : Value)
  | wrongForm (value : Value) (wanted : Form)
  | noIndex (container key : Value)
  | noResult (op : ArithmeticOp) (left right : Value)

def Failure.message : Failure → String
  | .raised v => v.text
  | .wrongForm v wanted => "cannot use " ++ v.text ++ " as " ++ wanted.text
  | .noIndex container key => "cannot index " ++ container.text ++ " with " ++ key.text
  | .noResult op left right =>
    "cannot calculate " ++ left.text ++ " " ++ op.text ++ " " ++ right.text

abbrev Outcome (α : Type) := Except Failure α

end Filter
end TypedJson
