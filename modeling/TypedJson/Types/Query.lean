import TypedJson.Types.Resolution
import TypedJson.Basic
/-!
# What can be asked of a type

Each question reads the table of types and leaves it as it is.
-/
namespace TypedJson
namespace TypeData

def intrinsic? : TypeData → Option Intrinsic
  | .form (.intrinsic i) => some i
  | _ => none

def literal? : TypeData → Option Literal
  | .form (.literal value) => some value
  | _ => none

def union? : TypeData → Option (List TypeId)
  | .form (.union branches) => some branches
  | .namedUnion _ branches => some branches
  | _ => none

def element? : TypeData → Option TypeId
  | .form (.array element) => some element
  | _ => none

/-- The identity of the alias that introduced the type, or the type's own: that of its
handle `t` if it is an object without a name. -/
def symbol? (t : TypeId) : TypeData → Option Symbol
  | .form (.param symbol) => some symbol
  | .form (.reference inst) => some inst.symbol
  | .form (.array _) => some (.builtin .array)
  | .namedUnion origin _ => some origin.symbol
  | .object (some origin) _ => some origin.symbol
  | .object none _ => some (.anonymous t)
  | _ => none

/-- The arguments of a generic type, those of the alias first. -/
def arguments : TypeData → List TypeId
  | .form (.array element) => [element]
  | .form (.reference inst) => inst.args
  | .namedUnion origin _ => origin.args
  | .object (some origin) _ => origin.args
  | _ => []

/-- The instance of a declaration or builtin that the type is. -/
def instance? : TypeData → Option Instance
  | .form (.reference inst) => some inst
  | .namedUnion origin _ => some origin
  | .object (some origin) _ => some origin
  | _ => none

end TypeData

namespace Interner

def intrinsic? (s : Interner) (t : TypeId) : Option Intrinsic := (s.data t).intrinsic?

def isNull (s : Interner) (t : TypeId) : Bool := s.intrinsic? t == some .null

def literal? (s : Interner) (t : TypeId) : Option Literal := (s.data t).literal?

def union? (s : Interner) (t : TypeId) : Option (List TypeId) := (s.data t).union?

def element? (s : Interner) (t : TypeId) : Option TypeId := (s.data t).element?

def symbol? (s : Interner) (t : TypeId) : Option Symbol := (s.data t).symbol? t

def arguments (s : Interner) (t : TypeId) : List TypeId := (s.data t).arguments

/-- `null` belongs to the type: it is the type itself or a branch of a branch of it.  Each
step of the search looks at a type for the first time, so there are fewer steps than
handles. -/
def isNullable (s : Interner) (t : TypeId) : Bool :=
  (search (fun a => (s.union? a).getD []) s.isNull (s.slots.size + 1) t []).1

end Interner

namespace Universe

/-- The declaration that introduced the type. -/
def originOf? (u : Universe) (s : Interner) (t : TypeId) : Option Origin :=
  (s.data t).instance?.bind fun inst => u.origin? inst.symbol

def isEnum (u : Universe) (s : Interner) (t : TypeId) : Bool :=
  match u.originOf? s t with
  | some origin => decide (origin.kind = .enum)
  | none => false

/-- The number after a number; the largest double is its own successor. -/
def nextNumber (d : Double) : Double :=
  match Double.ofInt? 1 with
  | some one => (d.add? one).getD d
  | none => d

/-- Members without a value are numbered on from the last number, from zero at first. -/
def enumValuesFrom (next : Double) : List EnumMember → List Literal
  | [] => []
  | m :: rest =>
    let value := m.value.getD (Literal.ofDouble next)
    let next := match value with
      | .num d _ => nextNumber d
      | _ => next
    value :: enumValuesFrom next rest

def enumValues (u : Universe) (s : Interner) (t : TypeId) : List Literal :=
  match s.data t with
  | .form (.reference ⟨.declared id, _⟩) =>
    match u.declaration? id with
    | some { body := .enum members, .. } => enumValuesFrom Double.zero members
    | _ => []
  | _ => []

end Universe
end TypedJson
