import TypedJson.Declaration.Basic
/-!
# Types

A type is known by its handle, a `TypeId`.  What a handle stands for is a `TypeData`.
Most types are determined by their parts: two handles never stand for the same
`Form`.  Named unions and objects have an identity of their own instead, namely
their handle, which is what lets them refer to themselves.
-/
namespace TypedJson

/-- The handle of a type. -/
structure TypeId where
  index : Nat
  deriving DecidableEq

inductive Intrinsic
  | string
  | number
  | boolean
  | bigint
  | null
  | undefined
  | any
  | unknown
  deriving DecidableEq

namespace Intrinsic

def all : List Intrinsic := [string, number, boolean, bigint, null, undefined, any, unknown]

def name : Intrinsic → String
  | .string => "string"
  | .number => "number"
  | .boolean => "boolean"
  | .bigint => "bigint"
  | .null => "null"
  | .undefined => "undefined"
  | .any => "any"
  | .unknown => "unknown"

def ofName? (n : String) : Option Intrinsic := all.find? (·.name == n)

end Intrinsic

/-- The generic types that need no declaration. -/
inductive Builtin
  | array
  | date
  | pattern
  | record
  deriving DecidableEq

namespace Builtin

def all : List Builtin := [array, date, pattern, record]

def name : Builtin → String
  | .array => "Array"
  | .date => "Date"
  | .pattern => "RegExp"
  | .record => "Record"

def ofName? (n : String) : Option Builtin := all.find? (·.name == n)

end Builtin

/-- The place of a declaration: its unit and its position there. -/
structure DeclarationId where
  unit : Nat
  index : Nat
  deriving DecidableEq

/-- The identity behind a type, never compared by name. -/
inductive Symbol
  | builtin (b : Builtin)
  | declared (id : DeclarationId)
  /-- A type parameter of a declaration, by its position. -/
  | param (id : DeclarationId) (position : Nat)
  /-- An object without a name. -/
  | anonymous (slot : TypeId)
  deriving DecidableEq

/-- A generic type applied to arguments. -/
structure Instance where
  symbol : Symbol
  args : List TypeId
  deriving DecidableEq

/-- A type that is determined by its parts. -/
inductive Form
  | intrinsic (i : Intrinsic)
  | literal (value : Literal)
  /-- An unknown name, or an alias that expands into itself. -/
  | unresolved (name : String)
  | param (symbol : Symbol)
  | array (element : TypeId)
  /-- An interface, an enum, or a builtin without structure. -/
  | reference (inst : Instance)
  | union (branches : List TypeId)
  deriving DecidableEq

/-- Where names are looked up: the unit, and the type parameters in force. -/
structure Scope where
  unit : Nat
  params : List (String × TypeId)

inductive Shape
  | literal (members : List Member) (indexes : List Index) (scope : Scope)
  | intersection (parts : List TypeId)
  | record (key value : TypeId)

inductive TypeData
  | form (form : Form)
  /-- The union that an alias names. -/
  | namedUnion (origin : Instance) (branches : List TypeId)
  | object (origin : Option Instance) (shape : Shape)
  /-- A type whose parts are still being resolved. -/
  | reserved

/-- A member of a type; a method has no type of its own. -/
structure TypeMember where
  name : String
  optional : Bool
  type : Option TypeId
  deriving DecidableEq

structure TypeIndex where
  key : TypeId
  value : TypeId
  deriving DecidableEq

inductive DeclarationKind
  | interface
  | typeAlias
  | enum
  deriving DecidableEq

/-- The declaration behind a type. -/
structure Origin where
  name : String
  kind : DeclarationKind
  /-- File and line. -/
  location : Option String
  builtin : Bool
  deriving DecidableEq

end TypedJson
