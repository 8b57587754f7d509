import TypedJson.Literal
/-!
# Declarations

The input of the type system: source units that declare interfaces, aliases and
enums.  Type expressions are trees; the members and index signatures of an inline
object hold type expressions in turn.
-/
namespace TypedJson

/-- A member of an interface or an object; a method has no type. -/
structure MemberDecl (T : Type) where
  name : String
  optional : Bool
  method : Bool
  type : Option T

/-- The values under all names of the key type have the value type. -/
structure IndexDecl (T : Type) where
  key : T
  value : T

inductive TypeExpr
  | name (name : String)
  | generic (name : String) (args : List TypeExpr)
  | array (element : TypeExpr)
  | union (branches : List TypeExpr)
  | intersection (parts : List TypeExpr)
  | literal (value : Literal)
  | object (members : List (MemberDecl TypeExpr)) (indexes : List (IndexDecl TypeExpr))

instance : Inhabited TypeExpr := ⟨.name ""⟩

abbrev Member := MemberDecl TypeExpr

abbrev Index := IndexDecl TypeExpr

/-- A member of an enum, with its value unless it is numbered automatically. -/
structure EnumMember where
  name : String
  value : Option Literal

/-- What a declaration says about the name that it declares. -/
inductive DeclarationBody
  | interface (bases : List TypeExpr) (members : List Member) (indexes : List Index)
  | typeAlias (type : TypeExpr)
  | enum (members : List EnumMember)

structure Declaration where
  name : String
  exported : Bool
  line : Option Nat
  typeParams : List String
  body : DeclarationBody

structure SourceUnit where
  file : String
  declarations : List Declaration

end TypedJson
