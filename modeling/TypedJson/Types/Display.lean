import TypedJson.Types.Members
/-!
# The text of a type

A type with a name is shown by it, with its arguments in angle brackets; any other
type by its parts.  An object without a name lists its members, which computes them.
-/
namespace TypedJson
namespace Universe

open Session

def genericText (u : Universe) (displayOf : TypeId → Session String) (inst : Instance) :
    Session String :=
  let name := u.symbolName inst.symbol
  if inst.args.isEmpty then pure name
  else do
    let args ← inst.args.mapM displayOf
    pure (name ++ "<" ++ ", ".intercalate args ++ ">")

def memberText (displayOf : TypeId → Session String) (m : TypeMember) : Session String := do
  let name := if m.optional then m.name ++ "?" else m.name
  match m.type with
  | some t => pure (name ++ ": " ++ (← displayOf t) ++ ";")
  | none => pure (name ++ "(): void;")

def display (u : Universe) : Nat → TypeId → Session String
  | 0, _ => outOfFuel
  | fuel + 1, t => do
    match ← query (·.data t) with
    | .form (.intrinsic i) => pure i.name
    | .form (.literal value) => pure value.text
    | .form (.unresolved name) => pure name
    | .form (.param symbol) => pure (u.symbolName symbol)
    | .form (.array element) =>
      let inner ← u.display fuel element
      match ← query (·.data element) with
      | .form (.union _) => pure ("(" ++ inner ++ ")[]")
      | _ => pure (inner ++ "[]")
    | .form (.reference inst) => u.genericText (u.display fuel) inst
    | .form (.union branches) => do
      pure (" | ".intercalate (← branches.mapM (u.display fuel)))
    | .namedUnion origin _ => u.genericText (u.display fuel) origin
    | .object (some origin) _ => u.genericText (u.display fuel) origin
    | .object none (.intersection parts) => do
      pure (" & ".intercalate (← parts.mapM (u.display fuel)))
    | .object none _ =>
      let fields ← (← u.members fuel t).mapM (memberText (u.display fuel))
      if fields.isEmpty then pure "\x7b\x7d"
      else pure ("\x7b " ++ " ".intercalate fields ++ " \x7d")
    | .reserved => pure ""

end Universe
end TypedJson
