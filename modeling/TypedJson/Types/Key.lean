import TypedJson.Types.Display
/-!
# Keys: when two types are the same for a schema

Two types share a node of the schema when their keys are equal.  The key of a type
is made of the identities in it: symbols, literals and intrinsic types.  The branches
of a union have no order, and a union that comes up again inside itself is cut off
there: it is replaced by its alias, or by its text if it has none.
-/
namespace TypedJson

inductive TypeKey
  | null
  | undefined
  | literal (value : Literal)
  | intrinsic (i : Intrinsic)
  | symbol (symbol : Symbol)
  /-- Arguments count in order. -/
  | generic (base : Symbol) (args : List TypeKey)
  /-- Branches count as a multiset. -/
  | union (branches : List TypeKey)
  /-- An aliased union within itself. -/
  | recursive (origin : Symbol)
  /-- A type without an identity. -/
  | opaqueText (text : String)

namespace TypeKey

/-- Takes the first element with the property out of a list. -/
def takeOut (p : α → Bool) : List α → Option (List α)
  | [] => none
  | a :: rest => if p a then some rest else (takeOut p rest).map (a :: ·)

mutual

def isEqual : TypeKey → TypeKey → Bool
  | .null, .null => true
  | .undefined, .undefined => true
  | .literal a, .literal b => a == b
  | .intrinsic a, .intrinsic b => a == b
  | .symbol a, .symbol b => a == b
  | .recursive a, .recursive b => a == b
  | .generic a xs, .generic b ys => a == b && areEqual xs ys
  | .union xs, .union ys => arePermuted xs ys
  | .opaqueText a, .opaqueText b => a == b
  | _, _ => false

/-- Equal one by one. -/
def areEqual : List TypeKey → List TypeKey → Bool
  | [], [] => true
  | x :: xs, y :: ys => isEqual x y && areEqual xs ys
  | _, _ => false

/-- Each key takes the first equal one out of the other list, and none is left. -/
def arePermuted : List TypeKey → List TypeKey → Bool
  | [], ys => ys.isEmpty
  | x :: xs, ys =>
    match takeOut (fun y => isEqual x y) ys with
    | some rest => arePermuted xs rest
    | none => false

end

end TypeKey

namespace Universe

open Session

/-- The key of a type; `opened` holds the unions around it. -/
def keyWithin (u : Universe) : Nat → List TypeId → TypeId → Session TypeKey
  | 0, _, _ => outOfFuel
  | fuel + 1, opened, t => do
    let data ← query (·.data t)
    match data.intrinsic?, data.literal? with
    | some .null, _ => pure .null
    | some .undefined, _ => pure .undefined
    | some i, _ => pure (.intrinsic i)
    | none, some value => pure (.literal value)
    | none, none =>
      match data.union?, data.symbol? t with
      | some branches, symbol =>
        if opened.contains t then
          match symbol with
          | some origin => pure (.recursive origin)
          | none => do pure (.opaqueText (← u.display fuel t))
        else do pure (.union (← branches.mapM (u.keyWithin fuel (t :: opened))))
      | none, none => do pure (.opaqueText (← u.display fuel t))
      | none, some symbol =>
        match data.arguments with
        | [] => pure (.symbol symbol)
        | args => do pure (.generic symbol (← args.mapM (u.keyWithin fuel opened)))

def keyOf (u : Universe) (fuel : Nat) (t : TypeId) : Session TypeKey := u.keyWithin fuel [] t

/-- The key of the branches of a union: that of the branch itself if there is one only. -/
def keyOfBranches (u : Universe) (fuel : Nat) : List TypeId → Session TypeKey
  | [] => pure .null
  | [t] => u.keyOf fuel t
  | ts => do pure (.union (← ts.mapM (u.keyOf fuel)))

end Universe
end TypedJson
