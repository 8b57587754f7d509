import TypedJson.Json.Value
/-!
# Pointers into a JSON value

A pointer is empty, or a row of names each behind a slash; `~1` stands for a slash in a
name and `~0` for a tilde.  An item of an array is named by its index without leading
zeros.
-/
namespace TypedJson
namespace Json

def unescapeName : List Char → List Char
  | '~' :: '1' :: rest => '/' :: unescapeName rest
  | '~' :: '0' :: rest => '~' :: unescapeName rest
  | c :: rest => c :: unescapeName rest
  | [] => []

/-- The index that a name spells. -/
def arrayIndex? (name : String) : Option Nat :=
  let cs := name.toList
  if cs.isEmpty || !cs.all Char.isDigit then none
  else if cs.head? = some '0' && cs.length != 1 then none
  else some (decimalValue cs)

def child? (name : String) : Json → Option Json
  | .object members => member? name members
  | .array items => (arrayIndex? name).bind fun i => items[i]?
  | _ => none

/-- The part of a value that a pointer selects. -/
def select? (pointer : String) (value : Json) : Option Json :=
  if pointer.isEmpty then some value
  else if pointer.startsWith "/" then
    ((pointer.splitOn "/").drop 1).foldlM
      (fun part name => child? (String.ofList (unescapeName name.toList)) part) value
  else none

end Json
end TypedJson
