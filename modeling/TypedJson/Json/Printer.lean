import TypedJson.Json.Value
/-!
# The text of a JSON value

`Json.compact` writes a value without any blank; `Json.pretty` puts each item and
member on a line of its own, two blanks further in than its container, and keeps
empty containers together.  Strings escape the quote, the backslash and the
control characters below the blank, and nothing else.
-/
namespace TypedJson
namespace Json

def hexDigit (n : Nat) : Char := (Nat.toDigits 16 n).headD '0'

def escapeChar (c : Char) : List Char :=
  if c = '"' then ['\\', '"']
  else if c = '\\' then ['\\', '\\']
  else if c.toNat < 0x20 then
    match c.toNat with
    | 8 => ['\\', 'b']
    | 9 => ['\\', 't']
    | 10 => ['\\', 'n']
    | 12 => ['\\', 'f']
    | 13 => ['\\', 'r']
    | n => ['\\', 'u', '0', '0', hexDigit (n / 16), hexDigit (n % 16)]
  else [c]

def quoted (s : String) : List Char := '"' :: s.toList.flatMap escapeChar ++ ['"']

def scalarText (n : JsonNumber) : List Char := n.text.toList

mutual

def compactChars : Json → List Char
  | .null => ['n', 'u', 'l', 'l']
  | .bool true => ['t', 'r', 'u', 'e']
  | .bool false => ['f', 'a', 'l', 's', 'e']
  | .number n => scalarText n
  | .string s => quoted s
  | .array items => '[' :: compactItems items
  | .object members => '\x7b' :: compactMembers members

/-- The items, each with what separates it from the next, and the closing bracket. -/
def compactItems : List Json → List Char
  | [] => [']']
  | [j] => compactChars j ++ [']']
  | j :: rest => compactChars j ++ ',' :: compactItems rest

def compactMembers : List (String × Json) → List Char
  | [] => ['\x7d']
  | [(k, j)] => quoted k ++ ':' :: compactChars j ++ ['\x7d']
  | (k, j) :: rest => quoted k ++ ':' :: compactChars j ++ ',' :: compactMembers rest

end

def compact (j : Json) : String := String.ofList (compactChars j)

def newLine (indent : Nat) : List Char := '\n' :: List.replicate (2 * indent) ' '

mutual

def prettyChars (indent : Nat) : Json → List Char
  | .array [] => ['[', ']']
  | .object [] => ['\x7b', '\x7d']
  | .array items => '[' :: prettyItems (indent + 1) items ++ newLine indent ++ [']']
  | .object members => '\x7b' :: prettyMembers (indent + 1) members ++ newLine indent ++ ['\x7d']
  | .null => compactChars .null
  | .bool b => compactChars (.bool b)
  | .number n => scalarText n
  | .string s => quoted s

def prettyItems (indent : Nat) : List Json → List Char
  | [] => []
  | [j] => newLine indent ++ prettyChars indent j
  | j :: rest => newLine indent ++ prettyChars indent j ++ ',' :: prettyItems indent rest

def prettyMembers (indent : Nat) : List (String × Json) → List Char
  | [] => []
  | [(k, j)] => newLine indent ++ quoted k ++ ':' :: ' ' :: prettyChars indent j
  | (k, j) :: rest =>
    newLine indent ++ quoted k ++ ':' :: ' ' :: prettyChars indent j ++ ',' ::
      prettyMembers indent rest

end

def pretty (j : Json) : String := String.ofList (prettyChars 0 j)

end Json
end TypedJson
