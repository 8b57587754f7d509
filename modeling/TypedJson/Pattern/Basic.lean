/-!
# Regular expressions

The syntax tree of a pattern, as far as it matters for the question whether the
pattern is well formed.
-/
namespace TypedJson

/-- The letters that switch a way of matching on or off. -/
inductive PatternFlag
  | ignoreCase
  | multiLine
  | dotAll
  | swapGreed
  | byCharacter
  | lineFeedPair
  | extended
  deriving DecidableEq

/-- One entry of a list of flags. -/
inductive FlagItem
  | flag (flag : PatternFlag)
  /-- What follows is switched off. -/
  | negation
  deriving DecidableEq

/-- The sets of characters that have an escape of their own. -/
inductive CharacterKind
  | digit
  | blank
  | word
  deriving DecidableEq

/-- A set of characters named by an escape. -/
inductive NamedClass
  | kind (kind : CharacterKind) (negated : Bool)
  /-- The characters with a Unicode property, by its name if there is one of that name. -/
  | property (name : Option String)

inductive ClassItem
  /-- `byte` marks the two-digit form of a hexadecimal escape. -/
  | literal (c : Char) (byte : Bool)
  | range (low high : Char) (lowByte highByte : Bool)
  | ascii (negated : Bool)
  | named (set : NamedClass)
  | bracketed (negated : Bool) (inner : ClassItem)
  | union (items : List ClassItem)
  | operation (left right : ClassItem)

inductive Pattern
  | empty
  | flags (items : List FlagItem)
  | literal (c : Char) (byte : Bool)
  | dot
  | assertion
  | named (set : NamedClass)
  | bracketed (negated : Bool) (inner : ClassItem)
  /-- The body from `low` up to `high` times in a row. -/
  | repetition (low : Nat) (high : Option Nat) (body : Pattern)
  /-- A part in parentheses; `captures` says whether what it matches is kept. -/
  | group (captures : Bool) (items : List FlagItem) (body : Pattern)
  | alternation (branches : List Pattern)
  | concat (parts : List Pattern)

namespace Pattern

/-- The parts in a row. -/
def inRow : List Pattern → Pattern
  | [] => .empty
  | [p] => p
  | ps => .concat ps

def oneOf : List Pattern → Pattern
  | [] => .empty
  | [p] => p
  | ps => .alternation ps

/-- The setting of a flag after a list of flags. -/
def settingOf (flag : PatternFlag) (setting : Bool) (items : List FlagItem) : Bool :=
  let rec go (negated current : Bool) : List FlagItem → Bool
    | [] => current
    | .negation :: rest => go true current rest
    | .flag f :: rest => go negated (if f = flag then !negated else current) rest
  go false setting items

end Pattern

/-- The items side by side. -/
def ClassItem.ofItems : List ClassItem → ClassItem
  | [i] => i
  | is => .union is

end TypedJson
