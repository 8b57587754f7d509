import TypedJson.Pattern.Basic
import TypedJson.Pattern.Property
import TypedJson.Basic
import TypedJson.Text.Alphabetic
import TypedJson.Number.Decimal
/-!
# Reading a pattern

Each reader takes what it knows off the front of the text and hands back the rest,
or fails where the text is no pattern.  Groups and bracketed classes nest; every
reader eats a character before it recurses, so the length of the text is enough
fuel.  In extended mode blanks and comments between the parts are passed over.
-/
namespace TypedJson
namespace Pattern

/-- What is left of the text, whether blanks are passed over, and the group names so far. -/
structure Cursor where
  rest : List Char
  extended : Bool
  names : List (List Char)

namespace Cursor

/-- Blanks and comments up to the end of their line. -/
def skipExtended : Nat → List Char → List Char
  | 0, cs => cs
  | fuel + 1, cs =>
    match cs with
    | '#' :: rest => skipExtended fuel (rest.dropWhile (· != '\n'))
    | c :: rest => if Text.isBlank c then skipExtended fuel rest else c :: rest
    | [] => []

/-- Passes over blanks in extended mode. -/
def space (k : Cursor) : Cursor :=
  if k.extended then { k with rest := skipExtended (k.rest.length + 1) k.rest } else k

/-- The cursor at another place. -/
def moveTo (k : Cursor) (rest : List Char) : Cursor := { k with rest }

/-- The cursor behind what was read, and behind blanks in extended mode. -/
def past (k : Cursor) (rest : List Char) : Cursor := (k.moveTo rest).space

end Cursor

/-! ## Escapes -/

def isMeta (c : Char) : Bool := "\\.+*?()|[]\x7b\x7d^$#&-~".toList.contains c

/-- Punctuation may always be escaped, letters and digits only if they mean something. -/
def isEscapable (c : Char) : Bool :=
  isMeta c || (c.toNat < 0x80 && !c.isAlphanum && c != '<' && c != '>')

def hexDigitValue (c : Char) : Option Nat :=
  if c.isDigit then some (c.toNat - '0'.toNat)
  else if 'a' ≤ c ∧ c ≤ 'f' then some (c.toNat - 'a'.toNat + 10)
  else if 'A' ≤ c ∧ c ≤ 'F' then some (c.toNat - 'A'.toNat + 10)
  else none

def hexNumber (ds : List Char) : Option Nat :=
  ds.foldlM (fun n c => (hexDigitValue c).map (16 * n + ·)) 0

/-- The character with this number. -/
def scalar? (n : Nat) : Option Char :=
  if h : n.isValidChar then some (Char.ofNatAux n h) else none

/-- Exactly `count` hexadecimal digits. -/
def hexDigitsOf : Nat → Cursor → List Char → Option (List Char × Cursor)
  | 0, k, ds => some (ds.reverse, k)
  | count + 1, k, ds =>
    match k.rest with
    | c :: rest => if (hexDigitValue c).isSome then hexDigitsOf count (k.past rest) (c :: ds) else none
    | [] => none

/-- Hexadecimal digits up to a closing brace. -/
def hexBraced : Nat → Cursor → List Char → Option (List Char × Cursor)
  | 0, _, _ => none
  | fuel + 1, k, ds =>
    match k.rest with
    | '\x7d' :: rest => if ds.isEmpty then none else some (ds.reverse, k.past rest)
    | c :: rest => if (hexDigitValue c).isSome then hexBraced fuel (k.past rest) (c :: ds) else none
    | [] => none

/-- A hexadecimal escape behind its letter. -/
def hexEscape (letter : Char) (k : Cursor) : Option ((Char × Bool) × Cursor) := do
  match k.rest with
  | '\x7b' :: rest =>
    let (ds, k) ← hexBraced (rest.length + 1) (k.past rest) []
    let c ← scalar? (← hexNumber ds)
    pure ((c, false), k)
  | _ =>
    let count := if letter = 'x' then 2 else if letter = 'u' then 4 else 8
    let (ds, k) ← hexDigitsOf count k []
    let n ← hexNumber ds
    let c ← scalar? n
    pure ((c, letter = 'x'), k)

/-- The text up to a closing brace. -/
def bracedText : Nat → Cursor → List Char → Option (List Char × Cursor)
  | 0, _, _ => none
  | fuel + 1, k, cs =>
    match k.rest with
    | '\x7d' :: rest => some (cs.reverse, k.moveTo rest)
    | c :: rest => bracedText fuel (k.past rest) (c :: cs)
    | [] => none

/-- Splits a text at the first place where `mark` stands. -/
def splitAt? (mark : List Char) : List Char → Option (List Char × List Char)
  | [] => none
  | c :: rest =>
    if mark.isPrefixOf (c :: rest) then some ([], (c :: rest).drop mark.length)
    else (splitAt? mark rest).map fun r => (c :: r.1, r.2)

/-- The class that a name stands for, by its loose name. -/
def className? (name : List Char) : Option String :=
  if isClassName name then some (looseName name) else none

/-- The braces of a property name hold a name, or a property and its value. -/
def propertyName? (text : List Char) : Option String :=
  match splitAt? ['!', '='] text <|> splitAt? [':'] text <|> splitAt? ['='] text with
  | some (property, value) =>
    if isClassValue property value then some (looseName value) else none
  | none => className? text

/-- A property escape behind its letter. -/
def propertyEscape (k : Cursor) : Option (NamedClass × Cursor) :=
  match k.rest with
  | [] => none
  | '\x7b' :: rest => do
    let (text, k) ← bracedText (rest.length + 1) (k.past rest) []
    pure (.property (propertyName? text), k)
  | c :: rest => if c = '\\' then none else some (.property (className? [c]), k.past rest)

def isBoundaryChar (c : Char) : Bool := c.isAlpha || c == '-'

/-- The name of a kind of word boundary up to its closing brace. -/
def boundaryName : Nat → Cursor → List Char → Option (List Char × Cursor)
  | 0, _, _ => none
  | fuel + 1, k, cs =>
    match k.rest with
    | '\x7d' :: rest => some (cs.reverse, k.moveTo rest)
    | c :: rest => if isBoundaryChar c then boundaryName fuel (k.past rest) (c :: cs) else none
    | [] => none

/-- A word boundary behind its letter: a brace and a letter start the name of a kind,
a brace and anything else is no part of it. -/
def boundary (k : Cursor) : Option (Pattern × Cursor) :=
  match k.rest with
  | '\x7b' :: rest =>
    let inner := k.past rest
    match inner.rest with
    | [] => none
    | c :: _ =>
      if isBoundaryChar c then do
        let (name, k) ← boundaryName (inner.rest.length + 1) inner []
        if ["start", "end", "start-half", "end-half"].contains (String.ofList name) then
          pure (.assertion, k)
        else none
      else some (.assertion, k)
  | _ => some (.assertion, k)

/-- The set of characters that a letter stands for. -/
def characterKind? : Char → Option NamedClass
  | 'd' => some (.kind .digit false)
  | 'D' => some (.kind .digit true)
  | 's' => some (.kind .blank false)
  | 'S' => some (.kind .blank true)
  | 'w' => some (.kind .word false)
  | 'W' => some (.kind .word true)
  | _ => none

/-- An escape behind its backslash. -/
def escape (k : Cursor) : Option (Pattern × Cursor) :=
  match k.rest with
  | [] => none
  | c :: rest =>
    if c = 'x' ∨ c = 'u' ∨ c = 'U' then
      (hexEscape c (k.past rest)).map fun r => (.literal r.1.1 r.1.2, r.2)
    else if c = 'p' ∨ c = 'P' then
      (propertyEscape (k.past rest)).map fun r => (.named r.1, r.2)
    else if isEscapable c then some (.literal c false, k.moveTo rest)
    else if let some set := characterKind? c then some (.named set, k.moveTo rest)
    else
      match c with
      | 'a' => some (.literal '\x07' false, k.moveTo rest)
      | 'f' => some (.literal '\x0c' false, k.moveTo rest)
      | 't' => some (.literal '\t' false, k.moveTo rest)
      | 'n' => some (.literal '\n' false, k.moveTo rest)
      | 'r' => some (.literal '\r' false, k.moveTo rest)
      | 'v' => some (.literal '\x0b' false, k.moveTo rest)
      | 'b' => boundary (k.moveTo rest)
      | 'A' | 'z' | 'B' | '<' | '>' => some (.assertion, k.moveTo rest)
      | _ => none

/-! ## Bracketed classes -/

def asciiClassNames : List String :=
  ["alnum", "alpha", "ascii", "blank", "cntrl", "digit", "graph", "lower", "print", "punct",
   "space", "upper", "word", "xdigit"]

/-- A named ASCII class behind its opening bracket, or nothing of the kind. -/
def asciiClass? (cs : List Char) : Option (ClassItem × List Char) :=
  match cs with
  | ':' :: rest =>
    let negated := rest.head? == some '^'
    let rest := if negated then rest.drop 1 else rest
    let name := rest.takeWhile (· != ':')
    match rest.drop name.length with
    | ':' :: ']' :: rest =>
      if asciiClassNames.contains (String.ofList name) then some (.ascii negated, rest) else none
    | _ => none
  | _ => none

/-- An item of a class as it stands there alone. -/
def classItem? : Pattern → Option ClassItem
  | .literal c byte => some (.literal c byte)
  | .named set => some (.named set)
  | _ => none

/-- A character or an escape in a class. -/
def classAtom (k : Cursor) : Option (Pattern × Cursor) :=
  match k.rest with
  | '\\' :: rest => escape (k.moveTo rest)
  | c :: rest => some (.literal c false, k.moveTo rest)
  | [] => none

/-- An item of a class, or a range of characters in ascending order.  A hyphen in
front of a closing bracket or another hyphen makes no range. -/
def classRange (k : Cursor) : Option (ClassItem × Cursor) := do
  let (first, k) ← classAtom k
  let k := k.space
  match k.rest with
  | [] => none
  | '-' :: rest =>
    let next := (k.past rest).rest.head?
    if next == some ']' || next == some '-' then pure (← classItem? first, k)
    else if next.isNone then
      none
    else
      let (second, k) ← classAtom (k.past rest)
      match first, second with
      | .literal low lowByte, .literal high highByte =>
        if low ≤ high then pure (.range low high lowByte highByte, k) else none
      | _, _ => none
  | _ => pure (← classItem? first, k)

/-- Leading hyphens of a class, which stand for themselves. -/
def leadingHyphens : Nat → Cursor → List ClassItem → Cursor × List ClassItem
  | 0, k, items => (k, items)
  | fuel + 1, k, items =>
    match k.rest with
    | '-' :: rest => leadingHyphens fuel (k.past rest) (.literal '-' false :: items)
    | _ => (k, items)

/-- The start of a class behind its bracket: negation, hyphens, and a closing bracket
that stands for itself because it comes first. -/
def classStart (k : Cursor) : Option ((Bool × List ClassItem) × Cursor) :=
  let k := k.space
  let negated := k.rest.head? == some '^'
  let k := if negated then k.past (k.rest.drop 1) else k
  let (k, items) := leadingHyphens k.rest.length k []
  match items, k.rest with
  | [], ']' :: rest => some ((negated, [.literal ']' false]), k.past rest)
  | _, _ => some ((negated, items), k)

/-- Joins what stands left of an operator with what stands right of it. -/
def joinOperand (left : Option ClassItem) (items : List ClassItem) : ClassItem :=
  let right := ClassItem.ofItems items.reverse
  match left with
  | none => right
  | some l => .operation l right

/-- The items of a class up to its closing bracket; `left` is what stands left of the
last operator. -/
def classBody : Nat → Cursor → Option ClassItem → List ClassItem → Option (ClassItem × Cursor)
  | 0, _, _, _ => none
  | fuel + 1, k, left, items =>
    let k := k.space
    match k.rest with
    | [] => none
    | '[' :: rest =>
      match asciiClass? rest with
      | some (item, rest) => classBody fuel (k.moveTo rest) left (item :: items)
      | none =>
        match classStart (k.moveTo rest) with
        | none => none
        | some ((negated, start), inner) =>
          match classBody fuel inner none start with
          | none => none
          | some (body, k) => classBody fuel k left (.bracketed negated body :: items)
    | ']' :: rest => some (joinOperand left items, k.moveTo rest)
    | '&' :: '&' :: rest => classBody fuel (k.moveTo rest) (some (joinOperand left items)) []
    | '-' :: '-' :: rest => classBody fuel (k.moveTo rest) (some (joinOperand left items)) []
    | '~' :: '~' :: rest => classBody fuel (k.moveTo rest) (some (joinOperand left items)) []
    | _ =>
      match classRange k with
      | none => none
      | some (item, k) => classBody fuel k left (item :: items)

/-- A bracketed class behind its opening bracket. -/
def bracketedClass (k : Cursor) : Option (Pattern × Cursor) := do
  let ((negated, start), k) ← classStart k
  let (body, k) ← classBody (k.rest.length + 1) k none start
  pure (.bracketed negated body, k)

/-! ## Groups and repetitions -/

def flag? : Char → Option PatternFlag
  | 'i' => some .ignoreCase
  | 'm' => some .multiLine
  | 's' => some .dotAll
  | 'U' => some .swapGreed
  | 'u' => some .byCharacter
  | 'R' => some .lineFeedPair
  | 'x' => some .extended
  | _ => none

/-- Flags up to a colon or a closing parenthesis, none of them twice and no negation
at their end. -/
def flagItems : List FlagItem → List Char → Option (List FlagItem × List Char)
  | _, [] => none
  | items, c :: rest =>
    if c = ':' ∨ c = ')' then
      if items.head? = some .negation then none else some (items.reverse, c :: rest)
    else
      let item? := if c = '-' then some .negation else (flag? c).map .flag
      match item? with
      | none => none
      | some item => if items.contains item then none else flagItems (item :: items) rest

def isNameStart (c : Char) : Bool := c == '_' || Text.isAlphabetic c

def isNamePart (c : Char) : Bool :=
  c == '_' || c == '.' || c == '[' || c == ']' || Text.isAlphabetic c || Text.isNumeric c

/-- The name of a group up to its angle bracket. -/
def groupName? (cs : List Char) : Option (List Char × List Char) :=
  let name := cs.takeWhile (· != '>')
  match cs.drop name.length, name with
  | '>' :: rest, c :: others =>
    if isNameStart c && others.all isNamePart then some (name, rest) else none
  | _, _ => none

def bound : Nat := twoTo 32

/-- A count inside braces, with blanks around it. -/
def count (k : Cursor) : Option (Nat × Cursor) :=
  let k := k.moveTo (Text.trimLeft k.rest)
  let rec go (fuel : Nat) (k : Cursor) (ds : List Char) : List Char × Cursor :=
    match fuel, k.rest with
    | fuel + 1, c :: rest => if c.isDigit then go fuel (k.past rest) (c :: ds) else (ds.reverse, k)
    | _, _ => (ds.reverse, k)
  let (ds, k) := go k.rest.length k []
  let k := k.moveTo (Text.trimLeft k.rest)
  if ds.isEmpty then none
  else
    let n := decimalValue ds
    if n < bound then some (n, k.space) else none

/-- How often a part may have to match: at least, and at most. -/
abbrev Counts := Nat × Option Nat

/-- The counts of a repetition behind its opening brace. -/
def counts (k : Cursor) : Option (Counts × Cursor) := do
  let (low, k) ← count k.space
  match k.rest with
  | '\x7d' :: rest => pure ((low, some low), k.past rest)
  | ',' :: rest =>
    let k := k.past rest
    match k.rest with
    | '\x7d' :: rest => pure ((low, none), k.past rest)
    | _ =>
      let (high, k) ← count k
      match k.rest with
      | '\x7d' :: rest => if low ≤ high then pure ((low, some high), k.past rest) else none
      | _ => none
  | _ => none

/-- The counts that a mark stands for. -/
def markCounts : Char → Counts
  | '?' => (0, some 1)
  | '+' => (1, none)
  | _ => (0, none)

/-- Only something that matches can be repeated. -/
def isRepeatable : Pattern → Bool
  | .empty | .flags _ => false
  | _ => true

/-- Puts a repetition around the last part. -/
def repeatLast (counts : Counts) : List Pattern → Option (List Pattern)
  | p :: rest =>
    if isRepeatable p then some (.repetition counts.1 counts.2 p :: rest) else none
  | [] => none

/-- A question mark behind a repetition belongs to it. -/
def takeLazy (k : Cursor) : Cursor :=
  match k.rest with
  | '?' :: rest => k.moveTo rest
  | _ => k

/-- The start of a group behind its parenthesis. -/
inductive GroupStart
  /-- Flags for what follows in the group around. -/
  | setting (items : List FlagItem)
  /-- A group of its own; `captures` says whether what it matches is kept. -/
  | opened (captures : Bool) (items : List FlagItem)

def groupStart (k : Cursor) : Option (GroupStart × Cursor) :=
  let k := k.space
  let named (rest : List Char) : Option (GroupStart × Cursor) := do
    let (name, rest) ← groupName? rest
    if k.names.contains name then none
    else pure (.opened true [], { k with rest, names := name :: k.names })
  match k.rest with
  | '?' :: '=' :: _ | '?' :: '!' :: _ | '?' :: '<' :: '=' :: _ | '?' :: '<' :: '!' :: _ => none
  | '?' :: 'P' :: '<' :: rest => named rest
  | '?' :: '<' :: rest => named rest
  | '?' :: rest => do
    let (items, rest) ← flagItems [] rest
    match rest with
    | ')' :: rest => if items.isEmpty then none else pure (.setting items, k.moveTo rest)
    | ':' :: rest => pure (.opened false items, k.moveTo rest)
    | _ => none
  | _ => some (.opened true [], k)

/-- The parts of a group up to its end: `branches` and `parts` are held in reverse. -/
def body : Nat → Cursor → List Pattern → List Pattern → Option (Pattern × Cursor)
  | 0, _, _, _ => none
  | fuel + 1, k, branches, parts =>
    let k := k.space
    let finished := oneOf (inRow parts.reverse :: branches).reverse
    match k.rest with
    | [] => some (finished, k)
    | ')' :: _ => some (finished, k)
    | '|' :: rest => body fuel (k.moveTo rest) (inRow parts.reverse :: branches) []
    | '(' :: rest =>
      match groupStart (k.moveTo rest) with
      | none => none
      | some (.setting items, inner) =>
        body fuel { inner with extended := settingOf .extended k.extended items } branches
          (.flags items :: parts)
      | some (.opened captures items, inner) =>
        match body fuel { inner with extended := settingOf .extended k.extended items } [] [] with
        | some (p, ⟨')' :: rest, _, names⟩) =>
          body fuel ⟨rest, k.extended, names⟩ branches (.group captures items p :: parts)
        | _ => none
    | '[' :: rest =>
      match bracketedClass (k.moveTo rest) with
      | none => none
      | some (p, k) => body fuel k branches (p :: parts)
    | '?' :: rest | '*' :: rest | '+' :: rest =>
      match repeatLast (markCounts (k.rest.headD '*')) parts with
      | none => none
      | some parts => body fuel (takeLazy (k.moveTo rest)) branches parts
    | '\x7b' :: rest =>
      match counts (k.moveTo rest) with
      | none => none
      | some (counts, k) =>
        match repeatLast counts parts with
        | none => none
        | some parts => body fuel (takeLazy k) branches parts
    | '\\' :: rest =>
      match escape (k.moveTo rest) with
      | none => none
      | some (p, k) => body fuel k branches (p :: parts)
    | '.' :: rest => body fuel (k.moveTo rest) branches (.dot :: parts)
    | '^' :: rest | '$' :: rest => body fuel (k.moveTo rest) branches (.assertion :: parts)
    | c :: rest => body fuel (k.moveTo rest) branches (.literal c false :: parts)

/-- The pattern that a text is, if it is one. -/
def ofText? (text : String) : Option Pattern :=
  match body (text.length + 1) ⟨text.toList, false, []⟩ [] [] with
  | some (p, ⟨[], _, _⟩) => some p
  | _ => none

end Pattern
end TypedJson
