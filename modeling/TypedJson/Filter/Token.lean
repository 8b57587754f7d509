import TypedJson.Basic
import TypedJson.Text.Printable
/-!
# The tokens of a filter's text

Brackets are matched here already: what stands between them is one token, and so is a
text with all that is inserted into it.  An operator is as many operator characters as
stand together, so blanks are needed where a minus follows another operator.
-/
namespace TypedJson
namespace Filter

mutual

inductive Token
  | word (name : String)
  /-- The name with its dollar sign. -/
  | variable (name : String)
  | numeral (digits : String)
  | symbol (text : String)
  /-- A name right behind a dot. -/
  | field (name : String)
  | text (parts : List TextPart)
  | group (opening : Char) (tokens : List Token)

inductive TextPart
  | plain (text : String)
  | inserted (tokens : List Token)

end

/-- What a token lacks. -/
inductive Lack
  | digit
  | name
  | closing (opening : String)
  | escape
  | character
  | token

def Lack.text : Lack → String
  | .digit => "Digit"
  | .name => "Ident"
  | .closing opening => "Delim(" ++ Text.quotedPrintable opening ++ ")"
  | .escape => "Escape"
  | .character => "Unicode"
  | .token => "Token"

/-- Something is lacking in front of this rest of the text. -/
structure TokenFault where
  lack : Lack
  rest : List Char

def TokenFault.message (f : TokenFault) : String :=
  "(" ++ f.lack.text ++ ", " ++ Text.quotedPrintable (String.ofList f.rest) ++ ")"

namespace Token

/-- What was read, what was wrong with it, and what is left. -/
structure Scan (α : Type) where
  value : α
  faults : List TokenFault
  rest : List Char

def isNameStart (c : Char) : Bool := c.isAlpha || c == '_'

def isNameChar (c : Char) : Bool := c.isAlphanum || c == '_'

def isOperator (c : Char) : Bool := "|=!<>+-*/%".toList.contains c

/-- Passes over blanks and comments.  A comment ends with its line, unless an odd number
of backslashes stands there. -/
def skipBlank : Bool → Bool → List Char → List Char
  | _, _, [] => []
  | false, _, c :: cs =>
    if c = '#' then skipBlank true false cs
    else if Text.isBlank c then skipBlank false false cs
    else c :: cs
  | true, escaped, c :: cs =>
    if c = '\n' then skipBlank escaped false cs
    else skipBlank true (c == '\\' && !escaped) cs

def digitFault (s : List Char) : List TokenFault :=
  if (s.head?.map Char.isDigit).getD false then [] else [⟨.digit, s⟩]

/-- A fraction behind its point. -/
def scanFraction (s : List Char) : Scan (List Char) :=
  match s with
  | '.' :: s => ⟨'.' :: s.takeWhile Char.isDigit, digitFault s, s.dropWhile Char.isDigit⟩
  | s => ⟨[], [], s⟩

def scanExponent (s : List Char) : Scan (List Char) :=
  match s with
  | c :: s =>
    if c = 'e' ∨ c = 'E' then
      let (sign, s) := match s with
        | '+' :: s => (['+'], s)
        | '-' :: s => (['-'], s)
        | s => ([], s)
      ⟨c :: sign ++ s.takeWhile Char.isDigit, digitFault s, s.dropWhile Char.isDigit⟩
    else ⟨[], [], c :: s⟩
  | [] => ⟨[], [], []⟩

def scanNumeral (s : List Char) : Scan Token :=
  let fraction := scanFraction (s.dropWhile Char.isDigit)
  let exponent := scanExponent fraction.rest
  ⟨.numeral (String.ofList (s.takeWhile Char.isDigit ++ fraction.value ++ exponent.value)),
    fraction.faults ++ exponent.faults, exponent.rest⟩

/-- The character that a short escape stands for. -/
def shortEscape : Char → Option Char
  | '"' => some '"'
  | '\\' => some '\\'
  | '/' => some '/'
  | 'b' => some '\x08'
  | 'f' => some '\x0c'
  | 'n' => some '\n'
  | 'r' => some '\r'
  | 't' => some '\t'
  | _ => none

def hexDigit? (c : Char) : Option Nat :=
  if c.isDigit then some (c.toNat - '0'.toNat)
  else if 'a' ≤ c ∧ c ≤ 'f' then some (c.toNat - 'a'.toNat + 10)
  else if 'A' ≤ c ∧ c ≤ 'F' then some (c.toNat - 'A'.toNat + 10)
  else none

/-- The number that four hexadecimal digits spell. -/
def hexQuad? (s : List Char) : Option Nat :=
  match s.take 4 |>.mapM hexDigit? with
  | some [a, b, c, d] => some (((a * 16 + b) * 16 + c) * 16 + d)
  | _ => none

def closingOf : Char → Char
  | '(' => ')'
  | '[' => ']'
  | _ => '\x7d'

def addChar (c : Char) : List TextPart → List TextPart
  | .plain t :: parts => .plain (String.ofList (c :: t.toList)) :: parts
  | parts => .plain (String.singleton c) :: parts

mutual

/-- The tokens up to the end of the text, or up to what is no token. -/
def scanTokens : Nat → List Char → Scan (List Token)
  | 0, s => ⟨[], [], s⟩
  | fuel + 1, s =>
    match scanToken fuel (skipBlank false false s) with
    | none => ⟨[], [], skipBlank false false s⟩
    | some first =>
      let others := scanTokens fuel first.rest
      ⟨first.value :: others.value, first.faults ++ others.faults, others.rest⟩

def scanToken : Nat → List Char → Option (Scan Token)
  | 0, _ => none
  | _ + 1, [] => none
  | fuel + 1, c :: s =>
    if isNameStart c then
      some ⟨.word (String.ofList (c :: s.takeWhile isNameChar)), [], s.dropWhile isNameChar⟩
    else if c.isDigit then some (scanNumeral (c :: s))
    else if isOperator c then
      some ⟨.symbol (String.ofList (c :: s.takeWhile isOperator)), [], s.dropWhile isOperator⟩
    else if c = '$' ∨ c = '@' then
      let name := String.ofList (c :: s.takeWhile isNameChar)
      let named := (s.head?.map isNameStart).getD false
      some ⟨if c = '$' then .variable name else .word name, if named then [] else [⟨.name, s⟩],
        s.dropWhile isNameChar⟩
    else if c = '.' then
      match s with
      | '.' :: s => some ⟨.symbol "..", [], s⟩
      | d :: t =>
        if isNameStart d then
          some ⟨.field (String.ofList (d :: t.takeWhile isNameChar)), [], t.dropWhile isNameChar⟩
        else some ⟨.symbol ".", [], s⟩
      | [] => some ⟨.symbol ".", [], []⟩
    else if c = ':' ∨ c = ';' ∨ c = ',' ∨ c = '?' then some ⟨.symbol (String.singleton c), [], s⟩
    else if c = '"' then
      let parts := scanText fuel s
      some ⟨.text parts.value, parts.faults, parts.rest⟩
    else if c = '(' ∨ c = '[' ∨ c = '\x7b' then
      let inner := scanGroup fuel c s
      some ⟨.group c inner.value, inner.faults, inner.rest⟩
    else none

/-- What stands between a bracket and its partner. -/
def scanGroup : Nat → Char → List Char → Scan (List Token)
  | 0, _, s => ⟨[], [], s⟩
  | fuel + 1, opening, s =>
    let inner := scanTokens fuel s
    match inner.rest with
    | c :: rest =>
      if c = closingOf opening then ⟨inner.value, inner.faults, rest⟩
      else ⟨inner.value, inner.faults ++ [⟨.closing (String.singleton opening), c :: rest⟩], c :: rest⟩
    | [] => ⟨inner.value, inner.faults ++ [⟨.closing (String.singleton opening), []⟩], []⟩

/-- The inside of a text up to its closing quote. -/
def scanText : Nat → List Char → Scan (List TextPart)
  | 0, s => ⟨[], [], s⟩
  | _ + 1, [] => ⟨[], [⟨.closing "\"", []⟩], []⟩
  | _ + 1, '"' :: s => ⟨[], [], s⟩
  | fuel + 1, '\\' :: '(' :: s =>
    let inner := scanGroup fuel '(' s
    let others := scanText fuel inner.rest
    ⟨.inserted inner.value :: others.value, inner.faults ++ others.faults, others.rest⟩
  | fuel + 1, '\\' :: 'u' :: s =>
    match hexQuad? s with
    | some n =>
      let others := scanText fuel (s.drop 4)
      if Nat.isValidChar n then { others with value := addChar (Char.ofNat n) others.value }
      else { others with faults := ⟨.character, s⟩ :: others.faults }
    | none =>
      let others := scanText fuel s
      { others with faults := ⟨.digit, s⟩ :: others.faults }
  | fuel + 1, '\\' :: s =>
    match s with
    | c :: t =>
      match shortEscape c with
      | some e =>
        let others := scanText fuel t
        { others with value := addChar e others.value }
      | none =>
        let others := scanText fuel s
        { others with faults := ⟨.escape, s⟩ :: others.faults }
    | [] => ⟨[], [⟨.escape, []⟩, ⟨.closing "\"", []⟩], []⟩
  | fuel + 1, c :: s =>
    let others := scanText fuel s
    { others with value := addChar c others.value }

end

/-- The tokens of a text, or all that is wrong with it. -/
def ofText (text : String) : Except (List TokenFault) (List Token) :=
  let cs := text.toList
  let scan := scanTokens (3 * cs.length + 3) cs
  let faults := scan.faults ++ (if scan.rest.isEmpty then [] else [⟨.token, scan.rest⟩])
  if faults.isEmpty then .ok scan.value else .error faults

end Token
end Filter
end TypedJson
