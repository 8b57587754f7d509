import TypedJson.Json.Document
/-!
# Reading a text as a document

The grammar of JSON over a `Source`.  A value is read from the front of the source
and the rest is handed back; once a fault ends the text there is no rest.  Of two calls
within each other at least one eats a character, so twice the length of the source is
enough fuel, and `Document.ofSource` supplies it.
-/
namespace TypedJson

/-- The characters of a text; `none` is a byte that belongs to no character. -/
abbrev Source := List (Option Char)

namespace Source

def ofString (s : String) : Source := s.toList.map some

def isBlank : Option Char → Bool
  | some c => c == ' ' || c == '\n' || c == '\t' || c == '\r'
  | none => false

def skipBlank (s : Source) : Source := s.dropWhile isBlank

/-- The number of bytes, as far as the bound. -/
def hasBytes (bound : Nat) : Source → Bool
  | [] => bound == 0
  | c :: rest =>
    bound == 0 || hasBytes (bound - (match c with | some c => c.utf8Size | none => 1)) rest

def isDigit : Option Char → Bool
  | some c => c.isDigit
  | none => false

def digitsOf (s : Source) : List Char := (s.takeWhile isDigit).filterMap id

/-! ## Strings -/

def hexValue (c : Char) : Option Nat :=
  if '0' ≤ c ∧ c ≤ '9' then some (c.toNat - '0'.toNat)
  else if 'a' ≤ c ∧ c ≤ 'f' then some (c.toNat - 'a'.toNat + 10)
  else if 'A' ≤ c ∧ c ≤ 'F' then some (c.toNat - 'A'.toNat + 10)
  else none

def hexQuad : Option Char → Option Char → Option Char → Option Char → Option Nat
  | some a, some b, some c, some d => do
    let a ← hexValue a
    let b ← hexValue b
    let c ← hexValue c
    let d ← hexValue d
    pure (((a * 16 + b) * 16 + c) * 16 + d)
  | _, _, _, _ => none

/-- The character that a short escape stands for. -/
def shortEscape : Char → Option Char
  | '"' => some '"'
  | '\\' => some '\\'
  | '/' => some '/'
  | 'b' => some '\x08'
  | 'f' => some '\x0c'
  | 'n' => some '\n'
  | 'r' => some '\r'
  | 't' => some '\t'
  | _ => none

def isHighSurrogate (n : Nat) : Bool := 0xD800 ≤ n && n < 0xDC00

def isLowSurrogate (n : Nat) : Bool := 0xDC00 ≤ n && n < 0xE000

def joinSurrogates (high low : Nat) : Char :=
  Char.ofNat (0x10000 + (high - 0xD800) * 0x400 + (low - 0xDC00))

/-- The inside of a string up to its closing quote. -/
structure StringScan where
  text : List Char
  /-- The first thing that only a reader minds. -/
  objection : Option SyntaxFault
  /-- Some byte belongs to no character. -/
  illFormed : Bool
  /-- What follows the closing quote. -/
  stop : Except SyntaxFault Source

namespace StringScan

def ending (stop : Except SyntaxFault Source) : StringScan := ⟨[], none, false, stop⟩

def push (c : Char) (scan : StringScan) : StringScan := { scan with text := c :: scan.text }

def object (fault : SyntaxFault) (scan : StringScan) : StringScan :=
  { scan with objection := some fault }

/-- What a reader gets: its own objections come first, the bytes are looked at last. -/
def read (scan : StringScan) : Except SyntaxFault String :=
  match scan.objection, scan.stop with
  | some fault, _ => .error fault
  | none, .error fault => .error fault
  | none, .ok _ => if scan.illFormed then .error .invalidCodePoint else .ok (String.ofList scan.text)

end StringScan

/-- Scans the inside of a string.  A high surrogate needs its partner right behind it. -/
def scanString : Source → StringScan
  | [] => .ending (.error .endInString)
  | some '"' :: rest => .ending (.ok rest)
  | some '\\' :: some 'u' :: a :: b :: c :: d :: rest =>
    match hexQuad a b c d with
    | none => .ending (.error .invalidEscape)
    | some n =>
      if isLowSurrogate n then (scanString rest).object .loneSurrogate
      else if isHighSurrogate n then
        match rest with
        | some '\\' :: some 'u' :: e :: f :: g :: h :: rest' =>
          match hexQuad e f g h with
          | none => .ending (.error .invalidEscape)
          | some m =>
            if isLowSurrogate m then (scanString rest').push (joinSurrogates n m)
            else (scanString rest').object .loneSurrogate
        | [] => .ending (.error .endInString)
        | [some '\\'] => .ending (.error .endInString)
        | some '\\' :: some 'u' :: short =>
          .ending (.error (if hasBytes 4 short then .invalidEscape else .endInString))
        | other => (scanString other).object .unexpectedEndOfHex
      else (scanString rest).push (Char.ofNat n)
  | some '\\' :: some 'u' :: short =>
    .ending (.error (if hasBytes 4 short then .invalidEscape else .endInString))
  | some '\\' :: some e :: rest =>
    match shortEscape e with
    | some c => (scanString rest).push c
    | none => .ending (.error .invalidEscape)
  | some '\\' :: none :: _ => .ending (.error .invalidEscape)
  | [some '\\'] => .ending (.error .endInString)
  | some c :: rest =>
    if c.toNat < 0x20 then .ending (.error .controlCharacter) else (scanString rest).push c
  | none :: rest => { scanString rest with illFormed := true }

/-! ## Numbers -/

/-- A number at the front of a source. -/
structure NumberScan where
  read : Except SyntaxFault JsonNumber
  /-- What follows, unless the number is cut short. -/
  rest : Option Source

/-- A digit is due here and something else stands, or the text ends. -/
def NumberScan.noDigit (s : Source) : NumberScan :=
  ⟨.error (if s.isEmpty then .endInValue else .invalidNumber), none⟩

/-- The number with these parts: an integer if it is written as one and fits into
64 bits, the nearest double otherwise.  Negative zero is a double.

The double is rounded once, from the exact decimal value.  The program's own reader
does so only when it is built for exact round trips (`float_roundtrip`), which its
manifest does not ask for: it then scales a rounded significand by a rounded power of
ten, and a number of many digits or of a far exponent may come out some units in the
last place away.  What is proved about reading a written number back rests on the
single rounding. -/
def numberOf (negative : Bool) (whole fraction : List Char) (exponent : Option Int) :
    Except SyntaxFault JsonNumber :=
  let float :=
    match Double.ofDecimal? negative (decimalValue (whole ++ fraction))
        (exponent.getD 0 - (fraction.length : Int)) with
    | some d => .ok (.float d)
    | none => .error .numberOutOfRange
  if fraction.isEmpty && exponent.isNone then
    let n := decimalValue whole
    if !negative && n < twoTo 64 then .ok (.int n)
    else if negative && n ≠ 0 && n ≤ twoTo 63 then .ok (.int (-(n : Int)))
    else float
  else float

/-- The exponent of a number, behind its `e`. -/
def scanExponent (negative : Bool) (whole fraction : List Char) (s : Source) : NumberScan :=
  let minus := s.head? == some (some '-')
  let s := if minus || s.head? == some (some '+') then s.drop 1 else s
  match digitsOf s with
  | [] => .noDigit s
  | ds =>
    let e : Int := decimalValue ds
    ⟨numberOf negative whole fraction (some (if minus then -e else e)), some (s.dropWhile isDigit)⟩

def isExponentMark : Option (Option Char) → Bool
  | some (some 'e') | some (some 'E') => true
  | _ => false

/-- What may follow the whole part of a number. -/
def scanFraction (negative : Bool) (whole : List Char) (s : Source) : NumberScan :=
  match s with
  | some '.' :: s =>
    match digitsOf s with
    | [] => .noDigit s
    | ds =>
      let rest := s.dropWhile isDigit
      if isExponentMark rest.head? then scanExponent negative whole ds (rest.drop 1)
      else ⟨numberOf negative whole ds none, some rest⟩
  | s =>
    if isExponentMark s.head? then scanExponent negative whole [] (s.drop 1)
    else ⟨numberOf negative whole [] none, some s⟩

/-- Scans a number: no digit may follow a leading zero. -/
def scanNumber (s : Source) : NumberScan :=
  let negative := s.head? == some (some '-')
  let s := if negative then s.drop 1 else s
  match digitsOf s with
  | [] => .noDigit s
  | '0' :: _ :: _ => ⟨.error .invalidNumber, none⟩
  | ds => scanFraction negative ds (s.dropWhile isDigit)

/-- Takes a word off the front: the rest, or what is wrong. -/
def takeWord : List Char → Source → Except SyntaxFault Source
  | [], s => .ok s
  | _ :: _, [] => .error .endInValue
  | c :: cs, d :: s => if d == some c then takeWord cs s else .error .expectedIdent

end Source

/-! ## Documents -/

namespace Document

open Source

/-- A document and what follows it, unless the text ended in it. -/
structure Scan where
  document : Document
  rest : Option Source

def Scan.broken (read skip : SyntaxFault) : Scan := ⟨.broken read skip, none⟩

/-- The rest of the word of a constant. -/
def scanWord (word : String) (value : Document) (s : Source) : Scan :=
  match takeWord word.toList s with
  | .ok rest => ⟨value, some rest⟩
  | .error fault => .broken fault fault

def ofStringScan (scan : StringScan) : Scan :=
  match scan.read, scan.stop with
  | .ok text, .ok rest => ⟨.string text, some rest⟩
  | .error fault, .ok rest => ⟨.unreadable fault, some rest⟩
  | .error fault, .error skip => .broken fault skip
  | .ok _, .error skip => .broken skip skip

def ofNumberScan (scan : NumberScan) : Scan :=
  match scan.read, scan.rest with
  | .ok n, some rest => ⟨.number n, some rest⟩
  | .error fault, some rest => ⟨.unreadable fault, some rest⟩
  | .error fault, none => .broken fault .invalidNumber
  | .ok _, none => .broken .invalidNumber .invalidNumber

mutual

/-- The value at the front of a source. -/
def scan : Nat → Source → Scan
  | 0, _ => .broken .endInValue .endInValue
  | fuel + 1, s =>
    match skipBlank s with
    | [] => .broken .endInValue .endInValue
    | some 'n' :: rest => scanWord "ull" .null rest
    | some 't' :: rest => scanWord "rue" (.bool true) rest
    | some 'f' :: rest => scanWord "alse" (.bool false) rest
    | some '"' :: rest => ofStringScan (scanString rest)
    | some '[' :: rest =>
      match skipBlank rest with
      | [] => ⟨.array [] .endOfText, none⟩
      | some ']' :: rest => ⟨.array [] .closed, some rest⟩
      | rest =>
        let (items, stop, rest) := scanItems fuel rest
        ⟨.array items stop, rest⟩
    | some '\x7b' :: rest =>
      match skipBlank rest with
      | [] => ⟨.object [] .endOfText, none⟩
      | some '\x7d' :: rest => ⟨.object [] .closed, some rest⟩
      | rest =>
        let (members, stop, rest) := scanMembers fuel rest
        ⟨.object members stop, rest⟩
    | some c :: rest =>
      if c == '-' || c.isDigit then ofNumberScan (scanNumber (some c :: rest))
      else .broken .expectedValue .expectedValue
    | none :: _ => .broken .expectedValue .expectedValue

/-- The items of a list from the next one on. -/
def scanItems : Nat → Source → List Document × ListEnd × Option Source
  | 0, _ => ([], .endOfText, none)
  | fuel + 1, s =>
    let item := scan fuel s
    match item.rest with
    | none => ([item.document], .cut, none)
    | some rest =>
      match skipBlank rest with
      | [] => ([item.document], .endOfText, none)
      | some ']' :: rest => ([item.document], .closed, some rest)
      | some ',' :: rest =>
        match skipBlank rest with
        | [] => ([item.document], .commaEndOfText, none)
        | some ']' :: _ => ([item.document], .commaClosed, none)
        | rest =>
          let (items, stop, rest) := scanItems fuel rest
          (item.document :: items, stop, rest)
      | _ => ([item.document], .noSeparator, none)

/-- The members of an object from the next one on. -/
def scanMembers : Nat → Source → List (MemberName × Document) × ObjectEnd × Option Source
  | 0, _ => ([], .endOfText, none)
  | fuel + 1, some '"' :: s =>
    let name := scanString s
    match name.stop with
    | .error fault =>
      ([], .brokenName (match name.read with | .error read => read | .ok _ => fault) fault, none)
    | .ok rest =>
      match skipBlank rest with
      | [] => ([], .noColon name.read .endInObject, none)
      | some ':' :: rest =>
        let value := scan fuel rest
        match value.rest with
        | none => ([(name.read, value.document)], .cut, none)
        | some rest =>
          match skipBlank rest with
          | [] => ([(name.read, value.document)], .endOfText, none)
          | some '\x7d' :: rest => ([(name.read, value.document)], .closed, some rest)
          | some ',' :: rest =>
            match skipBlank rest with
            | [] => ([(name.read, value.document)], .commaEndOfText, none)
            | some '\x7d' :: _ => ([(name.read, value.document)], .commaClosed, none)
            | rest =>
              let (members, stop, rest) := scanMembers fuel rest
              ((name.read, value.document) :: members, stop, rest)
          | _ => ([(name.read, value.document)], .noSeparator, none)
      | _ => ([], .noColon name.read .expectedColon, none)
  | fuel + 1, s => ([], .noName (scan fuel s).document.found, none)

end

/-- Reads one document from the front of a source. -/
def scanSource (s : Source) : Scan := scan (2 * s.length + 1) s

def ofSource (s : Source) : Document := (scanSource s).document

end Document
end TypedJson
