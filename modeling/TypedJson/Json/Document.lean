import TypedJson.Json.Value
/-!
# What a text says up to its first fault

Reading JSON is split in two.  `Document.ofSource` (in the reader) turns a text
into a `Document`: the tree of everything in front of the first syntax fault, and
the fault itself at the place where the tree stops.  The decoders then walk that
tree in order and meet faults and data errors in the order in which the text has
them, so a wrong type early in a text wins over a missing bracket at its end.

A fault has two readings.  A value that the caller wants is *read*; a value under a
name that the caller does not know is *skipped*, which is more forgiving: number
ranges, surrogates and byte sequences are not looked at.  So every fault of the
tree says what reading and what skipping make of it.
-/
namespace TypedJson

/-- What a text can do wrong as JSON. -/
inductive SyntaxFault
  | endInValue
  | endInList
  | endInObject
  | endInString
  | expectedValue
  | expectedIdent
  | expectedColon
  | expectedListSeparator
  | expectedObjectSeparator
  | trailingComma
  | trailingCharacters
  | keyNotString
  | invalidEscape
  | invalidNumber
  | numberOutOfRange
  | controlCharacter
  | loneSurrogate
  | unexpectedEndOfHex
  | invalidCodePoint
  | recursionLimit
  deriving DecidableEq

def SyntaxFault.message : SyntaxFault → String
  | .endInValue => "EOF while parsing a value"
  | .endInList => "EOF while parsing a list"
  | .endInObject => "EOF while parsing an object"
  | .endInString => "EOF while parsing a string"
  | .expectedValue => "expected value"
  | .expectedIdent => "expected ident"
  | .expectedColon => "expected `:`"
  | .expectedListSeparator => "expected `,` or `]`"
  | .expectedObjectSeparator => "expected `,` or `\x7d`"
  | .trailingComma => "trailing comma"
  | .trailingCharacters => "trailing characters"
  | .keyNotString => "key must be a string"
  | .invalidEscape => "invalid escape"
  | .invalidNumber => "invalid number"
  | .numberOutOfRange => "number out of range"
  | .controlCharacter => "control character (\\u0000-\\u001F) found while parsing a string"
  | .loneSurrogate => "lone leading surrogate in hex escape"
  | .unexpectedEndOfHex => "unexpected end of hex escape"
  | .invalidCodePoint => "invalid unicode code point"
  | .recursionLimit => "recursion limit exceeded"

/-- The kind of a value, as an error message names it: containers are not looked into. -/
inductive Found
  | null
  | bool (value : Bool)
  | number (value : JsonNumber)
  | string (value : String)
  | sequence
  | mapping

/-- How a list ends. -/
inductive ListEnd
  | closed
  /-- The last item is broken, and the text with it. -/
  | cut
  | endOfText
  | noSeparator
  /-- A comma and then the closing bracket. -/
  | commaClosed
  /-- A comma and then the end of the text. -/
  | commaEndOfText
  deriving DecidableEq

/-- The name of a member, or why it cannot be read; it can be skipped in any case. -/
abbrev MemberName := Except SyntaxFault String

/-- How an object ends. -/
inductive ObjectEnd
  | closed
  /-- The last value is broken, and the text with it. -/
  | cut
  | endOfText
  | noSeparator
  | commaClosed
  | commaEndOfText
  /-- Something that is no string stands where a name is due. -/
  | noName (found : Except SyntaxFault Found)
  | brokenName (read skip : SyntaxFault)
  /-- A name without its colon. -/
  | noColon (name : MemberName) (fault : SyntaxFault)

/-- A text up to its first fault. -/
inductive Document
  | null
  | bool (value : Bool)
  | number (value : JsonNumber)
  | string (value : String)
  /-- A scalar that can be skipped but not read. -/
  | unreadable (fault : SyntaxFault)
  /-- The text ends here for a reader and for a skipper. -/
  | broken (read skip : SyntaxFault)
  | array (items : List Document) (stop : ListEnd)
  | object (members : List (MemberName × Document)) (stop : ObjectEnd)

/-- What a reader of the items makes of the end of a list. -/
def ListEnd.readFault? : ListEnd → Option SyntaxFault
  | .closed | .cut => none
  | .endOfText => some .endInList
  | .noSeparator => some .expectedListSeparator
  | .commaClosed => some .trailingComma
  | .commaEndOfText => some .endInValue

/-- What a reader makes of the end of a list that it expects to be over. -/
def ListEnd.overdueFault? : ListEnd → Option SyntaxFault
  | .closed | .cut => none
  | .endOfText => some .endInList
  | .noSeparator | .commaEndOfText => some .trailingCharacters
  | .commaClosed => some .trailingComma

def ListEnd.skipFault? : ListEnd → Option SyntaxFault
  | .closed | .cut => none
  | .endOfText => some .endInList
  | .noSeparator => some .expectedListSeparator
  | .commaClosed => some .expectedValue
  | .commaEndOfText => some .endInValue

/-- What a reader in search of the next name makes of the end of an object.  A
missing colon is no matter of the name: it is met after it. -/
def ObjectEnd.nameFault? : ObjectEnd → Option SyntaxFault
  | .closed | .cut => none
  | .endOfText => some .endInObject
  | .noSeparator => some .expectedObjectSeparator
  | .commaClosed => some .trailingComma
  | .commaEndOfText => some .endInValue
  | .noName _ => some .keyNotString
  | .brokenName read _ => some read
  | .noColon (.error fault) _ => some fault
  | .noColon (.ok _) _ => none

def ObjectEnd.skipFault? : ObjectEnd → Option SyntaxFault
  | .closed | .cut => none
  | .endOfText => some .endInObject
  | .noSeparator => some .expectedObjectSeparator
  | .commaClosed => some .keyNotString
  | .commaEndOfText => some .endInObject
  | .noName _ => some .keyNotString
  | .brokenName _ skip => some skip
  | .noColon _ fault => some fault

namespace Document

mutual

/-- What skipping the value runs into. -/
def skipFault? : Document → Option SyntaxFault
  | .broken _ skip => some skip
  | .array items stop => skipFaultItems items stop
  | .object members stop => skipFaultMembers members stop
  | _ => none

def skipFaultItems : List Document → ListEnd → Option SyntaxFault
  | [], stop => stop.skipFault?
  | d :: rest, stop =>
    match skipFault? d with
    | some fault => some fault
    | none => skipFaultItems rest stop

def skipFaultMembers : List (MemberName × Document) → ObjectEnd → Option SyntaxFault
  | [], stop => stop.skipFault?
  | (_, d) :: rest, stop =>
    match skipFault? d with
    | some fault => some fault
    | none => skipFaultMembers rest stop

end

/-- What a reader of another type finds in the place of its value. -/
def found : Document → Except SyntaxFault Found
  | .null => .ok .null
  | .bool b => .ok (.bool b)
  | .number n => .ok (.number n)
  | .string s => .ok (.string s)
  | .unreadable fault => .error fault
  | .broken read _ => .error read
  | .array _ _ => .ok .sequence
  | .object _ _ => .ok .mapping

mutual

/-- The document of a value: nothing is wrong with it. -/
def ofJson : Json → Document
  | .null => .null
  | .bool b => .bool b
  | .number n => .number n
  | .string s => .string s
  | .array items => .array (ofJsonItems items) .closed
  | .object members => .object (ofJsonMembers members) .closed

def ofJsonItems : List Json → List Document
  | [] => []
  | j :: rest => ofJson j :: ofJsonItems rest

def ofJsonMembers : List (String × Json) → List (MemberName × Document)
  | [] => []
  | (name, j) :: rest => (.ok name, ofJson j) :: ofJsonMembers rest

end

end Document
end TypedJson
