import TypedJson.Json.Reader
/-!
# Bytes as text

A file holds bytes.  `Source.ofBytes` reads them as characters in their shortest
encoding and leaves a mark for each byte that belongs to none, so that a reader can
say where the text is broken; `Source.toText?` wants a text without such marks.
-/
namespace TypedJson

abbrev Bytes := List UInt8

def Bytes.ofText (text : String) : Bytes := text.toUTF8.toList

namespace Source

/-- The six bits that a continuation byte adds. -/
def continuation? (b : UInt8) : Option Nat :=
  if 0x80 ≤ b.toNat && b.toNat < 0xC0 then some (b.toNat - 0x80) else none

/-- A code point that needs as many bytes as it was written with. -/
def charFrom? (least n : Nat) : Option Char :=
  if least ≤ n && n.isValidChar then some (Char.ofNat n) else none

/-- The character at the front and the number of bytes behind its first one. -/
def firstChar? : Bytes → Option (Char × Nat)
  | [] => none
  | a :: rest =>
    let n := a.toNat
    if n < 0x80 then some (Char.ofNat n, 0)
    else if n < 0xC0 then none
    else if n < 0xE0 then
      match rest with
      | b :: _ => do
        let b ← continuation? b
        let c ← charFrom? 0x80 ((n - 0xC0) * 0x40 + b)
        pure (c, 1)
      | _ => none
    else if n < 0xF0 then
      match rest with
      | b :: c :: _ => do
        let b ← continuation? b
        let c ← continuation? c
        let ch ← charFrom? 0x800 (((n - 0xE0) * 0x40 + b) * 0x40 + c)
        pure (ch, 2)
      | _ => none
    else if n < 0xF8 then
      match rest with
      | b :: c :: d :: _ => do
        let b ← continuation? b
        let c ← continuation? c
        let d ← continuation? d
        let ch ← charFrom? 0x10000 ((((n - 0xF0) * 0x40 + b) * 0x40 + c) * 0x40 + d)
        pure (ch, 3)
      | _ => none
    else none

/-- Reads on, after passing over the bytes of a character already read. -/
def ofBytesFrom : Nat → Bytes → Source
  | _, [] => []
  | passed + 1, _ :: rest => ofBytesFrom passed rest
  | 0, b :: rest =>
    match firstChar? (b :: rest) with
    | some (c, more) => some c :: ofBytesFrom more rest
    | none => none :: ofBytesFrom 0 rest

def ofBytes (bytes : Bytes) : Source := ofBytesFrom 0 bytes

def toText? (s : Source) : Option String := (s.mapM id).map String.ofList

end Source
end TypedJson
