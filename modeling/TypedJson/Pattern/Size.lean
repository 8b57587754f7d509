import TypedJson.Pattern.Basic
import TypedJson.Basic
/-!
# The size of a pattern

A pattern is matched by an automaton over the bytes of a text, in which a repeated part
stands once for every time that it may have to match.  Its size is the number of bytes
that the states and the steps between them take.  A class of characters has to be
spelled out in encoded bytes: its size grows with the number of its runs of characters,
and for the large sets it is a rounded figure.
-/
namespace TypedJson

/-- The size of a state. -/
def stateSize : Nat := 32

/-- The size of a step from a state that tells bytes apart. -/
def stepSize : Nat := 8

/-- The size of a step from a state that tries one way after the other. -/
def choiceSize : Nat := 4

/-- The size of what is left of all characters when a few of them are taken away. -/
def complementSize : Nat := 1000

/-- The character has a state for each of its bytes. -/
def characterSize (c : Char) : Nat := stateSize * c.utf8Size

/-- The sizes of the properties that are spread over many runs of characters. -/
def spreadProperties : List (List String × Nat) :=
  [ (["graphemebase", "grbase"], 54000),
    (["xidcontinue", "xidc", "idcontinue", "idc"], 48000),
    (["alphabetic", "alpha"], 45500),
    (["xidstart", "xids", "idstart", "ids", "letter", "l", "other", "c", "unassigned", "cn"], 41500),
    (["otherletter", "lo"], 32800),
    (["lowercase", "lower", "lowercaseletter", "ll"], 27600),
    (["uppercase", "upper", "uppercaseletter", "lu"], 26500),
    (["changeswhenuppercased", "cwu", "changeswhentitlecased", "cwt", "changeswhencasefolded",
      "cwcf", "changeswhenlowercased", "cwl"], 25000),
    (["caseignorable", "ci"], 23700),
    (["graphemeextend", "grext", "nonspacingmark", "mn", "mark", "m", "combiningmark"], 18700),
    (["symbol", "s"], 15400),
    (["othersymbol", "so", "diacritic", "dia"], 12600),
    (["punctuation", "p", "punct", "otherpunctuation", "po", "zyyy", "common"], 11000),
    (["cased", "casedletter", "lc", "spacingmark", "mc", "number", "n"], 9700),
    (["changeswhencasemapped", "cwcm", "emoji", "math", "terminalpunctuation", "term"], 7500),
    (["sentenceterminal", "sterm", "othernumber", "no", "modifierletter", "lm", "decimalnumber",
      "nd", "digit", "hani", "han"], 4800) ]

namespace NamedClass

/-- The size of a property; most of them are a few runs of characters. -/
def propertySize (name : String) : Nat :=
  match spreadProperties.find? fun entry => entry.1.contains name with
  | some (_, size) => size
  | none => complementSize

/-- Without matching by character only the ASCII part of a set is left. -/
def size (byCharacter : Bool) : NamedClass → Nat
  | .kind set negated =>
    if !byCharacter then 4 * stepSize
    else
      match set, negated with
      | .digit, false => 4600
      | .digit, true => 11600
      | .blank, false => 680
      | .blank, true => 1900
      | .word, false => 48100
      | .word, true => 44800
  | .property name => (name.map propertySize).getD 0

end NamedClass

mutual

/-- The size of what a class has for the item. -/
def ClassItem.size (byCharacter : Bool) : ClassItem → Nat
  | .literal c _ => if c.toNat < 0x80 then stepSize else characterSize c
  | .range low high _ _ =>
    if high.toNat < 0x80 then stepSize else characterSize low + characterSize high
  | .ascii _ => 3 * stepSize
  | .named set => set.size byCharacter
  | .bracketed negated inner =>
    inner.size byCharacter + if negated && byCharacter then complementSize else 0
  | .union items => ClassItem.sizeAll byCharacter items
  | .operation left right => max (left.size byCharacter) (right.size byCharacter)

def ClassItem.sizeAll (byCharacter : Bool) : List ClassItem → Nat
  | [] => 0
  | i :: rest => i.size byCharacter + ClassItem.sizeAll byCharacter rest

end

namespace Pattern

/-- An automaton may take ten mebibytes. -/
def sizeLimit : Nat := 10 * twoTo 20

mutual

/-- The pattern matches no text but the empty one. -/
def isWidthless : Pattern → Bool
  | .empty | .flags _ | .assertion => true
  | .repetition _ high body => high == some 0 || body.isWidthless
  | .group _ _ body => body.isWidthless
  | .alternation branches => areWidthless branches
  | .concat parts => areWidthless parts
  | _ => false

def areWidthless : List Pattern → Bool
  | [] => true
  | p :: rest => p.isWidthless && areWidthless rest

end

/-- The size of a part of this size that is repeated.  What has to match stands in a
row, and what may match has a choice in front of it. -/
def repeatedSize (low : Nat) (high : Option Nat) (size : Nat) : Nat :=
  match high with
  | none => max low 1 * size + 2 * stateSize
  | some high =>
    high * size + (high - low) * (stateSize + 2 * choiceSize) +
      if low = high then 0 else stateSize

mutual

/-- The size of the pattern, and whether matching is by character behind it. -/
def sizeAndSetting (byCharacter : Bool) : Pattern → Nat × Bool
  | .empty | .assertion => (stateSize, byCharacter)
  | .flags items => (0, settingOf .byCharacter byCharacter items)
  | .literal c _ => (characterSize c, byCharacter)
  | .dot => (complementSize, byCharacter)
  | .named set => (stateSize + set.size byCharacter, byCharacter)
  | .bracketed negated inner =>
    (stateSize + (ClassItem.bracketed negated inner).size byCharacter, byCharacter)
  | .repetition low high body =>
    let (size, behind) := sizeAndSetting byCharacter body
    -- Nothing is gained by matching the empty text twice.
    if body.isWidthless then (repeatedSize (min low 1) (high.map (min 1)) size, behind)
    else (repeatedSize low high size, behind)
  | .group captures items body =>
    let size := (sizeAndSetting (settingOf .byCharacter byCharacter items) body).1
    (if captures then size + 2 * stateSize else size, byCharacter)
  | .alternation branches =>
    let (size, behind) := sizesAndSetting byCharacter branches
    (size + 2 * stateSize + choiceSize * branches.length, behind)
  | .concat parts => sizesAndSetting byCharacter parts

def sizesAndSetting (byCharacter : Bool) : List Pattern → Nat × Bool
  | [] => (0, byCharacter)
  | p :: rest =>
    let (size, behind) := sizeAndSetting byCharacter p
    let (sizes, behind) := sizesAndSetting behind rest
    (size + sizes, behind)

end

/-- The size of the pattern, with this setting in front of it. -/
def size (byCharacter : Bool) (p : Pattern) : Nat := (p.sizeAndSetting byCharacter).1

end Pattern
end TypedJson
