import TypedJson.Pattern.Reader
import TypedJson.Pattern.Size
/-!
# Well-formed patterns

A text is a well-formed pattern if it can be read, is not nested too deeply, asks
only for properties that exist, does not grow too large when its repetitions are
unfolded, and always matches whole characters: where matching by character is switched
off, nothing may match a lone byte above the ASCII range.
-/
namespace TypedJson

mutual

/-- How deeply the item is nested in itself. -/
def ClassItem.depth : ClassItem → Nat
  | .bracketed _ inner => inner.depth + 1
  | .union items => ClassItem.depthAll items + 1
  | .operation left right => max left.depth right.depth + 1
  | _ => 0

def ClassItem.depthAll : List ClassItem → Nat
  | [] => 0
  | i :: rest => max i.depth (ClassItem.depthAll rest)

end

mutual

/-- The item matches whole characters in either way of matching, and asks only for
properties that exist. -/
def ClassItem.isSound (byCharacter : Bool) : ClassItem → Bool
  | .literal c _ => byCharacter || c.toNat < 0x80
  | .range low high _ _ => byCharacter || (low.toNat < 0x80 && high.toNat < 0x80)
  | .ascii negated => byCharacter || !negated
  | .named (.kind _ negated) => byCharacter || !negated
  | .named (.property name) => byCharacter && name.isSome
  | .bracketed negated inner => (byCharacter || !negated) && inner.isSound byCharacter
  | .union items => ClassItem.areSound byCharacter items
  | .operation left right => left.isSound byCharacter && right.isSound byCharacter

def ClassItem.areSound (byCharacter : Bool) : List ClassItem → Bool
  | [] => true
  | i :: rest => i.isSound byCharacter && ClassItem.areSound byCharacter rest

end

namespace Pattern

/-- Parts may be nested at most this deep. -/
def nestingLimit : Nat := 250

mutual

def depth : Pattern → Nat
  | .bracketed _ inner => inner.depth + 1
  | .repetition _ _ body => body.depth + 1
  | .group _ _ body => body.depth + 1
  | .alternation branches => depthAll branches + 1
  | .concat parts => depthAll parts + 1
  | _ => 0

def depthAll : List Pattern → Nat
  | [] => 0
  | p :: rest => max p.depth (depthAll rest)

end

mutual

/-- Whether matching is by character behind the pattern, if the pattern is sound with
this setting in front of it.  Flags hold up to the end of the group around them. -/
def sound? (byCharacter : Bool) : Pattern → Option Bool
  | .empty | .assertion => some byCharacter
  | .flags items => some (settingOf .byCharacter byCharacter items)
  | .literal c byte => if byCharacter || !byte || c.toNat < 0x80 then some byCharacter else none
  | .dot => if byCharacter then some byCharacter else none
  | .named set => if (ClassItem.named set).isSound byCharacter then some byCharacter else none
  | .bracketed negated inner =>
    if (byCharacter || !negated) && inner.isSound byCharacter then some byCharacter else none
  | .repetition _ _ body => sound? byCharacter body
  | .group _ items body =>
    (sound? (settingOf .byCharacter byCharacter items) body).map fun _ => byCharacter
  | .alternation branches => allSound? byCharacter branches
  | .concat parts => allSound? byCharacter parts

def allSound? (byCharacter : Bool) : List Pattern → Option Bool
  | [] => some byCharacter
  | p :: rest =>
    match sound? byCharacter p with
    | none => none
    | some byCharacter => allSound? byCharacter rest

end

/-- The text is a pattern that can be matched. -/
def isWellFormed (text : String) : Bool :=
  match ofText? text with
  | none => false
  | some p => p.depth ≤ nestingLimit && (sound? true p).isSome && p.size true ≤ sizeLimit

end Pattern
end TypedJson
