/-!
# Powers, searches and texts

What several parts of the library use: powers of two and of ten, the search of a graph, sets of
characters as tables of ranges, and the blanks and lines of a text.
-/
namespace TypedJson

/-- The power of two with this exponent. -/
abbrev twoTo (exponent : Nat) : Nat := Nat.pow 2 exponent

/-- The power of ten with this exponent. -/
abbrev tenTo (exponent : Nat) : Nat := Nat.pow 10 exponent

/-! ## Searching a graph -/

/-- Looks for an element with the property: the element itself, then what stands behind
it, one after the other.  `seen` holds the elements already looked at, and none of them is
entered again. -/
def search {α : Type} [DecidableEq α] (next : α → List α) (p : α → Bool) :
    Nat → α → List α → Bool × List α
  | 0, _, seen => (false, seen)
  | fuel + 1, a, seen =>
    if seen.contains a then (false, seen)
    else if p a then (true, a :: seen)
    else
      (next a).foldl
        (fun (found, seen) b => if found then (found, seen) else search next p fuel b seen)
        (false, a :: seen)

namespace Text

/-! ## Characters -/

/-- The code point lies in one of the ranges, which stand in ascending order and include
both their ends. -/
def inRanges (ranges : Array (Nat × Nat)) (c : Char) : Bool :=
  ranges.any fun r => r.1 ≤ c.toNat && c.toNat ≤ r.2

/-- The character counts as white space, in whatever script. -/
def isBlank (c : Char) : Bool :=
  let n := c.toNat
  (0x09 ≤ n && n ≤ 0x0d) || n == 0x20 || n == 0x85 || n == 0xa0 || n == 0x1680 ||
    (0x2000 ≤ n && n ≤ 0x200a) || n == 0x2028 || n == 0x2029 || n == 0x202f ||
    n == 0x205f || n == 0x3000

def trimLeft (cs : List Char) : List Char := cs.dropWhile isBlank

def trimRight (cs : List Char) : List Char := (cs.reverse.dropWhile isBlank).reverse

def trim (cs : List Char) : List Char := trimRight (trimLeft cs)

def trimmed (s : String) : String := String.ofList (trim s.toList)

/-! ## Lines

A line ends at a line feed, or at a carriage return and a line feed; the last line
needs no end, and there is no empty line behind the last end. -/

def dropReturn (line : List Char) : List Char :=
  if line.getLast? = some '\r' then line.dropLast else line

/-- Cuts at the line feeds; `line` is what has been read of the current line, in reverse. -/
def cutLines (line : List Char) : List Char → List (List Char)
  | [] => if line.isEmpty then [] else [line.reverse]
  | c :: cs => if c = '\n' then dropReturn line.reverse :: cutLines [] cs else cutLines (c :: line) cs

def lines (s : String) : List String := (cutLines [] s.toList).map String.ofList

end Text
end TypedJson
