import TypedJson.Json.Printer
import TypedJson.Proofs.NumberText
/-!
# Reading back the text of a value

The two ways to print a value differ in the blanks between its parts only.  `Json.laidOut` prints
with the blanks of either, `Json.gap`; reading skips them, and what is printed is read back
whatever follows that no number goes on with (`Document.scan_laidOut`).  An integer beyond
sixty-four bits would be read as a double, so a value whose integers are smaller is assumed
(`Json.Fits`).

The statement for the induction is about a value with anything behind it, and about any fuel
that covers the length of its text twice.  Strings, numbers and words are followed character
by character.  For lists and objects the scanner is inverted once for each way to go on, with
a comma or with the closing bracket, and these steps are assembled along the list.
-/
namespace TypedJson

/-! ## Strings

A printed character is read back whatever follows it: as it is, as a short escape, or as
four digits of its code. -/

namespace Source

theorem hexQuad_control : ∀ n < 32, hexQuad (some '0') (some '0')
    (some (Json.hexDigit (n / 16))) (some (Json.hexDigit (n % 16))) = some n := by
  decide +kernel

theorem scanString_quad {a b c d : Option Char} {n : Nat} (h : hexQuad a b c d = some n)
    (hn : n < 32) (s : Source) :
    scanString (some '\\' :: some 'u' :: a :: b :: c :: d :: s) =
      (scanString s).push (Char.ofNat n) := by
  have hlow : isLowSurrogate n = false := by
    simp only [isLowSurrogate, Bool.and_eq_false_iff, decide_eq_false_iff_not]
    omega
  have hhigh : isHighSurrogate n = false := by
    simp only [isHighSurrogate, Bool.and_eq_false_iff, decide_eq_false_iff_not]
    omega
  rw [scanString]
  simp only [h, hlow, hhigh, Bool.false_eq_true, if_false]

theorem scanString_escapeChar (c : Char) (s : Source) :
    scanString ((Json.escapeChar c).map some ++ s) = (scanString s).push c := by
  unfold Json.escapeChar
  by_cases hquote : c = '"'
  · subst hquote
    rfl
  · rw [if_neg hquote]
    by_cases hslash : c = '\\'
    · subst hslash
      rfl
    · rw [if_neg hslash]
      by_cases hcontrol : c.toNat < 0x20
      · rw [if_pos hcontrol]
        have hback := Char.ofNat_toNat c
        generalize c.toNat = n at hcontrol hback ⊢
        subst hback
        -- five control characters have escapes of their own
        split
        · rfl
        · rfl
        · rfl
        · rfl
        · rfl
        · exact scanString_quad (hexQuad_control _ hcontrol) hcontrol s
      · rw [if_neg hcontrol]
        show scanString (some c :: s) = _
        rw [scanString]
        · rw [if_neg hcontrol]
        all_goals
          intros
          simp_all

theorem scanString_escaped (cs : List Char) (s : Source) :
    scanString ((cs.flatMap Json.escapeChar).map some ++ some '"' :: s) =
      ⟨cs, none, false, .ok s⟩ := by
  induction cs with
  | nil => rfl
  | cons c cs ih =>
    rw [List.flatMap_cons, List.map_append, List.append_assoc, scanString_escapeChar, ih]
    rfl

end Source

namespace Json

/-! ## The layout of a value

`none` is the layout without blanks, `some` that of a value at some depth.  The two printers
are recursions of their own; both equal `laidOut`, so nothing below knows which of them it
is about. -/

/-- The blanks in front of an item: a line of its own at some depth, or none. -/
def gap : Option Nat → List Char
  | none => []
  | some indent => newLine indent

/-- What stands between a name and its value. -/
def colon : Option Nat → List Char
  | none => [':']
  | some _ => [':', ' ']

/-- One level further in. -/
def deeper (layout : Option Nat) : Option Nat := layout.map (· + 1)

mutual

def laidOut (layout : Option Nat) : Json → List Char
  | .array [] => ['[', ']']
  | .object [] => ['\x7b', '\x7d']
  | .array items => '[' :: gap (deeper layout) ++ laidOutItems (deeper layout) items ++ gap layout ++ [']']
  | .object members =>
    '\x7b' :: gap (deeper layout) ++ laidOutMembers (deeper layout) members ++ gap layout ++ ['\x7d']
  | .null => compactChars .null
  | .bool b => compactChars (.bool b)
  | .number n => scalarText n
  | .string s => quoted s

/-- The items with what separates them. -/
def laidOutItems (layout : Option Nat) : List Json → List Char
  | [] => []
  | [j] => laidOut layout j
  | j :: rest => laidOut layout j ++ ',' :: gap layout ++ laidOutItems layout rest

def laidOutMembers (layout : Option Nat) : List (String × Json) → List Char
  | [] => []
  | [(k, j)] => quoted k ++ colon layout ++ laidOut layout j
  | (k, j) :: rest =>
    quoted k ++ colon layout ++ laidOut layout j ++ ',' :: gap layout ++ laidOutMembers layout rest

end

mutual

theorem compactChars_eq : ∀ j, compactChars j = laidOut none j
  | .null => rfl
  | .bool true => rfl
  | .bool false => rfl
  | .number n => rfl
  | .string s => rfl
  | .array [] => rfl
  | .object [] => rfl
  | .array (j :: rest) => by
    rw [compactChars, laidOut, compactItems_eq]
    · simp [gap, deeper]
    · exact List.cons_ne_nil j rest
  | .object (m :: rest) => by
    rw [compactChars, laidOut, compactMembers_eq]
    · simp [gap, deeper]
    · exact List.cons_ne_nil m rest

theorem compactItems_eq : ∀ items, compactItems items = laidOutItems none items ++ [']']
  | [] => rfl
  | [j] => by rw [compactItems, laidOutItems, compactChars_eq]
  | j :: k :: rest => by
    rw [compactItems, laidOutItems, compactChars_eq, compactItems_eq (k :: rest)]
    · simp [gap]
    all_goals exact List.cons_ne_nil k rest

theorem compactMembers_eq : ∀ members, compactMembers members = laidOutMembers none members ++ ['\x7d']
  | [] => rfl
  | [(k, j)] => by
    rw [compactMembers, laidOutMembers, compactChars_eq]
    simp [colon]
  | (k, j) :: m :: rest => by
    rw [compactMembers, laidOutMembers, compactChars_eq, compactMembers_eq (m :: rest)]
    · simp [gap, colon]
    all_goals exact List.cons_ne_nil m rest

end

mutual

theorem prettyChars_eq (indent : Nat) : ∀ j, prettyChars indent j = laidOut (some indent) j
  | .null => rfl
  | .bool true => rfl
  | .bool false => rfl
  | .number n => rfl
  | .string s => rfl
  | .array [] => rfl
  | .object [] => rfl
  | .array (j :: rest) => by
    rw [prettyChars, laidOut, prettyItems_eq (indent + 1) (j :: rest) (List.cons_ne_nil j rest)]
    · simp [gap, deeper]
    all_goals exact List.cons_ne_nil j rest
  | .object (m :: rest) => by
    rw [prettyChars, laidOut, prettyMembers_eq (indent + 1) (m :: rest) (List.cons_ne_nil m rest)]
    · simp [gap, deeper]
    all_goals exact List.cons_ne_nil m rest

theorem prettyItems_eq (indent : Nat) : ∀ items, items ≠ [] →
    prettyItems indent items = gap (some indent) ++ laidOutItems (some indent) items
  | [], h => absurd rfl h
  | [j], _ => by rw [prettyItems, laidOutItems, prettyChars_eq, gap]
  | j :: k :: rest, _ => by
    rw [prettyItems, laidOutItems, prettyChars_eq,
      prettyItems_eq indent (k :: rest) (List.cons_ne_nil k rest)]
    · simp [gap]
    all_goals exact List.cons_ne_nil k rest

theorem prettyMembers_eq (indent : Nat) : ∀ members, members ≠ [] →
    prettyMembers indent members = gap (some indent) ++ laidOutMembers (some indent) members
  | [], h => absurd rfl h
  | [(k, j)], _ => by
    rw [prettyMembers, laidOutMembers, prettyChars_eq]
    simp [gap, colon]
  | (k, j) :: m :: rest, _ => by
    rw [prettyMembers, laidOutMembers, prettyChars_eq,
      prettyMembers_eq indent (m :: rest) (List.cons_ne_nil m rest)]
    · simp [gap, colon]
    all_goals exact List.cons_ne_nil m rest

end

/-! ## Values whose integers are read as integers -/

mutual

def Fits : Json → Prop
  | .number n => n.Fits
  | .array items => FitsItems items
  | .object members => FitsMembers members
  | _ => True

def FitsItems : List Json → Prop
  | [] => True
  | j :: rest => Fits j ∧ FitsItems rest

def FitsMembers : List (String × Json) → Prop
  | [] => True
  | (_, j) :: rest => Fits j ∧ FitsMembers rest

end

end Json

/-! ## Blanks

The first character decides what is scanned, so it matters that no value starts with a
blank, and none with a bracket that would close what is around it. -/

namespace Source

/-- Only blanks. -/
def Blank (bs : List Char) : Prop := ∀ b ∈ bs, isBlank (some b) = true

theorem blank_gap (layout : Option Nat) : Blank (Json.gap layout) := by
  intro b hb
  cases layout with
  | none => cases hb
  | some indent =>
    rcases List.mem_cons.1 hb with rfl | hb
    · rfl
    · rw [List.eq_of_mem_replicate hb]
      rfl

theorem skipBlank_append {bs : List Char} (h : Blank bs) (s : Source) :
    skipBlank (bs.map some ++ s) = skipBlank s := by
  induction bs with
  | nil => rfl
  | cons b bs ih =>
    have hb : isBlank (some b) = true := h b List.mem_cons_self
    rw [List.map_cons, List.cons_append, skipBlank, List.dropWhile_cons, if_pos hb]
    exact ih fun x hx => h x (List.mem_cons_of_mem b hx)

theorem skipBlank_cons {c : Char} (h : isBlank (some c) = false) (s : Source) :
    skipBlank (some c :: s) = some c :: s := by
  rw [skipBlank, List.dropWhile_cons, if_neg (by rw [h]; decide)]

/-- Blanks end a number. -/
theorem endsNumber_append {bs : List Char} (h : Blank bs) {s : Source} (hs : EndsNumber s) :
    EndsNumber (bs.map some ++ s) := by
  cases bs with
  | nil => exact hs
  | cons b bs =>
    have hb : isBlank (some b) = true := h b List.mem_cons_self
    simp only [isBlank, Bool.or_eq_true, beq_iff_eq] at hb
    rcases hb with ((rfl | rfl) | rfl) | rfl
    all_goals exact ⟨rfl, by rintro ⟨⟩, rfl⟩

theorem head_of_scanNumber {s : Source} {n : JsonNumber} {rest : Option Source}
    (h : scanNumber s = ⟨.ok n, rest⟩) :
    ∃ c s', s = some c :: s' ∧ (c == '-' || c.isDigit) = true := by
  unfold scanNumber at h
  dsimp only at h
  match s, h with
  | [], h => cases h
  | none :: s, h => cases h
  | some c :: s, h =>
    refine ⟨c, s, rfl, ?_⟩
    by_contra hc
    rw [Bool.not_eq_true, Bool.or_eq_false_iff] at hc
    have hhead : ((some c :: s).head? == some (some '-')) = false := by simpa using hc.1
    have hnone : digitsOf (some c :: s) = [] := by
      have hdigit : isDigit (some c) = false := hc.2
      rw [digitsOf, List.takeWhile_cons, if_neg (by rw [hdigit]; decide)]
      rfl
    rw [hhead, if_neg (by decide), hnone] at h
    cases h

theorem ne_of_numberHead {c x : Char} (hc : (c == '-' || c.isDigit) = true)
    (hx : (x == '-' || x.isDigit) = false) : c ≠ x := by
  rintro rfl
  rw [hc] at hx
  cases hx

theorem isBlank_of_numberHead {c : Char} (hc : (c == '-' || c.isDigit) = true) :
    isBlank (some c) = false := by
  simp only [isBlank, Bool.or_eq_false_iff, beq_eq_false_iff_ne]
  exact ⟨⟨⟨ne_of_numberHead hc (by decide), ne_of_numberHead hc (by decide)⟩,
    ne_of_numberHead hc (by decide)⟩, ne_of_numberHead hc (by decide)⟩

end Source

namespace Document

open Source Json

theorem scalarText_head {n : JsonNumber} (hn : n.Fits) :
    ∃ c cs, scalarText n = c :: cs ∧ (c == '-' || c.isDigit) = true := by
  have hend : EndsNumber [] := ⟨rfl, by rintro ⟨⟩, rfl⟩
  obtain ⟨c, s, hs, hc⟩ := head_of_scanNumber (scanNumber_text hn hend)
  rw [List.append_nil, List.map_eq_cons_iff] at hs
  obtain ⟨c', cs, hcs, heq, -⟩ := hs
  rw [Option.some.injEq] at heq
  exact ⟨c', cs, hcs, heq ▸ hc⟩

/-- What stands first in a value is no blank and does not close a list or an object. -/
theorem laidOut_head (layout : Option Nat) {j : Json} (hj : Fits j) :
    ∃ c cs, laidOut layout j = c :: cs ∧ isBlank (some c) = false ∧ c ≠ ']' ∧ c ≠ '\x7d' := by
  match j, hj with
  | .null, _ => exact ⟨'n', _, rfl, rfl, by decide, by decide⟩
  | .bool true, _ => exact ⟨'t', _, rfl, rfl, by decide, by decide⟩
  | .bool false, _ => exact ⟨'f', _, rfl, rfl, by decide, by decide⟩
  | .string s, _ => exact ⟨'"', _, rfl, rfl, by decide, by decide⟩
  | .array [], _ => exact ⟨'[', _, rfl, rfl, by decide, by decide⟩
  | .array (j :: js), _ =>
    refine ⟨'[', _, laidOut.eq_3 layout (j :: js) (List.cons_ne_nil j js), rfl, ?_, ?_⟩ <;> decide
  | .object [], _ => exact ⟨'\x7b', _, rfl, rfl, by decide, by decide⟩
  | .object (m :: ms), _ =>
    refine ⟨'\x7b', _, laidOut.eq_4 layout (m :: ms) (List.cons_ne_nil m ms), rfl, ?_, ?_⟩ <;> decide
  | .number n, hn =>
    obtain ⟨c, cs, hcs, hc⟩ := scalarText_head hn
    exact ⟨c, cs, hcs, isBlank_of_numberHead hc, ne_of_numberHead hc (by decide),
      ne_of_numberHead hc (by decide)⟩

theorem scan_blank (fuel : Nat) {bs : List Char} (h : Blank bs) (s : Source) :
    scan fuel (bs.map some ++ s) = scan fuel s := by
  cases fuel with
  | zero => rfl
  | succ fuel =>
    rw [scan, scan, skipBlank_append h]

theorem scan_number {n : JsonNumber} (hn : n.Fits) (fuel : Nat) {rest : Source}
    (hrest : EndsNumber rest) :
    scan (fuel + 1) ((scalarText n).map some ++ rest) = ⟨.number n, some rest⟩ := by
  have hscan := scanNumber_text hn hrest
  obtain ⟨c, s, hs, hc⟩ := head_of_scanNumber hscan
  change scan (fuel + 1) (n.text.toList.map some ++ rest) = _
  rw [hs] at hscan ⊢
  rw [scan, skipBlank_cons (isBlank_of_numberHead hc)]
  -- the other forms of a value start with other characters
  split <;> rename_i heq
  case h_8 =>
    cases heq
    rw [if_pos hc, hscan]
    rfl
  all_goals
    cases heq
    try exact absurd hc (by decide)

theorem scanString_quoted (s : String) (rest : Source) :
    ∃ inner, (quoted s).map some ++ rest = some '"' :: inner ∧
      scanString inner = ⟨s.toList, none, false, .ok rest⟩ := by
  refine ⟨(s.toList.flatMap escapeChar).map some ++ some '"' :: rest, ?_, scanString_escaped _ rest⟩
  unfold quoted
  simp

theorem scan_string (s : String) (fuel : Nat) (rest : Source) :
    scan (fuel + 1) ((quoted s).map some ++ rest) = ⟨.string s, some rest⟩ := by
  obtain ⟨inner, hinner, hscan⟩ := scanString_quoted s rest
  rw [hinner]
  show ofStringScan (scanString inner) = _
  rw [hscan]
  show Scan.mk (.string (String.ofList s.toList)) (some rest) = _
  rw [String.ofList_toList]

/-! ## Lists and objects

The scanner goes from one item to the next by what stands behind it.  These lemmas make one
step each and leave the value of the item open; the recursion fills it in. -/

/-! What the scanner needs to know of a printed item is its first character: it is no blank, so
nothing is skipped, and no bracket, so the list does not end there. -/

theorem laidOutItems_head (layout : Option Nat) : ∀ {items : List Json}, items ≠ [] →
    FitsItems items → ∃ c cs, laidOutItems layout items = c :: cs ∧
      isBlank (some c) = false ∧ c ≠ ']'
  | [], hne, _ => absurd rfl hne
  | [j], _, hitems => by
    obtain ⟨c, cs, hcs, hblank, hclose, -⟩ := laidOut_head layout hitems.1
    exact ⟨c, cs, hcs, hblank, hclose⟩
  | j :: k :: items, _, hitems => by
    obtain ⟨c, cs, hcs, hblank, hclose, -⟩ := laidOut_head layout hitems.1
    rw [laidOutItems.eq_3 layout j (k :: items) (List.cons_ne_nil k items), hcs]
    exact ⟨c, _, rfl, hblank, hclose⟩

theorem laidOutMembers_head (layout : Option Nat) : ∀ {members : List (String × Json)},
    members ≠ [] → ∃ cs, laidOutMembers layout members = '"' :: cs
  | [], hne => absurd rfl hne
  | [(k, j)], _ => ⟨_, rfl⟩
  | (k, j) :: m :: members, _ => by
    rw [laidOutMembers.eq_3 layout k j (m :: members) (List.cons_ne_nil m members)]
    exact ⟨_, rfl⟩

theorem scan_list {fuel : Nat} {s t : Source} {c : Char} (hs : skipBlank s = some c :: t)
    (hc : c ≠ ']') :
    scan (fuel + 1) (some '[' :: s) =
      ⟨.array (scanItems fuel (some c :: t)).1 (scanItems fuel (some c :: t)).2.1,
        (scanItems fuel (some c :: t)).2.2⟩ := by
  rw [scan, skipBlank_cons rfl]
  split
  case h_6 heq =>
    rw [← (List.cons.inj heq).2, hs]
    split
    case h_1 hrest => cases hrest
    case h_2 hrest => exact absurd (Option.some.inj (List.cons.inj hrest).1) hc
    case h_3 => rfl
  case h_8 hopen _ heq =>
    cases heq
    exact absurd rfl hopen
  all_goals simp_all

theorem scan_object {fuel : Nat} {s t : Source} (hs : skipBlank s = some '"' :: t) :
    scan (fuel + 1) (some '\x7b' :: s) =
      ⟨.object (scanMembers fuel (some '"' :: t)).1 (scanMembers fuel (some '"' :: t)).2.1,
        (scanMembers fuel (some '"' :: t)).2.2⟩ := by
  rw [scan, skipBlank_cons rfl]
  split
  case h_7 heq =>
    rw [← (List.cons.inj heq).2, hs]
    rfl
  case h_8 hopen heq =>
    cases heq
    exact absurd rfl hopen
  all_goals simp_all

/-! After a comma the scanner skips blanks and looks for a closing bracket, since a comma before
one is a fault.  A printed list always has an item there. -/

theorem scanItems_comma {fuel : Nat} {s t u : Source} {c : Char} {d : Document}
    (hitem : scan fuel s = ⟨d, some (some ',' :: t)⟩) (ht : skipBlank t = some c :: u)
    (hc : c ≠ ']') :
    scanItems (fuel + 1) s =
      (d :: (scanItems fuel (some c :: u)).1, (scanItems fuel (some c :: u)).2.1,
        (scanItems fuel (some c :: u)).2.2) := by
  rw [scanItems, hitem]
  dsimp only
  rw [skipBlank_cons rfl]
  split
  case h_3 heq =>
    rw [← (List.cons.inj heq).2, ht]
    split
    case h_1 hrest => cases hrest
    case h_2 hrest => exact absurd (Option.some.inj (List.cons.inj hrest).1) hc
    case h_3 => rfl
  all_goals simp_all

theorem scanItems_last {fuel : Nat} {s t u : Source} {d : Document}
    (hitem : scan fuel s = ⟨d, some t⟩) (ht : skipBlank t = some ']' :: u) :
    scanItems (fuel + 1) s = ([d], .closed, some u) := by
  rw [scanItems, hitem]
  dsimp only
  rw [ht]
  rfl

theorem scanMembers_comma {fuel : Nat} {s t u v : Source} {name : List Char} {d : Document}
    (hname : scanString s = ⟨name, none, false, .ok (some ':' :: t)⟩)
    (hvalue : scan fuel t = ⟨d, some (some ',' :: u)⟩) (hu : skipBlank u = some '"' :: v) :
    scanMembers (fuel + 1) (some '"' :: s) =
      ((.ok (String.ofList name), d) :: (scanMembers fuel (some '"' :: v)).1,
        (scanMembers fuel (some '"' :: v)).2.1, (scanMembers fuel (some '"' :: v)).2.2) := by
  rw [scanMembers, hname]
  dsimp only
  rw [skipBlank_cons rfl]
  split
  case h_2 heq =>
    rw [← (List.cons.inj heq).2, hvalue]
    dsimp only
    rw [skipBlank_cons rfl]
    split
    case h_3 hrest =>
      rw [← (List.cons.inj hrest).2, hu]
      rfl
    all_goals simp_all
  all_goals simp_all

theorem scanMembers_last {fuel : Nat} {s t u v : Source} {name : List Char} {d : Document}
    (hname : scanString s = ⟨name, none, false, .ok (some ':' :: t)⟩)
    (hvalue : scan fuel t = ⟨d, some u⟩) (hu : skipBlank u = some '\x7d' :: v) :
    scanMembers (fuel + 1) (some '"' :: s) = ([(.ok (String.ofList name), d)], .closed, some v) := by
  rw [scanMembers, hname]
  dsimp only
  rw [skipBlank_cons rfl]
  split
  case h_2 heq =>
    rw [← (List.cons.inj heq).2, hvalue]
    dsimp only
    rw [hu]
    rfl
  all_goals simp_all

theorem skipBlank_gap (layout : Option Nat) {c : Char} (hc : isBlank (some c) = false)
    (s : Source) : skipBlank ((gap layout).map some ++ some c :: s) = some c :: s := by
  rw [skipBlank_append (blank_gap layout), skipBlank_cons hc]

theorem name_laidOut (layout : Option Nat) (k : String) (value : Source) :
    ∃ inner t, (quoted k).map some ++ ((colon layout).map some ++ value) = some '"' :: inner ∧
      scanString inner = ⟨k.toList, none, false, .ok (some ':' :: t)⟩ ∧
      ∀ fuel, scan fuel t = scan fuel value := by
  obtain ⟨inner, hinner, hscan⟩ := scanString_quoted k ((colon layout).map some ++ value)
  cases layout with
  | none => exact ⟨inner, value, hinner, hscan, fun _ => rfl⟩
  | some indent =>
    have hblank : Blank [' '] := fun b hb => by
      rw [List.mem_singleton.1 hb]
      rfl
    exact ⟨inner, _, hinner, hscan, fun fuel => scan_blank fuel hblank value⟩

/-! ## Values

By recursion on the value together with its lists.  The fuel is measured by the text, which
is longer than that of each part by at least the brackets. -/

mutual

/-- **What is printed is read back**, with either layout and whatever follows that ends a
number. -/
theorem scan_laidOut (layout : Option Nat) : ∀ (j : Json), Fits j → ∀ (fuel : Nat) (rest : Source),
    2 * (laidOut layout j).length + 1 ≤ fuel → EndsNumber rest →
      scan fuel ((laidOut layout j).map some ++ rest) = ⟨ofJson j, some rest⟩
  | j, _, 0, _, hfuel, _ => absurd hfuel (by omega)
  | .null, _, _ + 1, _, _, _ => rfl
  | .bool true, _, _ + 1, _, _, _ => rfl
  | .bool false, _, _ + 1, _, _, _ => rfl
  | .number n, hj, fuel + 1, rest, _, hrest => scan_number hj fuel hrest
  | .string s, _, fuel + 1, rest, _, _ => scan_string s fuel rest
  | .array [], _, _ + 1, _, _, _ => rfl
  | .object [], _, _ + 1, _, _, _ => rfl
  | .array (j :: items), hj, fuel + 1, rest, hfuel, _ => by
    have hne := List.cons_ne_nil j items
    obtain ⟨c, cs, hcs, hblank, hclose⟩ := laidOutItems_head (deeper layout) hne hj
    rw [laidOut.eq_3 layout _ hne] at hfuel ⊢
    simp only [List.length_cons, List.length_append] at hfuel
    have hitems := scanItems_laidOut (deeper layout) (j :: items) hne hj fuel _ rest
      (blank_gap layout) (by omega)
    rw [hcs, List.map_cons, List.cons_append] at hitems
    simp only [hcs, List.map_cons, List.map_append, List.cons_append, List.append_assoc,
      List.map_nil, List.nil_append]
    rw [scan_list (skipBlank_gap _ hblank _) hclose, hitems]
    rfl
  | .object (m :: members), hj, fuel + 1, rest, hfuel, _ => by
    have hne := List.cons_ne_nil m members
    obtain ⟨cs, hcs⟩ := laidOutMembers_head (deeper layout) hne
    rw [laidOut.eq_4 layout _ hne] at hfuel ⊢
    simp only [List.length_cons, List.length_append] at hfuel
    have hmembers := scanMembers_laidOut (deeper layout) (m :: members) hne hj fuel _ rest
      (blank_gap layout) (by omega)
    rw [hcs, List.map_cons, List.cons_append] at hmembers
    simp only [hcs, List.map_cons, List.map_append, List.cons_append, List.append_assoc,
      List.map_nil, List.nil_append]
    rw [scan_object (skipBlank_gap _ rfl _), hmembers]
    rfl

theorem scanItems_laidOut (layout : Option Nat) : ∀ (items : List Json), items ≠ [] →
    FitsItems items → ∀ (fuel : Nat) (bs : List Char) (rest : Source), Blank bs →
    2 * (laidOutItems layout items).length + 2 ≤ fuel →
      scanItems fuel ((laidOutItems layout items).map some ++ (bs.map some ++ some ']' :: rest)) =
        (ofJsonItems items, .closed, some rest)
  | [], hne, _, _, _, _, _, _ => absurd rfl hne
  | items, _, _, 0, _, _, _, hfuel => absurd hfuel (by omega)
  | [j], _, hitems, fuel + 1, bs, rest, hbs, hfuel => by
    have hend : EndsNumber (bs.map some ++ some ']' :: rest) :=
      endsNumber_append hbs ⟨rfl, by rintro ⟨⟩, rfl⟩
    have hskip : skipBlank (bs.map some ++ some ']' :: rest) = some ']' :: rest := by
      rw [skipBlank_append hbs, skipBlank_cons rfl]
    rw [laidOutItems] at hfuel ⊢
    exact scanItems_last (scan_laidOut layout j hitems.1 fuel _ (by omega) hend) hskip
  | j :: k :: items, _, hitems, fuel + 1, bs, rest, hbs, hfuel => by
    have hne := List.cons_ne_nil k items
    obtain ⟨c, cs, hcs, hblank, hclose⟩ := laidOutItems_head layout hne hitems.2
    rw [laidOutItems.eq_3 layout j _ hne] at hfuel ⊢
    simp only [List.length_cons, List.length_append] at hfuel
    have hrest := scanItems_laidOut layout (k :: items) hne hitems.2 fuel bs rest hbs
      (by omega)
    have hitem := scan_laidOut layout j hitems.1 fuel
      (some ',' :: ((gap layout).map some ++ ((laidOutItems layout (k :: items)).map some ++
        (bs.map some ++ some ']' :: rest)))) (by omega) ⟨rfl, by rintro ⟨⟩, rfl⟩
    rw [hcs, List.map_cons, List.cons_append] at hrest hitem
    simp only [hcs, List.map_cons, List.map_append, List.cons_append, List.append_assoc]
    rw [scanItems_comma hitem (skipBlank_gap _ hblank _) hclose, hrest]
    rfl

theorem scanMembers_laidOut (layout : Option Nat) : ∀ (members : List (String × Json)),
    members ≠ [] → FitsMembers members → ∀ (fuel : Nat) (bs : List Char) (rest : Source), Blank bs →
    2 * (laidOutMembers layout members).length + 2 ≤ fuel →
      scanMembers fuel
          ((laidOutMembers layout members).map some ++ (bs.map some ++ some '\x7d' :: rest)) =
        (ofJsonMembers members, .closed, some rest)
  | [], hne, _, _, _, _, _, _ => absurd rfl hne
  | members, _, _, 0, _, _, _, hfuel => absurd hfuel (by omega)
  | [(k, j)], _, hmembers, fuel + 1, bs, rest, hbs, hfuel => by
    have hend : EndsNumber (bs.map some ++ some '\x7d' :: rest) :=
      endsNumber_append hbs ⟨rfl, by rintro ⟨⟩, rfl⟩
    have hskip : skipBlank (bs.map some ++ some '\x7d' :: rest) = some '\x7d' :: rest := by
      rw [skipBlank_append hbs, skipBlank_cons rfl]
    rw [laidOutMembers] at hfuel ⊢
    simp only [List.length_append] at hfuel
    have hvalue := scan_laidOut layout j hmembers.1 fuel _ (by omega) hend
    obtain ⟨inner, t, hinner, hname, hskipped⟩ := name_laidOut layout k
      ((laidOut layout j).map some ++ (bs.map some ++ some '\x7d' :: rest))
    rw [← hskipped] at hvalue
    simp only [List.map_append, List.append_assoc]
    rw [hinner, scanMembers_last hname hvalue hskip, String.ofList_toList]
    rfl
  | (k, j) :: m :: members, _, hmembers, fuel + 1, bs, rest, hbs, hfuel => by
    have hne := List.cons_ne_nil m members
    obtain ⟨cs, hcs⟩ := laidOutMembers_head layout hne
    rw [laidOutMembers.eq_3 layout k j _ hne] at hfuel ⊢
    simp only [List.length_cons, List.length_append] at hfuel
    have hrest := scanMembers_laidOut layout (m :: members) hne hmembers.2 fuel bs rest hbs
      (by omega)
    have hvalue := scan_laidOut layout j hmembers.1 fuel
      (some ',' :: ((gap layout).map some ++ ((laidOutMembers layout (m :: members)).map some ++
        (bs.map some ++ some '\x7d' :: rest)))) (by omega) ⟨rfl, by rintro ⟨⟩, rfl⟩
    obtain ⟨inner, t, hinner, hname, hskipped⟩ := name_laidOut layout k
      ((laidOut layout j).map some ++ some ',' :: ((gap layout).map some ++
        ((laidOutMembers layout (m :: members)).map some ++ (bs.map some ++ some '\x7d' :: rest))))
    rw [← hskipped] at hvalue
    rw [hcs, List.map_cons, List.cons_append] at hrest hvalue hinner
    simp only [hcs, List.map_cons, List.map_append, List.cons_append, List.append_assoc]
    rw [hinner, scanMembers_comma hname hvalue (skipBlank_gap _ rfl _), hrest, String.ofList_toList]
    rfl

end

theorem ofSource_laidOut (layout : Option Nat) {j : Json} (hj : Fits j) :
    ofSource ((laidOut layout j).map some) = ofJson j := by
  -- the end of the text ends a number too
  have hend : EndsNumber [] := ⟨rfl, by rintro ⟨⟩, rfl⟩
  have hscan := scan_laidOut layout j hj (2 * ((laidOut layout j).map some).length + 1)
    [] (by rw [List.length_map]) hend
  rw [List.append_nil] at hscan
  unfold ofSource scanSource
  rw [hscan]

/-- **Reading the text of a value, on one line or on many, gives the value.** -/
theorem ofSource_printed {j : Json} (hj : Fits j) :
    ofSource (ofString j.compact) = ofJson j ∧ ofSource (ofString j.pretty) = ofJson j := by
  unfold ofString compact pretty
  rw [String.toList_ofList, String.toList_ofList, compactChars_eq, prettyChars_eq]
  exact ⟨ofSource_laidOut none hj, ofSource_laidOut (some 0) hj⟩

end Document

end TypedJson
