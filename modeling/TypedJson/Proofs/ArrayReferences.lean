import Mathlib.Data.List.TakeWhile
import Mathlib.Logic.Function.Iterate
import TypedJson.Proofs.References
/-!
# References to arrays

Brackets behind a reference make it a reference to an array of what it stood for.  A reference is
split at its last slash and trimmed before it is looked up, while its brackets are taken off the
text as it is; the two meet in that blanks at the end of a reference never matter
(`Reference.resolveChars?_append_blanks`).  Brackets end in a character that no name has, so the
text with them is never looked up with success, and taking them off leaves the reference without
the blanks at its end.

That a reference with brackets is not the name of a type has to be assumed of the schema,
since a name may be any text.  Primitives have no brackets in their names, which is checked
on their list.  The resolution itself is bounded by the number of closing brackets: each step
takes one off.
-/
namespace TypedJson

namespace Text

variable {cs blanks : List Char}

theorem dropWhile_append_blanks (h : ∀ c ∈ blanks, isBlank c = true) (cs : List Char) :
    (cs ++ blanks).reverse.dropWhile isBlank = cs.reverse.dropWhile isBlank := by
  rw [List.reverse_append, List.dropWhile_append_of_pos fun c hc => h c (List.mem_reverse.1 hc)]

theorem trim_append_blanks (h : ∀ c ∈ blanks, isBlank c = true) :
    trim (cs ++ blanks) = trim cs := by
  unfold trim trimLeft trimRight
  rw [List.dropWhile_append]
  split
  · rename_i hempty
    rw [List.isEmpty_iff.1 hempty, List.dropWhile_eq_nil_iff.2 h]
  · rw [dropWhile_append_blanks h]

theorem exists_blanks_behind (cs : List Char) :
    ∃ blanks, (∀ c ∈ blanks, isBlank c = true) ∧ cs = trimRight cs ++ blanks := by
  refine ⟨(cs.reverse.takeWhile isBlank).reverse,
    fun c hc => List.mem_takeWhile_imp (List.mem_reverse.1 hc), ?_⟩
  unfold trimRight
  rw [← List.reverse_append, List.takeWhile_append_dropWhile, List.reverse_reverse]

theorem mem_trim {c : Char} (hc : isBlank c = false) (h : c ∈ cs) : c ∈ trim cs := by
  have drop (l : List Char) (hl : c ∈ l) : c ∈ l.dropWhile isBlank := by
    rw [← List.takeWhile_append_dropWhile (p := isBlank) (l := l)] at hl
    refine (List.mem_append.1 hl).resolve_left fun hfront => ?_
    rw [List.mem_takeWhile_imp hfront] at hc
    cases hc
  exact List.mem_reverse.2 (drop _ (List.mem_reverse.2 (drop cs h)))

theorem not_mem_of_blanks {c : Char} (hc : isBlank c = false) (h : ∀ b ∈ blanks, isBlank b = true) :
    c ∉ blanks := fun hmem => by
  rw [h c hmem] at hc
  cases hc

end Text

/-- An opening and a closing bracket with blanks before, in and behind them. -/
structure Brackets where
  before : List Char
  inside : List Char
  behind : List Char
  blank : ∀ c ∈ before ++ inside ++ behind, Text.isBlank c = true

namespace Brackets

variable (b : Brackets)

def chars : List Char := b.before ++ '[' :: (b.inside ++ ']' :: b.behind)

def text : String := String.ofList b.chars

/-- The texts of several of them, one behind the other. -/
def texts (suffixes : List Brackets) : String := String.ofList (suffixes.flatMap chars)

theorem blank_before : ∀ c ∈ b.before, Text.isBlank c = true := fun c hc =>
  b.blank c (List.mem_append_left _ (List.mem_append_left _ hc))

theorem blank_inside : ∀ c ∈ b.inside, Text.isBlank c = true := fun c hc =>
  b.blank c (List.mem_append_left _ (List.mem_append_right _ hc))

theorem blank_behind : ∀ c ∈ b.behind, Text.isBlank c = true := fun c hc =>
  b.blank c (List.mem_append_right _ hc)

theorem closing_mem : ']' ∈ b.chars := by simp [chars]

theorem slash_not_mem : '/' ∉ b.chars := by
  have slash {blanks : List Char} (h : ∀ c ∈ blanks, Text.isBlank c = true) : '/' ∉ blanks :=
    Text.not_mem_of_blanks (by decide) h
  simp [chars, slash b.blank_before, slash b.blank_inside, slash b.blank_behind]

end Brackets

namespace Reference

variable {s : Schema}

/-! ## Taking brackets off

The two directions: brackets that were put behind a text are taken off again, and what is
taken off is brackets. -/

theorem dropBrackets?_append (b : Brackets) {cs : List Char} (hline : '\n' ∉ cs) :
    dropBrackets? (cs ++ b.chars) = some (Text.trimRight cs) := by
  have hbehind : (cs ++ b.chars).reverse.dropWhile Text.isBlank =
      ']' :: (b.inside.reverse ++ '[' :: (b.before.reverse ++ cs.reverse)) := by
    have heq : cs ++ b.chars = (cs ++ b.before ++ '[' :: (b.inside ++ [']'])) ++ b.behind := by
      simp [Brackets.chars]
    rw [heq, Text.dropWhile_append_blanks b.blank_behind]
    simp [show Text.isBlank ']' = false by decide]
  have hinside : (b.inside.reverse ++ '[' :: (b.before.reverse ++ cs.reverse)).dropWhile
      Text.isBlank = '[' :: (b.before.reverse ++ cs.reverse) := by
    rw [List.dropWhile_append_of_pos fun c hc => b.blank_inside c (List.mem_reverse.1 hc)]
    simp [show Text.isBlank '[' = false by decide]
  have hbefore : (b.before.reverse ++ cs.reverse).dropWhile Text.isBlank =
      cs.reverse.dropWhile Text.isBlank :=
    List.dropWhile_append_of_pos fun c hc => b.blank_before c (List.mem_reverse.1 hc)
  have hfree : '\n' ∉ (cs.reverse.dropWhile Text.isBlank).reverse := fun hmem =>
    hline (List.mem_reverse.1 ((List.dropWhile_sublist _).subset (List.mem_reverse.1 hmem)))
  unfold dropBrackets?
  simp only [hbehind, hinside, hbefore]
  rw [if_neg (by simpa using hfree)]
  rfl

theorem exists_brackets_of_dropBrackets? {cs base : List Char} (h : dropBrackets? cs = some base) :
    ∃ b : Brackets, cs = base ++ b.chars := by
  have split (l : List Char) : l.reverse = (l.dropWhile Text.isBlank).reverse ++
      (l.takeWhile Text.isBlank).reverse := by
    rw [← List.reverse_append, List.takeWhile_append_dropWhile]
  have blanks (l : List Char) : ∀ c ∈ (l.takeWhile Text.isBlank).reverse, Text.isBlank c = true :=
    fun c hc => List.mem_takeWhile_imp (List.mem_reverse.1 hc)
  unfold dropBrackets? at h
  split at h
  · rename_i behind hbehind
    split at h
    · rename_i before hbefore
      dsimp only at h
      split at h
      · cases h
      · cases h
        refine ⟨⟨(before.takeWhile Text.isBlank).reverse, (behind.takeWhile Text.isBlank).reverse,
          (cs.reverse.takeWhile Text.isBlank).reverse, ?_⟩, ?_⟩
        · intro c hc
          rw [List.append_assoc, List.mem_append, List.mem_append] at hc
          exact hc.elim (blanks _ c) fun hc => hc.elim (blanks _ c) (blanks _ c)
        · have h₁ := split cs.reverse
          have h₂ := split behind
          have h₃ := split before
          rw [hbehind, List.reverse_reverse, List.reverse_cons, h₂, hbefore, List.reverse_cons,
            h₃] at h₁
          simpa [Brackets.chars] using h₁
    · cases h
  · cases h

theorem count_dropBrackets? {cs base : List Char} (h : dropBrackets? cs = some base) :
    base.count ']' < cs.count ']' := by
  obtain ⟨b, rfl⟩ := exists_brackets_of_dropBrackets? h
  rw [List.count_append]
  exact Nat.lt_add_of_pos_right (List.count_pos_iff.2 b.closing_mem)

/-! ## The name and the qualifier

The qualifier is what stands before the last slash.  What is put behind a text without a
slash goes to the name and leaves the qualifier as it was. -/

theorem splitSlash?_append {tail : List Char} (h : '/' ∉ tail) (cs : List Char) :
    splitSlash? (cs ++ tail) = (splitSlash? cs).map fun x => (x.1, x.2 ++ tail) := by
  have htail : ∀ c ∈ tail.reverse, (c != '/') = true := fun c hc => by
    rw [bne_iff_ne]
    rintro rfl
    exact h (List.mem_reverse.1 hc)
  unfold splitSlash?
  simp only [List.reverse_append, List.takeWhile_append_of_pos htail, List.drop_append,
    List.length_append, Nat.add_sub_cancel_left]
  rw [List.drop_eq_nil_of_le (Nat.le_add_right _ _), List.nil_append]
  cases cs.reverse.drop (cs.reverse.takeWhile (· != '/')).length with
  | nil => rfl
  | cons _ front => simp

theorem exists_parts_append {tail : List Char} (h : '/' ∉ tail) (cs : List Char) :
    ∃ front,
      (parts (String.ofList (cs ++ tail))).2 = String.ofList (Text.trim (front ++ tail)) := by
  unfold parts Text.trimmed
  rw [String.toList_ofList, splitSlash?_append h]
  cases splitSlash? cs with
  | none => exact ⟨cs, rfl⟩
  | some x => exact ⟨x.2, rfl⟩

theorem parts_append_blanks {blanks : List Char} (h : ∀ c ∈ blanks, Text.isBlank c = true)
    (cs : List Char) : parts (String.ofList (cs ++ blanks)) = parts (String.ofList cs) := by
  unfold parts Text.trimmed
  rw [String.toList_ofList, String.toList_ofList,
    splitSlash?_append (Text.not_mem_of_blanks (by decide) h)]
  cases splitSlash? cs with
  | none => simp only [Option.map_none, Text.trim_append_blanks h]
  | some x => simp only [Option.map_some, Text.trim_append_blanks h]

theorem direct?_eq_of_parts {reference reference' : String}
    (h : parts reference = parts reference') : direct? s reference = direct? s reference' := by
  unfold direct?
  rw [h]

/-- **Blanks at the end of a reference do not matter.** -/
theorem resolveChars?_append_blanks {blanks : List Char} (h : ∀ c ∈ blanks, Text.isBlank c = true)
    (cs : List Char) : resolveChars? s (cs ++ blanks) = resolveChars? s cs := by
  have hbrackets : dropBrackets? (cs ++ blanks) = dropBrackets? cs := by
    unfold dropBrackets?
    rw [Text.dropWhile_append_blanks h]
  rw [Guarded.unguarded_resolveChars?, Guarded.unguarded_resolveChars? s cs,
    direct?_eq_of_parts (parts_append_blanks h cs), hbrackets]

theorem resolveChars?_trimRight (cs : List Char) :
    resolveChars? s (Text.trimRight cs) = resolveChars? s cs := by
  obtain ⟨blanks, hblanks, heq⟩ := Text.exists_blanks_behind cs
  conv_rhs => rw [heq]
  exact (resolveChars?_append_blanks hblanks _).symm

/-! ## Brackets behind a reference

First one pair, then several by induction on their list. -/

/-- No node of the schema has the character in its name. -/
def LackedByNames (s : Schema) (c : Char) : Prop := ∀ n ∈ s.nodes, ∀ name ∈ n.name, c ∉ name.toList

instance (s : Schema) (c : Char) : Decidable (LackedByNames s c) :=
  inferInstanceAs (Decidable (∀ n ∈ s.nodes, ∀ name ∈ n.name, c ∉ name.toList))

theorem direct?_eq_none {c : Char} (hfree : LackedByNames s c)
    (hprimitive : ∀ name ∈ primitives, c ∉ name.toList) {reference : String}
    (h : c ∈ (parts reference).2.toList) : direct? s reference = none := by
  have hname : (parts reference).2 ∉ primitives := fun hmem => hprimitive _ hmem h
  unfold direct?
  dsimp only
  rw [if_neg (by simpa using hname), Option.map_eq_none_iff]
  refine List.find?_eq_none.2 fun id _ hfound => ?_
  simp only [Bool.and_eq_true, beq_iff_eq] at hfound
  have hmem : s.node id ∈ s.nodes := by
    refine Schema.node_mem (Nat.lt_of_not_le fun hle => ?_)
    have hplaceholder : s.node id = .placeholder := by
      show s.nodes.getD id.index _ = _
      rw [Array.getD_eq_getD_getElem?, Array.getElem?_eq_none hle]
      rfl
    rw [hplaceholder] at hfound
    cases hfound.1
  exact hfree _ hmem _ hfound.1 h

theorem direct?_append_brackets (hfree : LackedByNames s ']') (b : Brackets) (cs : List Char) :
    direct? s (String.ofList (cs ++ b.chars)) = none := by
  obtain ⟨front, hname⟩ := exists_parts_append b.slash_not_mem cs
  refine direct?_eq_none hfree (by decide) ?_
  rw [hname, String.toList_ofList]
  exact Text.mem_trim (by decide) (List.mem_append_right _ b.closing_mem)

/-- **Brackets make an array**: with them a reference resolves to the array over what it resolves
to without them. -/
theorem resolveChars?_append_brackets (hfree : LackedByNames s ']') (b : Brackets) {cs : List Char}
    (hline : '\n' ∉ cs) :
    resolveChars? s (cs ++ b.chars) = (resolveChars? s cs).map (·.wrap) := by
  rw [Guarded.unguarded_resolveChars?, direct?_append_brackets hfree, dropBrackets?_append b hline]
  dsimp only
  rw [resolveChars?_trimRight]

theorem resolveChars?_append_texts (hfree : LackedByNames s ']') (suffixes : List Brackets)
    (cs : List Char) (hline : '\n' ∉ cs) (hlines : ∀ b ∈ suffixes.dropLast, '\n' ∉ b.chars) :
    resolveChars? s (cs ++ suffixes.flatMap Brackets.chars) =
      (resolveChars? s cs).map Resolved.wrap^[suffixes.length] := by
  induction suffixes generalizing cs with
  | nil => simp
  | cons b rest ih =>
    rw [List.flatMap_cons, ← List.append_assoc]
    cases rest with
    | nil => simpa using resolveChars?_append_brackets hfree b hline
    | cons b' rest =>
      rw [List.dropLast_cons_cons, List.forall_mem_cons] at hlines
      have hmore : '\n' ∉ cs ++ b.chars := fun hmem =>
        (List.mem_append.1 hmem).elim hline hlines.1
      rw [ih _ hmore hlines.2, resolveChars?_append_brackets hfree b hline, Option.map_map]
      rfl

/-! ## The end of the resolution

`resolveWithin` is the same resolution with the steps counted, so that it can be said that
they are enough. -/

/-- The resolution with a bound on how often brackets are taken off. -/
def resolveWithin (s : Schema) : Nat → List Char → Option (Option Resolved)
  | 0, _ => none
  | fuel + 1, cs =>
    match direct? s (String.ofList cs) with
    | some r => some (some r)
    | none =>
      match dropBrackets? cs with
      | some base => (resolveWithin s fuel base).map fun found => found.map (·.wrap)
      | none => some none

theorem resolveWithin_eq {fuel : Nat} {cs : List Char} (h : cs.count ']' < fuel) :
    resolveWithin s fuel cs = some (resolveChars? s cs) := by
  induction fuel generalizing cs with
  | zero => cases h
  | succ fuel ih =>
    rw [resolveWithin, Guarded.unguarded_resolveChars?]
    cases direct? s (String.ofList cs) with
    | some r => rfl
    | none =>
      cases hbase : dropBrackets? cs with
      | none => rfl
      | some base =>
        dsimp only
        rw [ih (Nat.lt_of_lt_of_le (count_dropBrackets? hbase) (Nat.le_of_lt_succ h))]
        rfl

/-- The outer reference has one node more, the array type over what the inner one stands for. -/
structure ArrayOver (s : Schema) (inner outer : Resolved) : Prop where
  schema : outer.schema = s
  synthetic : outer.synthetic = inner.synthetic ++ [outer.rootNode]
  arrayOf : outer.rootNode.arrayOf = some inner.root
  displayName : outer.rootNode.displayName = inner.rootNode.displayName ++ "[]"
  root : outer.root = ⟨s.size + inner.synthetic.length⟩

/-- So many arrays, each over the one before. -/
inductive ArraysOver (s : Schema) (inner : Resolved) : Nat → Resolved → Prop
  | none : ArraysOver s inner 0 inner
  | one {depth : Nat} {middle outer : Resolved} : ArraysOver s inner depth middle →
      ArrayOver s middle outer → ArraysOver s inner (depth + 1) outer

theorem rootNode_push (r : Resolved) (n : SchemaNode) : (r.push n).rootNode = n := by
  have hnot : ¬ r.size < r.schema.size := Nat.not_lt.2 (Nat.le_add_right _ _)
  show (if r.size < r.schema.size then _
    else (r.synthetic ++ [n]).getD (r.size - r.schema.size) _) = n
  rw [if_neg hnot, Resolved.size, Nat.add_sub_cancel_left, List.getD_eq_getElem?_getD,
    List.getElem?_concat_length]
  rfl

theorem wrap_arrayOver {r : Resolved} (h : r.schema = s) : ArrayOver s r r.wrap := by
  unfold Resolved.wrap
  refine ⟨h, ?_, ?_, ?_, ?_⟩
  · rw [rootNode_push]
    rfl
  · rw [rootNode_push]
  · rw [rootNode_push]
    rfl
  · rw [← h]
    rfl

theorem iterate_wrap_arraysOver {r : Resolved} (h : r.schema = s) (depth : Nat) :
    (Resolved.wrap^[depth] r).schema = s ∧ ArraysOver s r depth (Resolved.wrap^[depth] r) := by
  induction depth with
  | zero => exact ⟨h, .none⟩
  | succ depth ih =>
    rw [Function.iterate_succ_apply']
    exact ⟨ih.1, .one ih.2 (wrap_arrayOver ih.1)⟩

/-- **Brackets behind a reference wrap what it stands for**, whatever blanks are around them and
whatever qualifier it has, if no name has a closing bracket: the reference with them resolves if
and only if it does without them, to one node more, the array type over its root.  So do any
number of brackets.  And every reference resolves or fails after no more steps than it has closing
brackets. -/
theorem resolve?_brackets (s : Schema) :
    (∀ reference : String, resolveWithin s (reference.toList.count ']' + 1) reference.toList =
      some (resolve? s reference)) ∧
    (LackedByNames s ']' → ∀ reference : String, '\n' ∉ reference.toList →
      (∀ b : Brackets,
        (resolve? s (reference ++ b.text) = none ↔ resolve? s reference = none) ∧
        ∀ inner, resolve? s reference = some inner →
          ∃ outer, resolve? s (reference ++ b.text) = some outer ∧ ArrayOver s inner outer) ∧
      ∀ suffixes : List Brackets, (∀ b ∈ suffixes.dropLast, '\n' ∉ b.chars) →
        (resolve? s (reference ++ Brackets.texts suffixes) = none ↔ resolve? s reference = none) ∧
        ∀ inner, resolve? s reference = some inner →
          ∃ outer, resolve? s (reference ++ Brackets.texts suffixes) = some outer ∧
            ArraysOver s inner suffixes.length outer) := by
  refine ⟨fun reference => resolveWithin_eq (Nat.lt_succ_self _),
    fun hlack reference hline => ⟨fun b => ?_, fun suffixes hlines => ?_⟩⟩
  · have hwrap : resolve? s (reference ++ b.text) = (resolve? s reference).map (·.wrap) := by
      unfold resolve? Brackets.text
      rw [String.toList_append, String.toList_ofList, resolveChars?_append_brackets hlack b hline]
    rw [hwrap]
    exact ⟨Option.map_eq_none_iff, fun inner hinner =>
      ⟨inner.wrap, by rw [hinner]; rfl, wrap_arrayOver (resolve?_brings hinner).schema⟩⟩
  · have hwrap : resolve? s (reference ++ Brackets.texts suffixes) =
        (resolve? s reference).map Resolved.wrap^[suffixes.length] := by
      unfold resolve? Brackets.texts
      rw [String.toList_append, String.toList_ofList,
        resolveChars?_append_texts hlack suffixes _ hline hlines]
    rw [hwrap]
    exact ⟨Option.map_eq_none_iff, fun inner hinner => ⟨_, by rw [hinner]; rfl,
      (iterate_wrap_arraysOver (resolve?_brings hinner).schema _).2⟩⟩

/-- Two types of one name, declared in two files. -/
def orders : Schema where
  types := [⟨0⟩, ⟨1⟩]
  nodes := #[
    { SchemaNode.plain "Order" with name := "Order", sourceLocation := "models/order.ts:3" },
    { SchemaNode.plain "Order" with name := "Order", sourceLocation := "legacy/order.ts:1" }]

/-- Two pairs of brackets, the second with blanks and a line feed around it. -/
theorem orders_brackets : LackedByNames orders ']' ∧ ∃ inner outer,
    resolve? orders "legacy/Order" = some inner ∧ inner.root = ⟨1⟩ ∧
    resolve? orders "legacy/Order[] [ ]\n" = some outer ∧ outer.root = ⟨3⟩ ∧
    ArraysOver orders inner 2 outer := by
  have hlack : LackedByNames orders ']' := by decide
  have hfacts : (resolveWithin orders 1 "legacy/Order".toList).map (·.map (·.root)) =
      some (some ⟨1⟩) := by decide +kernel
  have hfacts' : (resolveWithin orders 3 "legacy/Order[] [ ]\n".toList).map (·.map (·.root)) =
      some (some ⟨3⟩) := by decide +kernel
  have hends := (resolve?_brackets orders).1
  rw [show 1 = "legacy/Order".toList.count ']' + 1 by decide, hends] at hfacts
  rw [show 3 = "legacy/Order[] [ ]\n".toList.count ']' + 1 by decide, hends] at hfacts'
  simp only [Option.map_some, Option.some.injEq] at hfacts hfacts'
  obtain ⟨inner, hinner, hroot⟩ := Option.map_eq_some_iff.1 hfacts
  obtain ⟨outer, houter, hroot'⟩ := Option.map_eq_some_iff.1 hfacts'
  refine ⟨hlack, inner, outer, hinner, hroot, houter, hroot', ?_⟩
  have hwraps := ((resolve?_brackets orders).2 hlack "legacy/Order" (by decide)).2
    [⟨[], [], [], List.all_eq_true.1 rfl⟩, ⟨[' '], [' '], ['\n'], List.all_eq_true.1 rfl⟩]
    (by decide)
  obtain ⟨outer', houter', harrays⟩ := hwraps.2 inner hinner
  obtain rfl : outer' = outer := Option.some.inj (houter'.symm.trans houter)
  exact harrays

/-- A line feed in front of the brackets hides what they belong to. -/
example : (resolveWithin orders 1 "\n/Date".toList).map Option.isSome = some true ∧
    (resolveWithin orders 2 "\n/Date[]".toList).map Option.isSome = some false := by decide +kernel

end Reference
end TypedJson
