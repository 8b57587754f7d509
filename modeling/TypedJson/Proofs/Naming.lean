import TypedJson.Proofs.Inhabitation
/-!
# Which texts are names of primitive types

A check of data goes by the text of a type: a node is taken for a string because it is
called `string`.  For orderly types that is right: the text of a type is one of the reserved
names only if the type is the intrinsic or builtin type of that name
(`isNamed_of_display`).  Any other type shows a declared name, or its text has a mark in it
that is no letter: a quote, a digit, a bracket or a blank.

The texts are not compared one by one.  The reserved names consist of letters, and a text
which has some other character in it is none of them; for literals, lists, arrays and
generic types that is seen from the last step by which the text was put together.  Declared
names need the condition on the table, as a declaration may well be called like a primitive
type.
-/
namespace TypedJson

open Universe (reservedNames)

/-! ## Marks

The letters are computed from the names, so nothing here depends on which names they are. -/

/-- The letters of the reserved names. -/
def reservedLetters : List Char := reservedNames.flatMap String.toList

/-- One of the characters is in no reserved name. -/
def HasMark (cs : List Char) : Prop := ∃ c ∈ cs, c ∉ reservedLetters

namespace HasMark

theorem of_mem {cs : List Char} {c : Char} (hmark : c ∉ reservedLetters) (hc : c ∈ cs) :
    HasMark cs := ⟨c, hc, hmark⟩

theorem mono {cs cs' : List Char} (h : HasMark cs) (hsub : cs ⊆ cs') : HasMark cs' := by
  obtain ⟨c, hc, hmark⟩ := h
  exact ⟨c, hsub hc, hmark⟩

theorem append_left {cs : List Char} (h : HasMark cs) (cs' : List Char) : HasMark (cs ++ cs') :=
  h.mono (List.subset_append_left cs cs')

theorem append_right {cs : List Char} (h : HasMark cs) (cs' : List Char) : HasMark (cs' ++ cs) :=
  h.mono (List.subset_append_right cs' cs)

theorem not_reserved {text : String} (h : HasMark text.toList) : text ∉ reservedNames := by
  obtain ⟨c, hc, hmark⟩ := h
  exact fun hmem => hmark (List.mem_flatMap.2 ⟨text, hmem, hc⟩)

end HasMark

/-! ## Literals -/

theorem hasMark_digits (n : Nat) : HasMark (Decimal.digits n) := by
  obtain ⟨c, hc⟩ := List.exists_mem_of_ne_nil _ (Nat.toDigits_ne_nil (n := n) (b := 10))
  have hdigit : c.isDigit = true := Nat.isDigit_of_mem_toDigits (by decide) (by decide) hc
  have hletters : reservedLetters.all (fun c => !c.isDigit) = true := by decide
  refine ⟨c, hc, fun hmem => ?_⟩
  have hnot := List.all_eq_true.1 hletters c hmem
  rw [hdigit] at hnot
  cases hnot

theorem hasMark_positional (d : Decimal) : HasMark d.positional := by
  simp only [Decimal.positional]
  split
  · exact (hasMark_digits _).append_left _
  · split
    · exact .of_mem (c := '.') (by decide) (by simp)
    · exact .of_mem (c := '.') (by decide) (by simp)

theorem hasMark_scientific (d : Decimal) (plus : List Char) : HasMark (d.scientific plus) := by
  have hexponent := hasMark_digits (d.pointPosition - 1).natAbs
  unfold Decimal.scientific
  split
  · rename_i hnil
    exact absurd hnil Nat.toDigits_ne_nil
  · refine hexponent.mono fun c hc => ?_
    simp [hc]
  · exact .of_mem (c := '.') (by decide) (by simp)

theorem hasMark_jsonText (d : Double) : HasMark d.jsonText.toList := by
  unfold Double.jsonText Double.markedText
  rw [String.toList_ofList]
  refine HasMark.append_right ?_ _
  split
  · exact .of_mem (c := '.') (by decide) (by simp)
  · split
    · split
      · exact (hasMark_positional _).append_left _
      · exact hasMark_positional _
    · exact hasMark_scientific _ _

theorem hasMark_number (n : JsonNumber) : HasMark n.text.toList := by
  cases n with
  | float d => exact hasMark_jsonText d
  | int i =>
    rw [JsonNumber.text, Int.toString_eq_repr, Int.repr_eq_if]
    split
    · rw [Nat.toList_repr]
      exact hasMark_digits _
    · exact .of_mem (c := '-') (by decide) (by simp)

theorem Literal.text_not_reserved (value : Literal) : value.text ∉ reservedNames := by
  cases value with
  | bool b => cases b <;> decide
  | num d plain =>
    refine HasMark.not_reserved ?_
    rw [Literal.text, Json.compact, String.toList_ofList]
    exact hasMark_number _
  | str text =>
    refine HasMark.not_reserved (.of_mem (c := '"') (by decide) ?_)
    rw [Literal.text, Json.compact, String.toList_ofList]
    exact List.mem_cons_self

/-! ## Lists of texts -/

/-- Two or more texts in a row have a mark in them if what stands between them has. -/
theorem hasMark_intercalate {separator : String} (h : HasMark separator.toList) :
    ∀ {texts : List String}, 2 ≤ texts.length → HasMark (separator.intercalate texts).toList
  | [], hlen => by simp at hlen
  | [_], hlen => by simp at hlen
  | a :: b :: rest, _ => by
    rw [String.intercalate_cons_cons, String.toList_append, String.toList_append]
    exact (h.append_right _).append_left _

namespace Universe

variable {u : Universe} {s : Interner}

/-- The type is the one that the reserved name stands for. -/
def IsNamed (s : Interner) (t : TypeId) (name : String) : Prop :=
  (∃ i, s.intrinsic? t = some i ∧ i.name = name) ∨
  (s.data t = .form (.reference ⟨.builtin .date, []⟩) ∧ name = "Date") ∨
  (s.data t = .form (.reference ⟨.builtin .pattern, []⟩) ∧ name = "RegExp")

theorem IsNamed.union? {t : TypeId} {name : String} (h : IsNamed s t name) : s.union? t = none := by
  unfold Interner.union?
  rcases h with ⟨i, hi, -⟩ | ⟨hdata, -⟩ | ⟨hdata, -⟩
  · rw [TypeData.intrinsic?_eq_some_iff.1 hi]
    rfl
  · rw [hdata]
    rfl
  · rw [hdata]
    rfl

theorem args_of_genericText {displayOf : TypeId → Session String} {inst : Instance} {text : String}
    {s' : Interner} (h : u.genericText displayOf inst s = some (text, s'))
    (hreserved : text ∈ reservedNames) : inst.args = [] ∧ text = u.symbolName inst.symbol := by
  unfold genericText at h
  by_cases hargs : inst.args.isEmpty = true
  · rw [if_pos hargs] at h
    cases h
    exact ⟨List.isEmpty_iff.1 hargs, rfl⟩
  · rw [if_neg hargs] at h
    obtain ⟨texts, s₁, -, hpure⟩ := bind_eq_some.1 h
    cases hpure
    have hmark : HasMark (u.symbolName inst.symbol ++ "<" ++ ", ".intercalate texts ++ ">").toList :=
      .of_mem (c := '<') (by decide) (by simp)
    exact absurd hreserved hmark.not_reserved

theorem Orderly.declared (h : u.Orderly s) {id : DeclarationId} {d : Declaration}
    (hd : u.declaration? id = some d) : u.symbolName (.declared id) ∉ reservedNames := by
  rw [symbolName, hd]
  exact h.names (id, d) (mem_declarations_iff.2 hd)

theorem Orderly.not_genericText (h : u.Orderly s) {displayOf : TypeId → Session String}
    {inst : Instance} (halias : u.IsAlias inst.symbol) {text : String} {s' : Interner}
    (hrun : u.genericText displayOf inst s = some (text, s')) : text ∉ reservedNames := by
  obtain ⟨id, d, body, hsymbol, hd, -⟩ := halias
  intro hreserved
  obtain ⟨-, rfl⟩ := args_of_genericText hrun hreserved
  rw [hsymbol] at hreserved
  exact h.declared hd hreserved

/-- A union of one branch is a union of what is in the branch. -/
theorem Orderly.union_of_single (h : u.Orderly s) (hs : u.Sound s) {t b : TypeId} (ht : s.Has t)
    (hunion : s.union? t = some [b]) : (s.union? b).isSome = true := by
  by_contra hb
  have hb : s.union? b = none := by simpa using hb
  have hlen := h.unions t (by rw [hunion]; rfl)
  have hall : ∀ r ∈ u.leaves s t, r = b := by
    intro r hr
    obtain ⟨hleads, hnone⟩ := (mem_leaves_iff hs ht r).1 hr
    rcases Relation.ReflTransGen.cases_head hleads with rfl | ⟨x, hx, hxr⟩
    · rw [hunion] at hnone
      cases hnone
    · rw [hunion] at hx
      obtain rfl := List.mem_singleton.1 hx
      rcases Relation.ReflTransGen.cases_head hxr with rfl | ⟨y, hy, -⟩
      · rfl
      · rw [hb] at hy
        cases hy
  have hnodup := nodup_leaves hs ht
  match u.leaves s t, hlen, hall, hnodup with
  | x :: y :: rest, _, hall, hnodup =>
    have hxy : x = y := (hall x (by simp)).trans (hall y (by simp)).symm
    rw [hxy] at hnodup
    simp at hnodup

theorem ofName?_of_reserved : ∀ name ∈ reservedNames,
    ¬ (Intrinsic.ofName? name = none ∧ Builtin.ofName? name = none) := by decide

theorem Orderly.not_unresolved (h : u.Orderly s) {name : String}
    (hlawful : u.Lawful (.form (.unresolved name))) : name ∉ reservedNames := by
  rcases hlawful with hnone | ⟨id, d, hd, rfl⟩
  · exact fun hreserved => ofName?_of_reserved name hreserved hnone
  · exact h.names _ (mem_declarations_iff.2 hd)

theorem Orderly.not_param (h : u.Orderly s) {symbol : Symbol}
    (hlawful : u.Lawful (.form (.param symbol))) : u.symbolName symbol ∉ reservedNames := by
  obtain ⟨id, position, d, rfl, hd, hlt⟩ := hlawful
  rw [symbolName, hd]
  simp only [Option.bind_some, List.getElem?_eq_getElem hlt, Option.getD_some]
  exact h.params _ (mem_declarations_iff.2 hd) _ (List.getElem_mem hlt)

theorem Orderly.not_objectText (h : u.Orderly s) {displayOf : TypeId → Session String}
    {origin : Instance} {shape : Shape} (hlawful : u.Lawful (.object (some origin) shape))
    {text : String} {s' : Interner} (hrun : u.genericText displayOf origin s = some (text, s')) :
    text ∉ reservedNames := by
  cases shape with
  | record key value =>
    obtain rfl : origin = ⟨.builtin .record, [key, value]⟩ := hlawful
    intro hreserved
    cases (args_of_genericText hrun hreserved).1
  | literal => exact h.not_genericText hlawful hrun
  | intersection => exact h.not_genericText hlawful hrun

/-- The text of a union has a bar in it, or it is that of another union. -/
theorem Orderly.not_unionText (h : u.Orderly s) (hs : u.Sound s) {t : TypeId} (ht : s.Has t)
    {branches : List TypeId} (hunion : s.union? t = some branches)
    {displayOf : TypeId → Session String}
    (hof : ∀ b ∈ branches, ∀ text s', displayOf b s = some (text, s') → text ∈ reservedNames →
      IsNamed s b text)
    {texts : List String} {s' : Interner} (hall : branches.mapM displayOf s = some (texts, s')) :
    " | ".intercalate texts ∉ reservedNames := by
  have hlen := length_of_mapM hall
  match branches with
  | [] =>
    cases hall
    decide
  | [b] =>
    rw [List.mapM_cons, List.mapM_nil] at hall
    obtain ⟨text, s₁, hrun, hall⟩ := bind_eq_some.1 hall
    cases hall
    rw [String.intercalate_singleton]
    intro hreserved
    have hnamed := hof b List.mem_cons_self text _ hrun hreserved
    have hsome := h.union_of_single hs ht hunion
    rw [hnamed.union?] at hsome
    cases hsome
  | b :: b' :: rest =>
    have hbar : HasMark " | ".toList := .of_mem (c := '|') (by decide) (by simp)
    exact (hasMark_intercalate hbar (by rw [hlen]; simp)).not_reserved

/-- **Only the intrinsic and builtin types have reserved names for texts.** -/
theorem isNamed_of_display (horderly : u.Orderly s) (hs : u.Sound s) :
    ∀ (fuel : Nat) {t : TypeId} {text : String} {s' : Interner}, s.Has t →
      u.display fuel t s = some (text, s') → text ∈ reservedNames → IsNamed s t text
  | 0, _, _, _, _, h, _ => by cases h
  | fuel + 1, t, text, s', ht, h, hreserved => by
    have hlawful := hs.lawful t
    unfold display at h
    rw [Session.query_bind] at h
    generalize hdata : s.data t = data at h hlawful
    split at h
    · rename_i i
      cases h
      exact .inl ⟨i, TypeData.intrinsic?_eq_some_iff.2 hdata, rfl⟩
    · rename_i value
      cases h
      exact absurd hreserved value.text_not_reserved
    · cases h
      exact absurd hreserved (horderly.not_unresolved hlawful)
    · cases h
      exact absurd hreserved (horderly.not_param hlawful)
    · -- the text of an array ends in brackets, with or without others around its element
      obtain ⟨inner, s₂, -, h⟩ := bind_eq_some.1 h
      obtain ⟨element, s₃, -, h⟩ := bind_eq_some.1 h
      have hmark : HasMark text.toList := by
        split at h
        · cases h
          exact .of_mem (c := ']') (by decide) (by simp)
        · cases h
          exact .of_mem (c := ']') (by decide) (by simp)
      exact absurd hreserved hmark.not_reserved
    · rename_i inst
      obtain ⟨-, rfl⟩ := args_of_genericText h hreserved
      rcases hlawful with ⟨b, rfl | rfl, rfl⟩ | ⟨id, d, hsymbol, hd, -⟩
      · exact .inr (.inl ⟨hdata, rfl⟩)
      · exact .inr (.inr ⟨hdata, rfl⟩)
      · rw [hsymbol] at hreserved
        exact absurd hreserved (horderly.declared hd)
    · rename_i branches
      obtain ⟨texts, s₂, hall, h⟩ := bind_eq_some.1 h
      cases h
      have hunion : s.union? t = some branches := TypeData.union?_eq_some_iff.2 (.inl hdata)
      refine absurd hreserved (horderly.not_unionText hs ht hunion (fun b hb text s' hrun => ?_) hall)
      exact isNamed_of_display horderly hs fuel (union?_has hs hunion b hb) hrun
    · exact absurd hreserved (horderly.not_genericText hlawful h)
    · exact absurd hreserved (horderly.not_objectText hlawful h)
    · rename_i parts
      obtain ⟨texts, s₂, hall, h⟩ := bind_eq_some.1 h
      cases h
      have hlen := length_of_mapM hall
      have hparts := horderly.intersections t none parts hdata
      have hamp : HasMark " & ".toList := .of_mem (c := '&') (by decide) (by simp)
      have hmark : HasMark (" & ".intercalate texts).toList :=
        hasMark_intercalate hamp (by rw [hlen]; exact hparts)
      exact absurd hreserved hmark.not_reserved
    · obtain ⟨ms, s₂, -, h⟩ := bind_eq_some.1 h
      obtain ⟨fields, s₃, -, h⟩ := bind_eq_some.1 h
      have hmark : HasMark text.toList := by
        split at h
        · cases h
          exact .of_mem (c := '\x7b') (by decide) (by simp)
        · cases h
          exact .of_mem (c := '\x7b') (by decide) (by simp)
      exact absurd hreserved hmark.not_reserved
    · cases h
      exact absurd hreserved (by decide)

theorem IsNamed.display {fuel : Nat} {t : TypeId} {text name : String} {s' : Interner}
    (h : IsNamed s t name) (hrun : u.display fuel t s = some (text, s')) : text = name := by
  cases fuel with
  | zero => cases hrun
  | succ fuel =>
    unfold Universe.display at hrun
    rw [Session.query_bind] at hrun
    rcases h with ⟨i, hi, rfl⟩ | ⟨hdata, rfl⟩ | ⟨hdata, rfl⟩
    · rw [TypeData.intrinsic?_eq_some_iff.1 hi] at hrun
      cases hrun
      rfl
    · rw [hdata] at hrun
      cases hrun
      rfl
    · rw [hdata] at hrun
      cases hrun
      rfl

end Universe
end TypedJson
