import TypedJson.Json.Reader
import TypedJson.Proofs.Shortest
/-!
# Reading back the text of a number

`scanNumber` takes a number apart into a sign, digits, a fraction and an exponent, and finds the
end of each part by the character behind it.  So a text is taken apart as it was put together,
whatever follows that no number goes on with (`scanNumber_whole`, `scanNumber_point`,
`scanNumber_scientific`), and every notation of the decimal of a double stands for the same
rational.  The number read is the number written (`scanNumber_text`).

The text of a double is in one of four notations, chosen by the place of the point.  Each is
handled in two steps that do not know of each other: how the scanner takes it apart, and
that the parts stand for the decimal that was written.
-/
namespace TypedJson

open Decimal

/-! ## Runs of digits

Everything is about `takeWhile` on digits: it stops exactly in front of what is no digit, so
a run is found whole if what follows it ends it. -/

/-- The digits of a whole number: there is one, and none follows a leading zero. -/
structure IsWhole (ds : List Char) : Prop where
  nonempty : ds ≠ []
  digits : ∀ c ∈ ds, c.isDigit = true
  leading : ∀ c cs, ds ≠ '0' :: c :: cs

theorem decimalValue_append (cs ds : List Char) :
    decimalValue (cs ++ ds) = decimalValue cs * tenTo ds.length + decimalValue ds := by
  change Nat.ofDigitChars 10 (cs ++ ds) 0 =
    Nat.ofDigitChars 10 cs 0 * 10 ^ ds.length + Nat.ofDigitChars 10 ds 0
  rw [Nat.ofDigitChars_append, Nat.ofDigitChars_eq_ofDigitChars_zero, Nat.mul_comm]

theorem decimalValue_zeros (n : Nat) : decimalValue (List.replicate n '0') = 0 := by
  change Nat.ofDigitChars 10 (List.replicate n '0') 0 = 0
  rw [Nat.ofDigitChars_replicate_zero, Nat.mul_zero]

theorem decimalValue_digits (n : Nat) : decimalValue (digits n) = n :=
  Nat.ofDigitChars_ten_toDigits

theorem isDigit_of_mem_digits {n : Nat} {c : Char} (h : c ∈ digits n) : c.isDigit = true :=
  Nat.isDigit_of_mem_toDigits (by decide) (by decide) h

theorem decimalValue_lt {ds : List Char} (h : ∀ c ∈ ds, c.isDigit = true) :
    decimalValue ds < tenTo ds.length := by
  induction ds with
  | nil => exact Nat.one_pos
  | cons c cs ih =>
    have hc : c.toNat - '0'.toNat < 10 := by
      have hdigit := h c List.mem_cons_self
      simp only [Char.isDigit, Bool.and_eq_true, decide_eq_true_eq] at hdigit
      have hle : c.toNat ≤ 57 := hdigit.2
      have hzero : '0'.toNat = 48 := rfl
      omega
    have hrest := ih fun x hx => h x (List.mem_cons_of_mem c hx)
    have hhead : decimalValue [c] = c.toNat - '0'.toNat := by
      show 10 * 0 + (c.toNat - '0'.toNat) = c.toNat - '0'.toNat
      omega
    have hsplit := decimalValue_append [c] cs
    rw [hhead, List.singleton_append] at hsplit
    rw [hsplit]
    have hpow : tenTo (c :: cs).length = 10 * tenTo cs.length := Nat.pow_succ'
    rw [hpow]
    nlinarith

theorem isWhole_digits (n : Nat) : IsWhole (digits n) := by
  refine ⟨Nat.toDigits_ne_nil, fun c => isDigit_of_mem_digits, ?_⟩
  -- a leading zero of many digits would make the number smaller than its length says
  intro c cs heq
  have hcount : digitCount n = cs.length + 2 := by
    rw [digitCount, heq]
    rfl
  have hvalue : n = decimalValue (c :: cs) := by
    have h := decimalValue_digits n
    rw [heq] at h
    exact h.symm
  have hdigits : ∀ x ∈ c :: cs, x.isDigit = true := fun x hx =>
    isDigit_of_mem_digits (heq ▸ List.mem_cons_of_mem '0' hx)
  have hlt := decimalValue_lt hdigits
  have hzero : n ≠ 0 := by
    rintro rfl
    cases heq
  have hle := tenTo_le_of_digitCount hzero
  rw [hcount] at hle
  rw [← hvalue] at hlt
  exact absurd hlt (Nat.not_lt.2 hle)

theorem IsWhole.take {ds : List Char} (h : IsWhole ds) {n : Nat} (hn : 0 < n) :
    IsWhole (ds.take n) := by
  refine ⟨?_, fun c hc => h.digits c (List.mem_of_mem_take hc), ?_⟩
  · rw [Ne, List.take_eq_nil_iff, not_or]
    exact ⟨by omega, h.nonempty⟩
  · intro c cs heq
    have hsplit := List.take_append_drop n ds
    rw [heq] at hsplit
    exact h.leading _ _ hsplit.symm

theorem IsWhole.append {ds : List Char} (h : IsWhole ds) (hne : ds ≠ ['0']) {more : List Char}
    (hmore : ∀ c ∈ more, c.isDigit = true) : IsWhole (ds ++ more) := by
  refine ⟨List.append_ne_nil_of_left_ne_nil h.nonempty more, ?_, ?_⟩
  · intro c hc
    rcases List.mem_append.1 hc with hc | hc
    · exact h.digits c hc
    · exact hmore c hc
  · intro c cs heq
    match ds, h, hne with
    | [], h, _ => exact h.nonempty rfl
    | [d], _, hne =>
      rw [List.singleton_append, List.cons.injEq] at heq
      exact hne (by rw [heq.1])
    | d :: e :: ds, h, _ =>
      rw [List.cons_append, List.cons_append, List.cons.injEq, List.cons.injEq] at heq
      exact h.leading e ds (by rw [heq.1])

namespace Source

/-- No number goes on with the front of the source. -/
def EndsNumber (s : Source) : Prop :=
  isDigit (s.headD none) = false ∧ s.head? ≠ some (some '.') ∧ isExponentMark s.head? = false

theorem takeWhile_digits {ds : List Char} (hds : ∀ c ∈ ds, c.isDigit = true) {rest : Source}
    (hrest : isDigit (rest.headD none) = false) :
    (ds.map some ++ rest).takeWhile isDigit = ds.map some ∧
      (ds.map some ++ rest).dropWhile isDigit = rest := by
  induction ds with
  | nil =>
    cases rest with
    | nil => exact ⟨rfl, rfl⟩
    | cons c rest =>
      have hc : isDigit c = false := hrest
      simp [hc]
  | cons c cs ih =>
    have hc : isDigit (some c) = true := hds c List.mem_cons_self
    obtain ⟨h₁, h₂⟩ := ih fun x hx => hds x (List.mem_cons_of_mem c hx)
    simp only [List.map_cons, List.cons_append, List.takeWhile_cons, List.dropWhile_cons, hc,
      if_true, h₁, h₂, and_self]

theorem digitsOf_append {ds : List Char} (hds : ∀ c ∈ ds, c.isDigit = true) {rest : Source}
    (hrest : isDigit (rest.headD none) = false) : digitsOf (ds.map some ++ rest) = ds := by
  rw [digitsOf, (takeWhile_digits hds hrest).1, List.filterMap_map]
  exact List.filterMap_some

/-! ## The parts of a number

A leading zero is a number by itself, which is why the digits of a whole part are required
to have none (`IsWhole`). -/

def sign (negative : Bool) : List Char := if negative then ['-'] else []

theorem head_digits {ds : List Char} (h : IsWhole ds) : ds.head? ≠ some '-' := by
  cases ds with
  | nil => exact absurd rfl h.nonempty
  | cons c cs =>
    rw [List.head?_cons]
    rintro hc
    cases hc
    exact absurd (h.digits '-' List.mem_cons_self) (by decide)

theorem scanNumber_eq (negative : Bool) {whole : List Char} (hwhole : IsWhole whole)
    {rest : Source} (hrest : isDigit (rest.headD none) = false) :
    scanNumber ((sign negative ++ whole).map some ++ rest) = scanFraction negative whole rest := by
  have hhead : (((sign negative ++ whole).map some ++ rest).head? == some (some '-')) = negative := by
    cases negative with
    | true => rfl
    | false =>
      have hne := head_digits hwhole
      cases whole with
      | nil => exact absurd rfl hwhole.nonempty
      | cons c cs => simpa [sign] using hne
  have hdrop : (if negative = true then ((sign negative ++ whole).map some ++ rest).drop 1
      else (sign negative ++ whole).map some ++ rest) = whole.map some ++ rest := by
    cases negative <;> rfl
  unfold scanNumber
  dsimp only
  rw [hhead, hdrop, digitsOf_append hwhole.digits hrest, (takeWhile_digits hwhole.digits hrest).2]
  split
  · exact absurd rfl hwhole.nonempty
  · exact absurd rfl (hwhole.leading _ _)
  · rfl

theorem scanNumber_whole (negative : Bool) {whole : List Char} (hwhole : IsWhole whole)
    {rest : Source} (hrest : EndsNumber rest) :
    scanNumber ((sign negative ++ whole).map some ++ rest) =
      ⟨numberOf negative whole [] none, some rest⟩ := by
  rw [scanNumber_eq negative hwhole hrest.1]
  unfold scanFraction
  split
  · exact absurd rfl hrest.2.1
  · rw [if_neg (by rw [hrest.2.2]; decide)]

theorem scanFraction_point (negative : Bool) (whole : List Char) {fraction : List Char}
    (hne : fraction ≠ []) (hdigits : ∀ c ∈ fraction, c.isDigit = true) {rest : Source}
    (hrest : isDigit (rest.headD none) = false) :
    scanFraction negative whole ((('.' :: fraction)).map some ++ rest) =
      if isExponentMark rest.head? then scanExponent negative whole fraction (rest.drop 1)
      else ⟨numberOf negative whole fraction none, some rest⟩ := by
  have htake := digitsOf_append hdigits hrest
  have hdrop := (takeWhile_digits hdigits hrest).2
  unfold scanFraction
  simp only [List.map_cons, List.cons_append, htake, hdrop]

theorem scanNumber_point (negative : Bool) {whole fraction : List Char} (hwhole : IsWhole whole)
    (hne : fraction ≠ []) (hdigits : ∀ c ∈ fraction, c.isDigit = true) {rest : Source}
    (hrest : EndsNumber rest) :
    scanNumber ((sign negative ++ (whole ++ '.' :: fraction)).map some ++ rest) =
      ⟨numberOf negative whole fraction none, some rest⟩ := by
  rw [← List.append_assoc, List.map_append, List.append_assoc,
    scanNumber_eq negative hwhole rfl, scanFraction_point negative whole hne hdigits hrest.1,
    if_neg (by rw [hrest.2.2]; decide)]

/-- The exponent as it is written, behind its mark. -/
def exponentText (e : Int) : List Char := (if e < 0 then ['-'] else ['+']) ++ digits e.natAbs

theorem scanExponent_digits (negative : Bool) (whole fraction : List Char) {s rest : Source}
    (minus : Bool) {ds : List Char} (hhead : (s.head? == some (some '-')) = minus)
    (hskip : (if (minus || s.head? == some (some '+')) = true then s.drop 1 else s) =
      ds.map some ++ rest)
    (hne : ds ≠ []) (hdigits : ∀ c ∈ ds, c.isDigit = true) (hrest : EndsNumber rest) :
    scanExponent negative whole fraction s =
      ⟨numberOf negative whole fraction
        (some (if minus then -(decimalValue ds : Int) else decimalValue ds)), some rest⟩ := by
  unfold scanExponent
  dsimp only
  rw [hhead, hskip, digitsOf_append hdigits hrest.1, (takeWhile_digits hdigits hrest.1).2]
  split
  · exact absurd rfl hne
  · rfl

theorem scanExponent_eq (negative : Bool) (whole fraction : List Char) (e : Int) {rest : Source}
    (hrest : EndsNumber rest) :
    scanExponent negative whole fraction ((exponentText e).map some ++ rest) =
      ⟨numberOf negative whole fraction (some e), some rest⟩ := by
  have hne : digits e.natAbs ≠ [] := Nat.toDigits_ne_nil
  have hdigits : ∀ c ∈ digits e.natAbs, c.isDigit = true := fun c => isDigit_of_mem_digits
  unfold exponentText
  by_cases he : e < 0
  · rw [if_pos he]
    have hscan : scanExponent negative whole fraction
        ((['-'] ++ digits e.natAbs).map some ++ rest) =
          ⟨numberOf negative whole fraction (some (-(decimalValue (digits e.natAbs) : Int))),
            some rest⟩ :=
      scanExponent_digits negative whole fraction true rfl rfl hne hdigits hrest
    rw [hscan, decimalValue_digits, show -(e.natAbs : Int) = e by omega]
  · rw [if_neg he]
    have hscan : scanExponent negative whole fraction
        ((['+'] ++ digits e.natAbs).map some ++ rest) =
          ⟨numberOf negative whole fraction (some (decimalValue (digits e.natAbs) : Int)),
            some rest⟩ :=
      scanExponent_digits negative whole fraction false rfl rfl hne hdigits hrest
    rw [hscan, decimalValue_digits, show (e.natAbs : Int) = e by omega]

theorem scanNumber_scientific (negative : Bool) {c : Char} (hc : c.isDigit = true)
    {fraction : List Char} (hdigits : ∀ c ∈ fraction, c.isDigit = true) (e : Int) {rest : Source}
    (hrest : EndsNumber rest) :
    scanNumber ((sign negative ++ (c :: (if fraction = [] then [] else '.' :: fraction) ++
        'e' :: exponentText e)).map some ++ rest) =
      ⟨numberOf negative [c] fraction (some e), some rest⟩ := by
  have hwhole : IsWhole [c] :=
    ⟨List.cons_ne_nil c [], fun x hx => List.mem_singleton.1 hx ▸ hc, fun _ _ h => by cases h⟩
  have hexponent := scanExponent_eq negative [c] fraction e hrest
  by_cases hempty : fraction = []
  · subst hempty
    have hmark : isDigit ((some 'e' :: ((exponentText e).map some ++ rest)).headD none) = false := rfl
    have hshape := scanNumber_eq negative hwhole hmark
    rw [if_pos rfl]
    simp only [List.map_append, List.map_cons, List.append_assoc, List.cons_append,
      List.map_nil, List.nil_append] at hshape ⊢
    rw [hshape, ← hexponent]
    rfl
  · have hpoint : isDigit ((('.' :: fraction).map some ++
        (some 'e' :: ((exponentText e).map some ++ rest))).headD none) = false := rfl
    have hshape := scanNumber_eq negative hwhole hpoint
    rw [scanFraction_point negative [c] hempty hdigits rfl, if_pos (by rfl)] at hshape
    rw [if_neg hempty]
    simp only [List.map_append, List.map_cons, List.append_assoc, List.cons_append,
      List.map_nil, List.nil_append] at hshape ⊢
    rw [hshape, ← hexponent]
    rfl

end Source

/-! ## The notations of a decimal

One lemma for each place of the point: behind all digits, among them, in front of them, and
behind the first of them. -/

namespace Decimal

theorem cast_decimalValue_zeros (ds : List Char) (n : Nat) :
    ((decimalValue (ds ++ List.replicate n '0') : Nat) : ℚ) = decimalValue ds * 10 ^ (n : Int) := by
  rw [decimalValue_append, decimalValue_zeros, List.length_replicate, Nat.add_zero, Nat.cast_mul,
    Double.cast_tenTo]

theorem digitCount_eq (n : Nat) : (digits n).length = digitCount n := rfl

/-- Digits, the zeros that the exponent stands for, and a zero behind the point. -/
theorem value_whole {d : Decimal} (h : 0 ≤ d.exponent) :
    (decimalValue (digits d.coefficient ++ List.replicate d.exponent.toNat '0' ++ ['0']) : ℚ) *
      10 ^ (0 - (1 : Int)) = d.value := by
  have hzeros := cast_decimalValue_zeros (digits d.coefficient) d.exponent.toNat
  have hlast := cast_decimalValue_zeros
    (digits d.coefficient ++ List.replicate d.exponent.toNat '0') 1
  rw [decimalValue_digits, Int.toNat_of_nonneg h] at hzeros
  rw [hzeros] at hlast
  show (decimalValue (_ ++ List.replicate 1 '0') : ℚ) * _ = d.coefficient * 10 ^ d.exponent
  rw [hlast]
  norm_num
  ring

theorem value_inside {d : Decimal} (h : d.exponent < 0) (hpoint : 0 < d.pointPosition) :
    (decimalValue ((digits d.coefficient).take d.pointPosition.toNat ++
        (digits d.coefficient).drop d.pointPosition.toNat) : ℚ) *
      10 ^ (0 - (((digits d.coefficient).drop d.pointPosition.toNat).length : Int)) = d.value := by
  have hlength : 0 - (((digits d.coefficient).drop d.pointPosition.toNat).length : Int) =
      d.exponent := by
    rw [List.length_drop, digitCount_eq]
    unfold pointPosition at *
    omega
  rw [List.take_append_drop, decimalValue_digits, hlength]
  rfl

theorem value_below {d : Decimal} (hpoint : d.pointPosition ≤ 0) :
    (decimalValue (['0'] ++
        (List.replicate (-d.pointPosition).toNat '0' ++ digits d.coefficient)) : ℚ) *
      10 ^ (0 - ((List.replicate (-d.pointPosition).toNat '0' ++
        digits d.coefficient).length : Int)) = d.value := by
  have hlength : 0 - ((List.replicate (-d.pointPosition).toNat '0' ++
      digits d.coefficient).length : Int) = d.exponent := by
    rw [List.length_append, List.length_replicate, digitCount_eq]
    unfold pointPosition at *
    omega
  have hdigits : decimalValue (['0'] ++
      (List.replicate (-d.pointPosition).toNat '0' ++ digits d.coefficient)) = d.coefficient := by
    rw [← List.append_assoc, decimalValue_append, decimalValue_digits]
    show decimalValue (List.replicate ((-d.pointPosition).toNat + 1) '0') * _ + _ = _
    rw [decimalValue_zeros, Nat.zero_mul, Nat.zero_add]
  rw [hdigits, hlength]
  rfl

theorem value_scientific {d : Decimal} {c : Char} {cs : List Char}
    (h : digits d.coefficient = c :: cs) :
    (decimalValue ([c] ++ cs) : ℚ) * 10 ^ (d.pointPosition - 1 - (cs.length : Int)) = d.value := by
  have hlength : d.pointPosition - 1 - (cs.length : Int) = d.exponent := by
    have hcount := digitCount_eq d.coefficient
    rw [h, List.length_cons] at hcount
    unfold pointPosition
    omega
  rw [List.singleton_append, ← h, decimalValue_digits, hlength]
  rfl

end Decimal

namespace Source

/-! ## The number read

An integer is read as one only if it is written without fraction and exponent; the text of a
double always has one or the other. -/

theorem numberOf_float {d : Double} {whole fraction : List Char} {exponent : Option Int}
    (hshape : fraction ≠ [] ∨ exponent ≠ none)
    (hread : Double.ofDecimal? d.negative (decimalValue (whole ++ fraction))
      (exponent.getD 0 - (fraction.length : Int)) = some d) :
    numberOf d.negative whole fraction exponent = .ok (.float d) := by
  have hfloat : (fraction.isEmpty && exponent.isNone) = false := by
    rcases hshape with hf | he
    · cases fraction with
      | nil => exact absurd rfl hf
      | cons c cs => rfl
    · cases exponent with
      | none => exact absurd rfl he
      | some e => exact Bool.and_false _
  unfold numberOf
  dsimp only
  rw [hfloat, hread]
  rfl

theorem scanNumber_zero {d : Double} (hm : d.mantissa = 0) {rest : Source}
    (hrest : EndsNumber rest) :
    scanNumber ((sign d.negative ++ ['0', '.', '0']).map some ++ rest) =
      ⟨.ok (.float d), some rest⟩ := by
  have hleast : d.exponent = -1074 := by
    have hnormal := d.canonical.2.2.2
    rw [hm] at hnormal
    exact hnormal.resolve_left (by decide)
  have hread : Double.ofDecimal? d.negative 0 (-1) = some d := by
    unfold Double.ofDecimal?
    dsimp only
    rw [if_pos (.inl rfl), ← hm, ← hleast]
    exact d.ofParts?_self
  have hzero : ∀ c ∈ ['0'], c.isDigit = true := fun c hc => isDigit_of_mem_digits (n := 0) hc
  have hscan := scanNumber_point d.negative (isWhole_digits 0) (List.cons_ne_nil _ _) hzero hrest
  rw [numberOf_float (.inl (List.cons_ne_nil _ _)) hread] at hscan
  exact hscan

theorem scanNumber_positional {d : Double} (hm : d.mantissa ≠ 0) {whole fraction : List Char}
    (hwhole : IsWhole whole) (hne : fraction ≠ []) (hdigits : ∀ c ∈ fraction, c.isDigit = true)
    (hvalue : (decimalValue (whole ++ fraction) : ℚ) * 10 ^ (0 - (fraction.length : Int)) =
      d.shortest.value) {rest : Source} (hrest : EndsNumber rest) :
    scanNumber ((sign d.negative ++ (whole ++ '.' :: fraction)).map some ++ rest) =
      ⟨.ok (.float d), some rest⟩ := by
  have hread := Double.ofDecimal?_of_roundsTo hm (hvalue ▸ Double.shortest_roundsTo hm)
  rw [scanNumber_point d.negative hwhole hne hdigits hrest, numberOf_float (.inl hne) hread]

theorem scanNumber_exponent {d : Double} (hm : d.mantissa ≠ 0) {rest : Source}
    (hrest : EndsNumber rest) :
    scanNumber ((sign d.negative ++ d.shortest.scientific ['+']).map some ++ rest) =
      ⟨.ok (.float d), some rest⟩ := by
  have hdigits : ∀ c ∈ digits d.shortest.coefficient, c.isDigit = true :=
    fun c => isDigit_of_mem_digits
  unfold scientific
  dsimp only
  cases hds : digits d.shortest.coefficient with
  | nil => exact absurd hds Nat.toDigits_ne_nil
  | cons c cs =>
    rw [hds] at hdigits
    have hscan := scanNumber_scientific d.negative (hdigits c List.mem_cons_self)
      (fun x hx => hdigits x (List.mem_cons_of_mem c hx)) (d.shortest.pointPosition - 1) hrest
    have hread := Double.ofDecimal?_of_roundsTo hm
      (value_scientific hds ▸ Double.shortest_roundsTo hm)
    rw [numberOf_float (.inr (Option.some_ne_none _)) hread] at hscan
    rw [← hscan]
    cases cs <;> rfl

theorem digits_ne_zero {d : Double} (hm : d.mantissa ≠ 0) :
    digits d.shortest.coefficient ≠ ['0'] := by
  intro heq
  have hzero : d.shortest.coefficient = 0 := by
    have h := decimalValue_digits d.shortest.coefficient
    rw [heq] at h
    exact h.symm.trans (decimalValue_zeros 1)
  have hpos := (Double.shortest_roundsTo hm).pos hm
  unfold value at hpos
  rw [hzero, Nat.cast_zero, zero_mul] at hpos
  exact absurd hpos (not_le.2 (by positivity))

/-- **Reading the text of a double gives the double**, whatever follows that ends a number. -/
theorem scanNumber_jsonText (d : Double) {rest : Source} (hrest : EndsNumber rest) :
    scanNumber (d.jsonText.toList.map some ++ rest) = ⟨.ok (.float d), some rest⟩ := by
  unfold Double.jsonText Double.markedText
  dsimp only
  rw [String.toList_ofList]
  change scanNumber ((sign d.negative ++ _).map some ++ rest) = _
  by_cases hm : d.mantissa = 0
  · rw [if_pos hm]
    exact scanNumber_zero hm hrest
  · rw [if_neg hm]
    have hdigits : ∀ c ∈ digits d.shortest.coefficient, c.isDigit = true :=
      fun c => isDigit_of_mem_digits
    have hzeros : ∀ n, ∀ c ∈ List.replicate n '0', c.isDigit = true := by
      intro n c hc
      rw [List.eq_of_mem_replicate hc]
      decide
    have hwhole := isWhole_digits d.shortest.coefficient
    by_cases hrange : -5 < d.shortest.pointPosition ∧ d.shortest.pointPosition ≤ 16
    · rw [if_pos hrange]
      unfold positional
      dsimp only
      by_cases hexponent : 0 ≤ d.shortest.exponent
      · rw [if_pos hexponent, if_pos hexponent]
        exact scanNumber_positional hm (hwhole.append (digits_ne_zero hm) (hzeros _))
          (List.cons_ne_nil _ _) (hzeros 1) (value_whole hexponent) hrest
      · rw [if_neg hexponent, if_neg hexponent]
        by_cases hpoint : 0 < d.shortest.pointPosition
        · rw [if_pos hpoint]
          refine scanNumber_positional hm (hwhole.take (by omega)) ?_
            (fun c hc => hdigits c (List.mem_of_mem_drop hc)) (value_inside (by omega) hpoint) hrest
          -- the point stands in front of the last digit at least
          rw [Ne, List.drop_eq_nil_iff, digitCount_eq]
          unfold pointPosition at *
          omega
        · rw [if_neg hpoint]
          refine scanNumber_positional hm (isWhole_digits 0) ?_ ?_ (value_below (by omega)) hrest
          · exact List.append_ne_nil_of_right_ne_nil _ hwhole.nonempty
          · intro c hc
            rcases List.mem_append.1 hc with hc | hc
            · exact hzeros _ c hc
            · exact hdigits c hc
    · rw [if_neg hrange]
      exact scanNumber_exponent hm hrest

theorem scanNumber_int {i : Int} (hlow : -(twoTo 63 : Int) ≤ i) (hhigh : i < twoTo 64)
    {rest : Source} (hrest : EndsNumber rest) :
    scanNumber ((toString i).toList.map some ++ rest) = ⟨.ok (.int i), some rest⟩ := by
  cases i with
  | ofNat n =>
    have htext : (toString (Int.ofNat n)).toList = sign false ++ digits n := by
      show (Nat.repr n).toList = Nat.toDigits 10 n
      rw [Nat.repr_eq_ofList_toDigits, String.toList_ofList]
    have hn : n < twoTo 64 := by
      have hcast : (n : Int) < twoTo 64 := hhigh
      exact_mod_cast hcast
    rw [htext, scanNumber_whole false (isWhole_digits n) hrest]
    unfold numberOf
    dsimp only
    rw [decimalValue_digits, if_pos (by rfl), if_pos (by simpa using hn)]
    rfl
  | negSucc n =>
    have htext : (toString (Int.negSucc n)).toList = sign true ++ digits (n + 1) := by
      show ("-" ++ Nat.repr (n + 1)).toList = '-' :: Nat.toDigits 10 (n + 1)
      rw [Nat.repr_eq_ofList_toDigits, String.toList_append, String.toList_ofList,
        String.toList_ofList]
      exact List.singleton_append
    have hn : n + 1 ≤ twoTo 63 := by
      have hcast : ((n + 1 : Nat) : Int) ≤ twoTo 63 := by
        rw [Int.negSucc_eq] at hlow
        have hneg := neg_le_neg hlow
        rw [neg_neg, neg_neg] at hneg
        exact hneg
      exact_mod_cast hcast
    rw [htext, scanNumber_whole true (isWhole_digits (n + 1)) hrest]
    unfold numberOf
    dsimp only
    rw [decimalValue_digits, if_pos (by rfl), if_neg (by simp), if_pos (by simpa using hn)]
    rfl

end Source

/-- The integers that are read as integers. -/
def JsonNumber.Fits : JsonNumber → Prop
  | .int i => -(twoTo 63 : Int) ≤ i ∧ i < twoTo 64
  | .float _ => True

/-- **Reading the text of a number gives the number**, whatever follows that ends a number. -/
theorem Source.scanNumber_text {n : JsonNumber} (hn : n.Fits) {rest : Source}
    (hrest : EndsNumber rest) :
    scanNumber (n.text.toList.map some ++ rest) = ⟨.ok n, some rest⟩ := by
  cases n with
  | int i => exact scanNumber_int hn.1 hn.2 hrest
  | float d => exact scanNumber_jsonText d hrest

end TypedJson
