import Mathlib.Data.List.ProdSigma
import TypedJson.Proofs.LeafKeys
import TypedJson.Proofs.SameData
/-!
# Back references in keys

Where a union is met again within itself its key is cut short, and what is left there does not
say which of the unions around it the reference goes back to.  When the keys of two types are
compared, types stand across from one another at any depth of the keys (`MetTogether`).  If the
keys are cut short at unions that do so (`BackReferencesAgree`), what stands across is alike
(`across_alike`).

The set of what stands across is generated from the two types by going down both keys in
step: to branches of equal keys, and to the arguments at one place.  It is finite for a
finite table, but that is not used.  What is used is that it is closed: together with
equality it is a relation as `Like` asks for, except where a key was cut short, and there
`BackReferencesAgree` supplies the pair (`across_alike`).
-/
namespace TypedJson

/-- Within the unions that are opened the types have equal keys. -/
def SameWithin (s : Interner) (pairs : List (TypeId × TypeId)) (t t' : TypeId) : Prop :=
  ∃ key key', Keyed s (pairs.map (·.1)) t key ∧ Keyed s (pairs.map (·.2)) t' key' ∧
    TypeKey.Same key key'

/-- One of the types is among the unions that are opened. -/
def IsOpened (pairs : List (TypeId × TypeId)) (t t' : TypeId) : Prop :=
  t ∈ pairs.map (·.1) ∨ t' ∈ pairs.map (·.2)

instance (pairs : List (TypeId × TypeId)) (t t' : TypeId) : Decidable (IsOpened pairs t t') :=
  inferInstanceAs (Decidable (_ ∨ _))

theorem forall₂_of_keys {s : Interner} {opened opened' : List TypeId} {ts ts' : List TypeId}
    {keys keys' : List TypeKey} (hlen : ts.length = keys.length) (hlen' : ts'.length = keys'.length)
    (hkeys : ∀ {x key}, (x, key) ∈ ts.zip keys → Keyed s opened x key)
    (hkeys' : ∀ {x key}, (x, key) ∈ ts'.zip keys' → Keyed s opened' x key)
    (hsame : List.Forall₂ TypeKey.Same keys keys') :
    List.Forall₂ (fun x x' => ∃ key key', Keyed s opened x key ∧ Keyed s opened' x' key' ∧
      TypeKey.Same key key') ts ts' := by
  have hall := List.forall₂_iff_zip.2 ⟨hlen, hkeys⟩
  have hall' := List.forall₂_iff_zip.2 ⟨hlen', hkeys'⟩
  have hmixed : List.Forall₂ (fun x key' => ∃ key, Keyed s opened x key ∧ TypeKey.Same key key')
      ts keys' := forall₂_of_left hall.flip hsame fun key x key' hkey h => ⟨key, hkey, h⟩
  exact forall₂_of_left hmixed.flip hall'.flip fun key' x x' ⟨key, hkey, h⟩ hkey' =>
    ⟨key, key', hkey, hkey', h⟩

theorem setwise_of_keys {s : Interner} {opened opened' : List TypeId} {ts ts' : List TypeId}
    {keys keys' : List TypeKey} (hlen : ts.length = keys.length) (hlen' : ts'.length = keys'.length)
    (hkeys : ∀ {x key}, (x, key) ∈ ts.zip keys → Keyed s opened x key)
    (hkeys' : ∀ {x key}, (x, key) ∈ ts'.zip keys' → Keyed s opened' x key)
    (hsame : TypeKey.Same (.union keys) (.union keys')) :
    Setwise (fun x x' => ∃ key key', Keyed s opened x key ∧ Keyed s opened' x' key' ∧
      TypeKey.Same key key') ts ts' := by
  obtain ⟨zs, hzs, hperm⟩ := TypeKey.same_union_iff.1 hsame
  have hall := List.forall₂_iff_zip.2 ⟨hlen, hkeys⟩
  have hall' := List.forall₂_iff_zip.2 ⟨hlen', hkeys'⟩
  refine ⟨fun x hx => ?_, fun x' hx' => ?_⟩
  · obtain ⟨key, hkey, hxkey⟩ := forall₂_mem_left hall hx
    obtain ⟨key', hkey', h⟩ := forall₂_mem_left hzs hkey
    obtain ⟨x', hx', hxkey'⟩ := forall₂_mem_right hall' (hperm.mem_iff.1 hkey')
    exact ⟨x', hx', key, key', hxkey, hxkey', h⟩
  · obtain ⟨key', hkey', hxkey'⟩ := forall₂_mem_left hall' hx'
    obtain ⟨key, hkey, h⟩ := forall₂_mem_right hzs (hperm.mem_iff.2 hkey')
    obtain ⟨x, hx, hxkey⟩ := forall₂_mem_right hall hkey
    exact ⟨x, hx, key, key', hxkey, hxkey', h⟩

namespace Universe

variable {u : Universe} {s : Interner} {a b : TypeId}

/-! ## Types with an identity

A symbol is the identity of a type that is no union, no literal and not intrinsic.  Two types
of one symbol have data of one shape, up to the arguments. -/

/-- What a type of the identity looks like that is no union. -/
inductive SymbolData (u : Universe) (t : TypeId) : Symbol → TypeData → Prop
  | param {id : DeclarationId} {position : Nat} :
    SymbolData u t (.param id position) (.form (.param (.param id position)))
  | builtin {b : Builtin} (hb : b = .date ∨ b = .pattern) :
    SymbolData u t (.builtin b) (.form (.reference ⟨.builtin b, []⟩))
  | array {x : TypeId} : SymbolData u t (.builtin .array) (.form (.array x))
  | record {key value : TypeId} : SymbolData u t (.builtin .record)
      (.object (some ⟨.builtin .record, [key, value]⟩) (.record key value))
  | declared {id : DeclarationId} {d : Declaration} {args : List TypeId}
    (hd : u.declaration? id = some d) (hkind : DeclarationBody.kind d.body ≠ .typeAlias) :
    SymbolData u t (.declared id) (.form (.reference ⟨.declared id, args⟩))
  | named {id : DeclarationId} {d : Declaration} {body : TypeExpr} {args : List TypeId}
    {shape : Shape} (hd : u.declaration? id = some d) (hbody : d.body = .typeAlias body) :
    SymbolData u t (.declared id) (.object (some ⟨.declared id, args⟩) shape)
  | anonymous {shape : Shape} : SymbolData u t (.anonymous t) (.object none shape)

theorem symbolData (hs : u.Sound s) {t : TypeId} {symbol : Symbol} (hunion : s.union? t = none)
    (h : s.symbol? t = some symbol) : SymbolData u t symbol (s.data t) := by
  have hlawful := hs.lawful t
  unfold Interner.union? at hunion
  unfold Interner.symbol? at h
  have halias : ∀ {origin : Instance} {shape : Shape}, u.IsAlias origin.symbol →
      SymbolData u t origin.symbol (.object (some origin) shape) := by
    rintro ⟨symbol, args⟩ shape ⟨id, d, body, hid, hd, hbody⟩
    obtain rfl : symbol = .declared id := hid
    exact .named hd hbody
  generalize s.data t = data at hlawful hunion h
  cases data with
  | form f =>
    cases f with
    | param =>
      cases h
      obtain ⟨id, position, d, rfl, -⟩ := hlawful
      exact .param
    | array =>
      cases h
      exact .array
    | reference inst =>
      cases h
      obtain ⟨symbol, args⟩ := inst
      rcases hlawful with ⟨b, hb, hinst⟩ | ⟨id, d, hid, hd, hkind⟩
      · cases hinst
        exact .builtin hb
      · obtain rfl : symbol = .declared id := hid
        exact .declared hd hkind
    | intrinsic | literal | unresolved => cases h
    | union => cases hunion
  | namedUnion => cases hunion
  | object origin shape =>
    cases origin with
    | none =>
      cases h
      exact .anonymous
    | some origin =>
      cases h
      cases shape with
      | record key value =>
        obtain rfl : origin = ⟨.builtin .record, [key, value]⟩ := hlawful
        exact .record
      | literal => exact halias hlawful
      | intersection => exact halias hlawful
  | reserved => cases h

/-! ## Types across from one another

`Compared` is the inversion of two equal keys: it lists the ways in which they can be equal,
and has the cut as the first of them. -/

/-- The types stand across from one another in the keys of the two types, within these pairs of
opened unions. -/
inductive MetTogether (u : Universe) (s : Interner) (a b : TypeId) :
    List (TypeId × TypeId) → TypeId → TypeId → Prop
  | leaf {r r' : TypeId} (hr : r ∈ u.leaves s a) (hr' : r' ∈ u.leaves s b)
    (hsame : SameWithin s [] r r') : MetTogether u s a b [] r r'
  | branch {pairs : List (TypeId × TypeId)} {t t' x x' : TypeId} {bs bs' : List TypeId}
    (h : MetTogether u s a b pairs t t') (hbs : s.union? t = some bs) (hbs' : s.union? t' = some bs')
    (hnew : ¬ IsOpened pairs t t') (hx : x ∈ bs) (hx' : x' ∈ bs')
    (hsame : SameWithin s ((t, t') :: pairs) x x') : MetTogether u s a b ((t, t') :: pairs) x x'
  | argument {pairs : List (TypeId × TypeId)} {t t' x x' : TypeId}
    (h : MetTogether u s a b pairs t t') (hunion : s.union? t = none) (hunion' : s.union? t' = none)
    (hx : (x, x') ∈ (s.arguments t).zip (s.arguments t')) : MetTogether u s a b pairs x x'

/-- Where one of the keys is cut short the other one is as well, at the union across from it,
or both are cut short at the same union. -/
def BackReferencesAgree (u : Universe) (s : Interner) (a b : TypeId) : Prop :=
  ∀ pairs x x', u.MetTogether s a b pairs x x' → IsOpened pairs x x' → x = x' ∨ (x, x') ∈ pairs

theorem data_unresolved {t : TypeId} (hopen : s.data t ≠ .reserved) (hi : s.intrinsic? t = none)
    (hl : s.literal? t = none) (hunion : s.union? t = none) (hsymbol : s.symbol? t = none) :
    ∃ name, s.data t = .form (.unresolved name) := by
  unfold Interner.intrinsic? at hi
  unfold Interner.literal? at hl
  unfold Interner.union? at hunion
  unfold Interner.symbol? at hsymbol
  generalize s.data t = data at hopen hi hl hunion hsymbol
  cases data with
  | form f =>
    cases f with
    | unresolved name => exact ⟨name, rfl⟩
    | intrinsic => cases hi
    | literal => cases hl
    | union => cases hunion
    | param | array | reference => cases hsymbol
  | namedUnion => cases hunion
  | object origin shape =>
    cases origin with
    | none => cases hsymbol
    | some => cases hsymbol
  | reserved => exact absurd rfl hopen

/-- What is known of types of equal keys: one of the keys is cut short, or the types are of one
form without parts, or unions of branches of equal keys, or of one identity with arguments of
equal keys. -/
inductive Compared (s : Interner) (pairs : List (TypeId × TypeId)) (t t' : TypeId) : Prop
  | cut (hopened : IsOpened pairs t t')
    (hunion : (s.union? t).isSome = true ∨ (s.union? t').isSome = true)
  | plain {f : Form} (hf : (TypeData.form f).parts = []) (ht : s.data t = .form f)
    (ht' : s.data t' = .form f)
  | union {bs bs' : List TypeId} (hbs : s.union? t = some bs) (hbs' : s.union? t' = some bs')
    (h : Setwise (SameWithin s ((t, t') :: pairs)) bs bs')
  | applied {symbol : Symbol} (hunion : s.union? t = none) (hunion' : s.union? t' = none)
    (hsymbol : s.symbol? t = some symbol) (hsymbol' : s.symbol? t' = some symbol)
    (h : List.Forall₂ (SameWithin s pairs) (s.arguments t) (s.arguments t'))

theorem SameWithin.compared {pairs : List (TypeId × TypeId)} {t t' : TypeId}
    (h : SameWithin s pairs t t') (ht : s.data t ≠ .reserved) (ht' : s.data t' ≠ .reserved) :
    Compared s pairs t t' := by
  have hintrinsic : ∀ {i}, s.intrinsic? t = some i → s.intrinsic? t' = some i →
      Compared s pairs t t' := fun h h' =>
    .plain rfl (TypeData.intrinsic?_eq_some_iff.1 h) (TypeData.intrinsic?_eq_some_iff.1 h')
  obtain ⟨key, key', hkey, hkey', hsame⟩ := h
  cases hkey with
  | null h =>
    cases hkey' with
    | null h' => exact hintrinsic h h'
    | _ => cases hsame
  | undefined h =>
    cases hkey' with
    | undefined h' => exact hintrinsic h h'
    | _ => cases hsame
  | intrinsic h =>
    cases hkey' with
    | intrinsic h' =>
      simp only [TypeKey.Same, TypeKey.isEqual, beq_iff_eq] at hsame
      exact hintrinsic h (hsame ▸ h')
    | _ => cases hsame
  | literal h =>
    cases hkey' with
    | literal h' =>
      simp only [TypeKey.Same, TypeKey.isEqual, beq_iff_eq] at hsame
      exact .plain rfl (TypeData.literal?_eq_some_iff.1 h)
        (TypeData.literal?_eq_some_iff.1 (hsame ▸ h'))
    | _ => cases hsame
  | recursive hunion hmem => exact .cut (.inl hmem) (.inl hunion)
  | cut hunion hmem => exact .cut (.inl hmem) (.inl hunion)
  | union hbs _ hlen hkeys =>
    cases hkey' with
    | union hbs' _ hlen' hkeys' =>
      exact .union hbs hbs' (setwise_of_keys hlen hlen' hkeys hkeys' hsame)
    | _ => cases hsame
  | symbol _ _ hunion hsymbol hargs =>
    cases hkey' with
    | symbol _ _ hunion' hsymbol' hargs' =>
      simp only [TypeKey.Same, TypeKey.isEqual, beq_iff_eq] at hsame
      refine .applied hunion hunion' hsymbol (hsame ▸ hsymbol') ?_
      rw [hargs, hargs']
      exact .nil
    | _ => cases hsame
  | generic _ _ hunion hsymbol hlen hkeys =>
    cases hkey' with
    | generic _ _ hunion' hsymbol' hlen' hkeys' =>
      simp only [TypeKey.Same, TypeKey.isEqual, Bool.and_eq_true, beq_iff_eq, TypeKey.areEqual_iff]
        at hsame
      exact .applied hunion hunion' hsymbol (hsame.1 ▸ hsymbol')
        (forall₂_of_keys hlen hlen' hkeys hkeys' hsame.2)
    | _ => cases hsame
  | text hi hl hunion hsymbol htext =>
    cases hkey' with
    | cut hunion' hmem => exact .cut (.inr hmem) (.inr hunion')
    | text hi' hl' hunion' hsymbol' htext' =>
      obtain ⟨name, hdata⟩ := data_unresolved ht hi hl hunion hsymbol
      obtain ⟨name', hdata'⟩ := data_unresolved ht' hi' hl' hunion' hsymbol'
      simp only [TypeKey.Same, TypeKey.isEqual, beq_iff_eq] at hsame
      rw [htext name hdata, htext' name' hdata'] at hsame
      rw [← hsame] at hdata'
      exact .plain rfl hdata hdata'
    | _ => cases hsame

/-! ## Types across from one another are alike

Whether a pair is opened again decides whether the comparison goes on.  A pair that is opened
met before it was, so it may be taken where it met first, when it was new
(`MetTogether.opened`). -/

/-- The types are the same, or they stand across from one another. -/
def Across (u : Universe) (s : Interner) (a b t t' : TypeId) : Prop :=
  (t = t' ∧ s.Has t) ∨ ∃ pairs, u.MetTogether s a b pairs t t'

namespace MetTogether

variable {pairs : List (TypeId × TypeId)} {t t' : TypeId}

theorem has (hs : u.Sound s) (ha : s.Has a) (hb : s.Has b) (h : u.MetTogether s a b pairs t t') :
    s.Has t ∧ s.Has t' := by
  induction h with
  | leaf hr hr' => exact ⟨leaves_has hs ha _ hr, leaves_has hs hb _ hr'⟩
  | branch _ hbs hbs' _ hx hx' => exact ⟨union?_has hs hbs _ hx, union?_has hs hbs' _ hx'⟩
  | argument _ _ _ hx =>
    have hmem := List.of_mem_zip hx
    exact ⟨hs.parts _ _ (TypeData.arguments_parts _ hmem.1),
      hs.parts _ _ (TypeData.arguments_parts _ hmem.2)⟩

theorem sameWithin (hs : u.Kept [] s) (ha : s.Has a) (hb : s.Has b)
    (h : u.MetTogether s a b pairs t t') : SameWithin s pairs t t' := by
  induction h with
  | leaf _ _ hsame => exact hsame
  | branch _ _ _ _ _ _ hsame => exact hsame
  | @argument pairs t t' x x' h hunion hunion' hx ih =>
    obtain ⟨ht, ht'⟩ := h.has hs.sound ha hb
    cases SameWithin.compared ih (hs.closed t ht) (hs.closed t' ht') with
    | cut _ hsome =>
      rw [hunion, hunion'] at hsome
      rcases hsome with hsome | hsome <;> cases hsome
    | plain hf ht =>
      have hmem := TypeData.arguments_parts (s.data t) (List.of_mem_zip hx).1
      rw [ht, hf] at hmem
      cases hmem
    | union hbs => rw [hunion] at hbs; cases hbs
    | applied _ _ _ _ hargs => exact (List.forall₂_iff_zip.1 hargs).2 hx

theorem compared (hs : u.Kept [] s) (ha : s.Has a) (hb : s.Has b)
    (h : u.MetTogether s a b pairs t t') : Compared s pairs t t' :=
  SameWithin.compared (h.sameWithin hs ha hb) (hs.closed t (h.has hs.sound ha hb).1)
    (hs.closed t' (h.has hs.sound ha hb).2)

theorem opened (h : u.MetTogether s a b pairs t t') {x x' : TypeId} (hx : (x, x') ∈ pairs) :
    ∃ pairs', u.MetTogether s a b pairs' x x' ∧ ¬ IsOpened pairs' x x' := by
  induction h with
  | leaf => cases hx
  | branch h _ _ hnew _ _ _ ih =>
    rcases List.mem_cons.1 hx with heq | hx
    · cases heq
      exact ⟨_, h, hnew⟩
    · exact ih hx
  | argument _ _ _ _ ih => exact ih hx

end MetTogether

/-- Types of one identity are the same, or alike if their arguments are. -/
theorem alike_of_symbol {R : TypeId → TypeId → Prop} (hs : u.Settled s) {t t' : TypeId}
    {symbol : Symbol} (ht : SymbolData u t symbol (s.data t))
    (ht' : SymbolData u t' symbol (s.data t'))
    (hargs : List.Forall₂ (Derived u s s R) (s.arguments t) (s.arguments t')) :
    t = t' ∨ Alike (Derived u s s R) (s.data t) (s.data t') := by
  unfold Interner.arguments at hargs
  generalize hdata : s.data t = data at ht hargs
  generalize hdata' : s.data t' = data' at ht' hargs
  cases ht with
  | param =>
    cases ht' with
    | param => exact .inr (.plain rfl)
  | builtin hb =>
    cases ht' with
    | builtin => exact .inr (.plain rfl)
    | array => rcases hb with hb | hb <;> cases hb
    | record => rcases hb with hb | hb <;> cases hb
  | array =>
    cases ht' with
    | builtin hb => rcases hb with hb | hb <;> cases hb
    | array =>
      cases hargs with
      | cons hx => exact .inr (.array hx)
  | record =>
    cases ht' with
    | builtin hb => rcases hb with hb | hb <;> cases hb
    | record =>
      cases hargs with
      | cons hkey hrest =>
        cases hrest with
        | cons hvalue => exact .inr (.record rfl hkey hvalue)
  | declared hd hkind =>
    cases ht' with
    | declared => exact .inr (.reference hargs)
    | named hd' hbody =>
      rw [hd] at hd'
      cases hd'
      rw [hbody] at hkind
      exact absurd rfl hkind
  | @named id d body args shape hd hbody =>
    cases ht' with
    | declared hd' hkind =>
      rw [hd] at hd'
      cases hd'
      rw [hbody] at hkind
      exact absurd rfl hkind
    | @named _ _ _ args' shape' hd' hbody' =>
      have hfills := hs.fills (by rw [hdata]; rfl) ⟨id, d, rfl, hd, hbody, rfl⟩
      have hfills' := hs.fills (by rw [hdata']; rfl) ⟨id, d, rfl, hd, hbody, rfl⟩
      rw [hdata] at hfills
      rw [hdata'] at hfills'
      exact .inr (alike_fills hargs hfills hfills')
  | anonymous =>
    cases ht' with
    | anonymous => exact .inl rfl

theorem alike_of_new (hs : u.Settled s) (ha : s.Has a) (hb : s.Has b)
    {pairs : List (TypeId × TypeId)} {t t' : TypeId} (h : u.MetTogether s a b pairs t t')
    (hnew : ¬ IsOpened pairs t t') :
    t = t' ∨ Alike (Derived u s s (u.Across s a b)) (s.data t) (s.data t') := by
  cases h.compared hs.kept ha hb with
  | cut hopened => exact absurd hopened hnew
  | plain hf hdata hdata' =>
    rw [hdata, hdata']
    exact .inr (.plain hf)
  | union hbs hbs' hset =>
    refine .inr (.union hbs hbs' ⟨fun x hx => ?_, fun x' hx' => ?_⟩)
    · obtain ⟨x', hx', hsame⟩ := hset.1 x hx
      exact ⟨x', hx', .base (.inr ⟨_, .branch h hbs hbs' hnew hx hx' hsame⟩)⟩
    · obtain ⟨x, hx, hsame⟩ := hset.2 x' hx'
      exact ⟨x, hx, .base (.inr ⟨_, .branch h hbs hbs' hnew hx hx' hsame⟩)⟩
  | applied hunion hunion' hsymbol hsymbol' hargs =>
    refine alike_of_symbol hs (symbolData hs.kept.sound hunion hsymbol)
      (symbolData hs.kept.sound hunion' hsymbol') ?_
    exact List.forall₂_iff_zip.2 ⟨hargs.length_eq, fun hx =>
      .base (.inr ⟨pairs, .argument h hunion hunion' hx⟩)⟩

/-- **What stands across is alike**, if the back references agree. -/
theorem across_alike (hs : u.Settled s) (ha : s.Has a) (hb : s.Has b)
    (hback : u.BackReferencesAgree s a b) {t t' : TypeId} (h : u.Across s a b t t') :
    Alike (Derived u s s (u.Across s a b)) (s.data t) (s.data t') := by
  have hself : ∀ {t}, s.Has t → Alike (Derived u s s (u.Across s a b)) (s.data t) (s.data t) :=
    fun {t} ht => .refl (fun p hp => .base (.inl ⟨rfl, hs.kept.sound.parts t p hp⟩))
      (hs.kept.closed t ht)
  rcases h with ⟨rfl, ht⟩ | ⟨pairs, hmet⟩
  · exact hself ht
  · have ht := (hmet.has hs.kept.sound ha hb).1
    have hnew : ∀ {pairs}, u.MetTogether s a b pairs t t' → ¬ IsOpened pairs t t' →
        Alike (Derived u s s (u.Across s a b)) (s.data t) (s.data t') := by
      intro pairs hmet hnew
      rcases alike_of_new hs ha hb hmet hnew with rfl | halike
      · exact hself ht
      · exact halike
    by_cases hopened : IsOpened pairs t t'
    · rcases hback pairs t t' hmet hopened with rfl | hmem
      · exact hself ht
      -- the union was met before it was opened, and nothing was cut short there
      · obtain ⟨pairs', hmet', hnew'⟩ := hmet.opened hmem
        exact hnew hmet' hnew'
    · exact hnew hmet hopened

/-! ## Aliases without parameters

A special case that can be seen from the declarations.  The key that is left at a cut is the
symbol of the alias, and an alias without parameters has a single instance, so equal cuts
are at one and the same union. -/

/-- The key of the first type is made of that of the second one, a branch or an argument. -/
def KeyedBy (s : Interner) (t x : TypeId) : Prop := x ∈ (s.union? t).getD (s.arguments t)

/-- Every union that comes back to itself is an alias without type parameters. -/
def PlainRecursion (s : Interner) : Prop :=
  ∀ t, (s.union? t).isSome = true → Relation.TransGen (KeyedBy s) t t →
    ∃ symbol bs, s.data t = .namedUnion ⟨symbol, []⟩ bs

theorem MetTogether.keyedBy {pairs : List (TypeId × TypeId)} {t t' : TypeId}
    (h : u.MetTogether s a b pairs t t') : ∀ p ∈ pairs,
      ((s.union? p.1).isSome = true ∧ Relation.TransGen (KeyedBy s) p.1 t) ∧
      ((s.union? p.2).isSome = true ∧ Relation.TransGen (KeyedBy s) p.2 t') := by
  induction h with
  | leaf => exact fun p hp => by cases hp
  | @branch pairs t t' x x' bs bs' _ hbs hbs' _ hx hx' _ ih =>
    have hstep : KeyedBy s t x := by rw [KeyedBy, hbs]; exact hx
    have hstep' : KeyedBy s t' x' := by rw [KeyedBy, hbs']; exact hx'
    intro p hp
    rcases List.mem_cons.1 hp with rfl | hp
    · exact ⟨⟨by rw [hbs]; rfl, .single hstep⟩, ⟨by rw [hbs']; rfl, .single hstep'⟩⟩
    · obtain ⟨⟨hunion, hleads⟩, ⟨hunion', hleads'⟩⟩ := ih p hp
      exact ⟨⟨hunion, hleads.tail hstep⟩, ⟨hunion', hleads'.tail hstep'⟩⟩
  | @argument pairs t t' x x' _ hunion hunion' hx ih =>
    have hmem := List.of_mem_zip hx
    have hstep : KeyedBy s t x := by rw [KeyedBy, hunion]; exact hmem.1
    have hstep' : KeyedBy s t' x' := by rw [KeyedBy, hunion']; exact hmem.2
    intro p hp
    obtain ⟨⟨hunion, hleads⟩, ⟨hunion', hleads'⟩⟩ := ih p hp
    exact ⟨⟨hunion, hleads.tail hstep⟩, ⟨hunion', hleads'.tail hstep'⟩⟩

theorem eq_of_recursive (hs : u.Meaningful s) {opened opened' : List TypeId} {x x' : TypeId}
    {key key' : TypeKey} (hx : Keyed s opened x key) (hx' : Keyed s opened' x' key')
    (hsame : TypeKey.Same key key') (hmem : x ∈ opened) {symbol : Symbol} {bs : List TypeId}
    (hdata : s.data x = .namedUnion ⟨symbol, []⟩ bs)
    (hplain : x' ∈ opened' → ∃ symbol bs, s.data x' = .namedUnion ⟨symbol, []⟩ bs) : x' = x := by
  obtain rfl := hx.eq_recursive hdata hmem
  cases hx' with
  | recursive _ hmem' hsymbol =>
    simp only [TypeKey.Same, TypeKey.isEqual, beq_iff_eq] at hsame
    obtain ⟨symbol', bs', hdata'⟩ := hplain hmem'
    rw [Interner.symbol?, hdata'] at hsymbol
    obtain rfl : symbol = symbol' := hsame.trans (Option.some.inj hsymbol).symm
    have hname : (s.data x).named? = some ⟨symbol, []⟩ := by rw [hdata]; rfl
    have hname' : (s.data x').named? = some ⟨symbol, []⟩ := by rw [hdata']; rfl
    obtain ⟨scope, es, hbody, -⟩ : u.Meant s (.namedUnion ⟨symbol, []⟩ bs) := hdata ▸ hs.data x
    have hnominal : u.IsNominal ⟨symbol, []⟩ := ⟨_, scope, hbody, rfl⟩
    exact hs.functional _ x x' (hs.recorded x _ hname hnominal) (hs.recorded x' _ hname' hnominal)
      hnominal
  | _ => cases hsame

/-- **Back references agree if every union that comes back to itself is an alias without type
parameters.** -/
theorem backReferencesAgree_of_plain (hs : u.Kept [] s) (ha : s.Has a) (hb : s.Has b)
    (hplain : PlainRecursion s) : u.BackReferencesAgree s a b := by
  intro pairs x x' hmet hopened
  obtain ⟨key, key', hkey, hkey', hsame⟩ := hmet.sameWithin hs ha hb
  have hleft : x ∈ pairs.map (·.1) → ∃ symbol bs, s.data x = .namedUnion ⟨symbol, []⟩ bs := by
    intro hmem
    obtain ⟨p, hp, rfl⟩ := List.mem_map.1 hmem
    exact hplain p.1 (hmet.keyedBy p hp).1.1 (hmet.keyedBy p hp).1.2
  have hright : x' ∈ pairs.map (·.2) → ∃ symbol bs, s.data x' = .namedUnion ⟨symbol, []⟩ bs := by
    intro hmem
    obtain ⟨p, hp, rfl⟩ := List.mem_map.1 hmem
    exact hplain p.2 (hmet.keyedBy p hp).2.1 (hmet.keyedBy p hp).2.2
  rcases hopened with hmem | hmem
  · obtain ⟨symbol, bs, hdata⟩ := hleft hmem
    exact .inl (eq_of_recursive hs.meaningful hkey hkey' hsame hmem hdata hright).symm
  · obtain ⟨symbol, bs, hdata⟩ := hright hmem
    exact .inl (eq_of_recursive hs.meaningful hkey' hkey hsame.symm hmem hdata hleft)

/-! ## A test for back references

For a table at hand the pairs are generated by computation; a list that is closed under
`metWithin` has them all. -/

/-- What can stand across from one another right within the two types. -/
def metWithin (s : Interner) (met : List (TypeId × TypeId) × TypeId × TypeId) :
    List (List (TypeId × TypeId) × TypeId × TypeId) :=
  let (pairs, t, t') := met
  match s.union? t, s.union? t' with
  | some bs, some bs' =>
    if IsOpened pairs t t' then [] else (bs.product bs').map fun p => ((t, t') :: pairs, p)
  | none, none => ((s.arguments t).zip (s.arguments t')).map fun p => (pairs, p)
  | _, _ => []

/-- The list has all that stands across from one another, and there the back references agree. -/
structure CoversMet (u : Universe) (s : Interner) (a b : TypeId)
    (met : List (List (TypeId × TypeId) × TypeId × TypeId)) : Prop where
  leaves : ∀ p ∈ (u.leaves s a).product (u.leaves s b), ([], p) ∈ met
  within : ∀ m ∈ met, ∀ m' ∈ metWithin s m, m' ∈ met
  agree : ∀ m ∈ met, IsOpened m.1 m.2.1 m.2.2 → m.2.1 = m.2.2 ∨ m.2 ∈ m.1

instance (u : Universe) (s : Interner) (a b : TypeId)
    (met : List (List (TypeId × TypeId) × TypeId × TypeId)) : Decidable (u.CoversMet s a b met) :=
  decidable_of_iff (_ ∧ _ ∧ _) ⟨fun ⟨h₁, h₂, h₃⟩ => ⟨h₁, h₂, h₃⟩, fun ⟨h₁, h₂, h₃⟩ => ⟨h₁, h₂, h₃⟩⟩

theorem CoversMet.backReferencesAgree {met : List (List (TypeId × TypeId) × TypeId × TypeId)}
    (h : u.CoversMet s a b met) : u.BackReferencesAgree s a b := by
  have hmet : ∀ {pairs t t'}, u.MetTogether s a b pairs t t' → (pairs, t, t') ∈ met := by
    intro pairs t t' hmet
    induction hmet with
    | leaf hr hr' => exact h.leaves _ (List.mem_product.2 ⟨hr, hr'⟩)
    | branch _ hbs hbs' hnew hx hx' _ ih =>
      refine h.within _ ih _ ?_
      simp only [metWithin, hbs, hbs', if_neg hnew]
      exact List.mem_map_of_mem (List.mem_product.2 ⟨hx, hx'⟩)
    | argument _ hunion hunion' hx ih =>
      refine h.within _ ih _ ?_
      simp only [metWithin, hunion, hunion']
      exact List.mem_map_of_mem hx
  exact fun pairs x x' hx => h.agree _ (hmet hx)

end Universe
end TypedJson
