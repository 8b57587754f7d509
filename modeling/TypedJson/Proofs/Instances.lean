import TypedJson.Proofs.Founded
import TypedJson.Proofs.InstanceLists
import TypedJson.Proofs.OwnItems
/-!
# Instances list what substitution makes of the declared type

An instance of an interface lists for itself what substitution makes of the items that the declared
type lists for itself, if the texts of these have no inline object or intersection.  What it takes
over is what substitution makes of the rest, if it comes from types that are plain or left as they
are and none of them takes over from itself (`instances_substitute`).  Without that it may be
something else (`keyedUniverse_lists_otherwise`).
-/
namespace TypedJson
namespace Universe

variable {u : Universe} {s s' : Interner} {V : NamedTable} {id a : DeclarationId} {d : Declaration}
  {t t' : TypeId} {args xs : List TypeId} {k : Listing} {bases : List TypeExpr}
  {members : List Member} {indexes : List Index}

/-! ## Instances

The declared type is the instance with its own type parameters for arguments.  Own items need
no condition on bases, by the lemma that lists begin with them; the whole lists do. -/

theorem Founded.extends (h : u.Founded s t) (hext : s.Extends s') : u.Founded s' t := by
  cases h with
  | intro h => exact .intro fun busy s'' b hext' => h busy s'' b (hext.trans hext')

theorem list_keeps (h : u.Reaches u.start s) (ht : s.Has t) {fuel : Nat} {l : List k.Item}
    (hrun : u.list fuel k t s = some (l, s')) :
    u.Reaches u.start s' ∧ s.Extends s' ∧ s.Grows s' ∧ s'.kept? k t = some l := by
  have hs := kept_of_reaches h
  obtain ⟨honward, -⟩ := list_goes u k fuel t s [] hs ht (awaits_nil u k t s) l s' hrun
  obtain ⟨hgrown, hl⟩ := list_yields hs.sound fuel k ht l s' hrun
  have hasks : u.Asks s s' := by
    cases k with
    | members => exact .members ht hrun
    | indexes => exact .indexes ht hrun
  exact ⟨h.tail hasks, honward.table, hgrown.grows, hl⟩

theorem substitutes_params {params : List TypeId}
    (hparams : s.Completes id args.length [] params) :
    List.Forall₂ (u.Substitutes s id args) params args := by
  obtain ⟨missing, rfl, hmissing⟩ := hparams
  have hmissing : List.Forall₂ (fun position x => s.data x = .form (.param (.param id position)))
      (List.range args.length) missing := by simpa using hmissing
  have hargs : List.Forall₂ (fun position x => args[position]? = some x)
      (List.range args.length) args := by
    refine List.forall₂_iff_get.2 ⟨List.length_range, fun i hi hi' => ?_⟩
    simp
  simpa using forall₂_of_left hmissing hargs fun _ _ _ hx ha => Substitutes.param hx ha

theorem take_of_front (hd : u.declaration? a = some d)
    (hbody : d.body = .interface bases members indexes)
    (ht : s.data t = .form (.reference ⟨.declared a, xs⟩)) {l : List k.Item}
    (hfront : u.Front s k t l) : textCount members indexes k ≤ l.length ∧
      u.TextDenotes s (d.scope a xs) members indexes k (l.take (textCount members indexes k)) := by
  obtain ⟨own, hown, hfirst⟩ := hfront.exists_own
  rw [own_iff_contents, ht, contents_of_interface hd hbody] at hown
  have hlen := TextDenotes.length_eq hown
  rw [← hlen, ← List.prefix_iff_eq_take.1 hfirst]
  exact ⟨hfirst.length_le, hown⟩

/-- **An instance of an interface lists what substitution makes of the declared type**, whichever of
the two lists is asked for: its own items, and all of them where each type that the declared one
takes over from is plain or left as it is, and none takes over from itself.  Both lists are there if
aliases expand and no chain of types that take over from each other goes on without end. -/
theorem instances_substitute {params : List TypeId} (h : u.Reaches u.start s)
    (hcircular : ∀ n, ¬ u.Circular n) (hsupplies : u.SuppliesArguments)
    (hd : u.declaration? id = some d) (hbody : d.body = .interface bases members indexes)
    (hplain : u.PlainItems id.unit d.typeParams members indexes)
    (ht : s.data t = .form (.reference ⟨.declared id, params⟩))
    (hparams : s.Completes id d.typeParams.length [] params)
    (ht' : s.data t' = .form (.reference ⟨.declared id, args⟩)) (k : Listing) :
    (∀ fuel l s₁ fuel' l' s₂, u.list fuel k t s = some (l, s₁) →
      u.list fuel' k t' s₁ = some (l', s₂) →
        (textCount members indexes k ≤ l.length ∧ Finds s₂ (fun fuel =>
            (l.take (textCount members indexes k)).mapM (u.substituteItem id args fuel k))
          (l'.take (textCount members indexes k))) ∧
        (¬ u.CyclicFrom s₂ t →
          (∀ b, Relation.ReflTransGen (u.Inherits s₂) t b →
            u.PlainBase s₂ id args b ∨ u.Unchanged s₂ id args k b) →
          Finds s₂ (fun fuel => l.mapM (u.substituteItem id args fuel k)) l')) ∧
    (u.Expands → u.Founded s t → u.Founded s t' → ∃ l s₁ l' s₂, ∃ n, ∀ fuel, n ≤ fuel →
      u.list fuel k t s = some (l, s₁) ∧ u.list fuel k t' s₁ = some (l', s₂)) := by
  have hhas : s.Has t := Interner.has_of_data_ne (by rw [ht]; exact fun h => by cases h)
  have hhas' : s.Has t' := Interner.has_of_data_ne (by rw [ht']; exact fun h => by cases h)
  refine ⟨fun fuel l s₁ fuel' l' s₂ hrun hrun' => ?_, fun hexpands hfounded hfounded' => ?_⟩
  · obtain ⟨hreach₁, hext₁, hgrows₁, hl⟩ := list_keeps h hhas hrun
    obtain ⟨hreach₂, hext₂, hgrows₂, hl'⟩ := list_keeps hreach₁ (hgrows₁.has hhas') hrun'
    have hl := hgrows₂.kept? hl
    have hext := hext₁.trans hext₂
    obtain ⟨V, rfl, hV⟩ := standing_of_reaches hcircular hreach₂
    have ht := hext.form ht
    have ht' := hext.form ht'
    have hargs : List.Forall₂ (u.Substitutes V.table id args) params args := by
      refine substitutes_params ?_
      rw [length_of_reference hV.reached hd ht']
      exact hparams.extends hext
    obtain ⟨hle, hown⟩ := take_of_front hd hbody ht (fronted_of_reaches hV.reached hl)
    obtain ⟨-, hown'⟩ := take_of_front hd hbody ht' (fronted_of_reaches hV.reached hl')
    have hitems := hplain.formed hsupplies hd (object_mem_texts hbody)
      (length_of_reference hV.reached hd ht)
    refine ⟨⟨hle, .mapM (finds_items hV (hitems.substitutes hV hcircular hsupplies
      (.zip hargs d.typeParams) hown hown'))⟩, fun hacyclic hbase => .mapM ?_⟩
    obtain ⟨hlen, hzip⟩ := List.forall₂_iff_zip.1 hargs
    exact finds_kept hV hcircular hsupplies hacyclic hbase ⟨t, Interner.has_of_kept? hl, .refl⟩
      (.reference hlen hzip ht ht') hl hl'
  · obtain ⟨l, s₁, -, n, hrun⟩ := list_returns_of_founded hexpands hfounded k []
      (kept_of_reaches h) hhas (awaits_nil u k t s)
    obtain ⟨hreach₁, hext₁, hgrows₁, -⟩ := list_keeps h hhas (hrun n (Nat.le_refl n))
    obtain ⟨l', s₂, -, n', hrun'⟩ := list_returns_of_founded hexpands (hfounded'.extends hext₁) k []
      (kept_of_reaches hreach₁) (hgrows₁.has hhas') (awaits_nil u k t' s₁)
    exact ⟨l, s₁, l', s₂, max n n', fun fuel hle => ⟨hrun fuel (by omega), hrun' fuel (by omega)⟩⟩

/-! ## An instance with an instance of an alias as argument

The conditions are met in a unit with a base of either kind: one that the arguments touch,
which is plain, and one that they leave alone, which has an inline object. -/

/-- The type is an inline object. -/
def IsInline (s : Interner) (t : TypeId) : Bool :=
  match s.data t with
  | .object none (.literal ..) => true
  | _ => false

theorem finds_inline (h : IsInline s t = true) (id : DeclarationId) (args : List TypeId) :
    Finds s (fun fuel => u.substitute id args fuel t) t := by
  unfold IsInline at h
  split at h
  · rename_i members indexes scope hdata
    have hrun : ∀ fuel, u.substitute id args (fuel + 1) t s = some (t, s) := fun fuel => by
      rw [substitute, Session.query_bind, hdata]
      rfl
    exact .step hrun (.pure t)
  · cases h

theorem suppliesArguments_of_names {names : List (String × Nat)}
    (happ : ∀ a d e n count, u.declaration? a = some d → e ∈ d.texts →
      e.Applies d.typeParams n count → a.unit = 0 ∧ (n, count) ∈ names)
    (hcount : ∀ entry ∈ names, ((u.find? entry.1 0).bind u.declaration?).all fun d =>
      decide (d.typeParams.length ≤ entry.2)) : u.SuppliesArguments := by
  intro id d e n count id' d' hd he h _ hfind hd'
  obtain ⟨hunit, hmem⟩ := happ id d e n count hd he h
  have hle := hcount _ hmem
  rw [← hunit, hfind, Option.bind_some, hd'] at hle
  exact of_decide_eq_true hle

/-- One unit: a generic interface with a generic base, one that has an inline object and no type
parameters, an array, a record and an alias in its texts, and an instance of it. -/
def crateUniverse : Universe where
  units := [⟨"crate.ts", [
    { name := "Pair", exported := false, line := none, typeParams := ["T"]
      body := .typeAlias (.union [.name "T", .array (.name "T")]) },
    { name := "Tagged", exported := false, line := none, typeParams := ["T"]
      body := .interface [] [⟨"tag", false, false, some (.name "T")⟩] [] },
    { name := "Crate", exported := true, line := none, typeParams := ["T"]
      body := .interface [.generic "Tagged" [.generic "Pair" [.name "T"]], .name "Sealed"]
        [⟨"items", false, false, some (.array (.name "T"))⟩]
        [⟨.name "string", .generic "Record" [.name "string", .name "T"]⟩] },
    { name := "Shelf", exported := true, line := none, typeParams := []
      body := .interface [] [⟨"crate", false, false,
        some (.generic "Crate" [.generic "Pair" [.name "number"]])⟩] [] },
    { name := "Sealed", exported := false, line := none, typeParams := []
      body := .interface [] [⟨"seal", false, false,
        some (.object [⟨"year", false, false, some (.name "number")⟩] [])⟩] [] }]⟩]
  distinct := by decide

theorem crateUniverse_opaque : ∀ d ∈ crateUniverse.declarations, ¬ d.2.IsTransparent := by decide

/-- What the texts of the unit apply to how many arguments. -/
def crateNames : List (String × Nat) :=
  [("number", 0), ("string", 0), ("Record", 2), ("Pair", 1), ("Tagged", 1), ("Crate", 1),
    ("Sealed", 0)]

theorem crateUniverse_applies {e : TypeExpr} {n : String} {count : Nat}
    (hd : crateUniverse.declaration? a = some d) (he : e ∈ d.texts)
    (happ : e.Applies d.typeParams n count) : a.unit = 0 ∧ (n, count) ∈ crateNames := by
  have hmem := mem_declarations_iff.2 hd
  simp only [declarations, crateUniverse] at hmem
  unfold crateNames
  fin_cases hmem
  all_goals refine ⟨rfl, ?_⟩
  · obtain rfl := List.mem_singleton.1 he
    grind
  · obtain rfl := List.mem_singleton.1 he
    grind
  · rcases List.mem_cons.1 he with rfl | he
    · grind
    · rcases List.mem_pair.1 he with rfl | rfl
      · grind
      · cases happ
        decide
  · obtain rfl := List.mem_singleton.1 he
    grind
  · obtain rfl := List.mem_singleton.1 he
    grind

theorem crateUniverse_supplies : crateUniverse.SuppliesArguments :=
  suppliesArguments_of_names (fun _ _ _ _ _ => crateUniverse_applies) (by decide)

theorem crateUniverse_plain (hd : crateUniverse.declaration? a = some d) (hne : a ≠ ⟨0, 4⟩) :
    crateUniverse.PlainTexts a d := by
  have hmem := mem_declarations_iff.2 hd
  simp only [declarations, crateUniverse] at hmem
  fin_cases hmem
  · trivial
  · refine ⟨⟨?_, ?_⟩, ?_⟩
    all_goals simp [inlines_generic crateUniverse_opaque]
  · refine ⟨⟨?_, ?_⟩, ?_⟩
    all_goals simp [inlines_generic crateUniverse_opaque]
  · refine ⟨⟨?_, ?_⟩, ?_⟩
    all_goals simp [inlines_generic crateUniverse_opaque]
  · exact absurd rfl hne

/-- The type takes over from none, and is no type parameter. -/
def CrateLeaf (s : Interner) (t : TypeId) : Prop :=
  ∃ f, s.data t = .form f ∧ (∀ symbol, f ≠ .param symbol) ∧
    ∀ xs, f ≠ .reference ⟨.declared ⟨0, 2⟩, xs⟩

/-- Only the instances of one interface take over from others, and these from none. -/
theorem crateUniverse_base {scope : Scope} {e : TypeExpr} {b : TypeId}
    (h : crateUniverse.interface? (s.data t) = some (scope, bases, members, indexes))
    (he : e ∈ bases) (hb : crateUniverse.Denotes s (.expr scope e) b) :
    (∃ xs, s.data t = .form (.reference ⟨.declared ⟨0, 2⟩, xs⟩)) ∧ CrateLeaf s b := by
  obtain ⟨a, d, xs, hdata, hd, hbody, rfl⟩ := exists_interface h
  have hmem := mem_declarations_iff.2 hd
  simp only [declarations, crateUniverse] at hmem
  fin_cases hmem
  · cases hbody
  · cases hbody
    cases he
  · cases hbody
    refine ⟨⟨xs, hdata⟩, ?_⟩
    have htagged : crateUniverse.find? "Tagged" 0 = some ⟨0, 1⟩ := by decide
    have hsealed : crateUniverse.find? "Sealed" 0 = some ⟨0, 4⟩ := by decide
    rcases List.mem_pair.1 he with rfl | rfl
    · rcases hb.data_of_reference rfl (by decide) htagged rfl (by decide) with hdata | ⟨args, hdata⟩
      · exact ⟨_, hdata, fun _ h => (by cases h), fun _ h => by cases h⟩
      · exact ⟨_, hdata, fun _ h => (by cases h), fun _ h => by cases h⟩
    · have hbound : Scope.bound? ⟨0, ["T"].zip xs⟩ "Sealed" [] = none := by
        refine List.find?_eq_none.2 fun p hp hname => ?_
        have hmem := (List.of_mem_zip hp).1
        rw [beq_iff_eq.1 hname] at hmem
        exact absurd hmem (by decide)
      cases hb with
      | name hb =>
        rcases hb.data_of_reference hbound (by decide) hsealed rfl (by decide) with
          hdata | ⟨args, hdata⟩
        · exact ⟨_, hdata, fun _ h => (by cases h), fun _ h => by cases h⟩
        · exact ⟨_, hdata, fun _ h => (by cases h), fun _ h => by cases h⟩
  · cases hbody
    cases he
  · cases hbody
    cases he

theorem CrateLeaf.not_base {scope : Scope} (ht : CrateLeaf s t) {e : TypeExpr} {b : TypeId}
    (h : crateUniverse.interface? (s.data t) = some (scope, bases, members, indexes))
    (he : e ∈ bases) : ¬ crateUniverse.Denotes s (.expr scope e) b := by
  intro hb
  obtain ⟨f, hf, -, hne⟩ := ht
  obtain ⟨⟨xs, hdata⟩, -⟩ := crateUniverse_base h he hb
  exact hne xs (TypeData.form.inj (hf.symm.trans hdata))

/-- There is no intersection in the table. -/
def crateFlat (s : Interner) : Bool :=
  s.slots.toList.all fun slot =>
    match slot.data with
    | .object _ (.intersection _) => false
    | _ => true

theorem not_intersection_of_crateFlat (hs : crateFlat s = true) {origin : Option Instance}
    {parts : List TypeId} : s.data t ≠ .object origin (.intersection parts) := by
  intro ht
  unfold Interner.data at ht
  split at ht
  · rename_i slot hslot
    have hmem : slot ∈ s.slots.toList := Array.mem_toList_iff.2 (Array.mem_of_getElem? hslot)
    have hall := List.all_eq_true.1 hs slot hmem
    rw [ht] at hall
    cases hall
  · cases ht

theorem crateUniverse_inherits (hs : crateFlat s = true) {b : TypeId}
    (h : crateUniverse.Inherits s t b) :
    (∃ xs, s.data t = .form (.reference ⟨.declared ⟨0, 2⟩, xs⟩)) ∧ CrateLeaf s b := by
  cases h with
  | base h he hb => exact crateUniverse_base h he hb
  | part ht => exact absurd ht (not_intersection_of_crateFlat hs)

theorem crateUniverse_acyclic (hs : crateFlat s = true) : ¬ crateUniverse.Cyclic s := by
  rintro ⟨t, hcycle⟩
  obtain ⟨b, hfirst, -⟩ := Relation.TransGen.head'_iff.1 hcycle
  obtain ⟨c, -, hlast⟩ := Relation.TransGen.tail'_iff.1 hcycle
  obtain ⟨⟨xs, ht⟩, -⟩ := crateUniverse_inherits hs hfirst
  obtain ⟨f, hf, -, hne⟩ := (crateUniverse_inherits hs hlast).2
  exact hne xs (TypeData.form.inj (hf.symm.trans ht))

/-- The interface without type parameters is left as it is, with its inline object. -/
theorem crateUniverse_sealed (hreach : crateUniverse.Reaches crateUniverse.start s)
    (hfind : s.find? (.reference ⟨.declared ⟨0, 4⟩, []⟩) = some ⟨12⟩)
    (hkept : s.members? ⟨12⟩ = some [⟨"seal", false, some ⟨13⟩⟩]) (hinline : IsInline s ⟨13⟩ = true)
    (ht : s.data t = .form (.reference ⟨.declared ⟨0, 4⟩, xs⟩)) (args : List TypeId) :
    crateUniverse.Unchanged s ⟨0, 2⟩ args .members t := by
  have hd : crateUniverse.declaration? ⟨0, 4⟩ = some _ := rfl
  obtain rfl : xs = [] := List.length_eq_zero_iff.1 (length_of_reference hreach hd ht)
  obtain ⟨V, rfl, hV⟩ := standing_of_reaches (not_circular crateUniverse_opaque) hreach
  obtain rfl : t = ⟨12⟩ := hV.prepared.naming.form_unique ht (Interner.data_of_find? hfind).2
  refine ⟨(Substitutes.reference rfl (fun h => by cases h) ht ht).finds hV, fun l hl x hx => ?_⟩
  cases hkept.symm.trans hl
  obtain rfl := List.mem_singleton.1 hx
  exact .bind (.optionMapM (.some (finds_inline hinline _ _))) (.pure _)

/-- Whatever the instances take over from is plain, or left as it is. -/
theorem crateUniverse_heritage (hs : crateFlat s = true) (args : List TypeId)
    (hsealed : ∀ b xs, s.data b = .form (.reference ⟨.declared ⟨0, 4⟩, xs⟩) →
      crateUniverse.Unchanged s ⟨0, 2⟩ args .members b)
    (ht : s.data t = .form (.reference ⟨.declared ⟨0, 2⟩, xs⟩)) (b : TypeId)
    (h : Relation.ReflTransGen (crateUniverse.Inherits s) t b) :
    crateUniverse.PlainBase s ⟨0, 2⟩ args b ∨ crateUniverse.Unchanged s ⟨0, 2⟩ args .members b := by
  by_cases hb : ∃ xs, s.data b = .form (.reference ⟨.declared ⟨0, 4⟩, xs⟩)
  · obtain ⟨xs, hb⟩ := hb
    exact .inr (hsealed b xs hb)
  have hform : ∃ f, s.data b = .form f ∧ ∀ symbol, f ≠ .param symbol := by
    rcases Relation.ReflTransGen.cases_tail h with rfl | ⟨c, -, hlast⟩
    · exact ⟨_, ht, fun _ h => by cases h⟩
    · obtain ⟨f, hf, hparam, -⟩ := (crateUniverse_inherits hs hlast).2
      exact ⟨f, hf, hparam⟩
  obtain ⟨f, hf, hparam⟩ := hform
  refine .inl ⟨?_, ?_, ?_, ?_⟩
  · exact fun position hb => hparam _ (TypeData.form.inj (hf.symm.trans hb))
  · exact fun origin key value hb => by cases hf.symm.trans hb
  · refine fun a d xs hdata hd => crateUniverse_plain hd ?_
    rintro rfl
    exact hb ⟨xs, hdata⟩
  · refine fun a d xs hnamed => ?_
    rw [hf] at hnamed
    cases hnamed

theorem crateUniverse_founded (ht : s.data t = .form (.reference ⟨.declared ⟨0, 2⟩, xs⟩)) :
    crateUniverse.Founded s t := by
  refine .intro fun busy s' b hext _ hb => .intro fun busy' s'' c hext' _ hc => ?_
  cases hb with
  | part hb => cases (hext.form ht).symm.trans hb
  | base h he hb =>
    obtain ⟨f, hf, hleaf⟩ := (crateUniverse_base h he hb).2
    have hf := hext'.form hf
    cases hc with
    | part hc => cases hf.symm.trans hc
    | base h he hc => exact absurd hc (CrateLeaf.not_base ⟨f, hf, hleaf⟩ h he)

theorem crateUniverse_mentions (id id' : DeclarationId) : ¬ crateUniverse.Mentions id id' := by
  rintro ⟨d, body, n, hd, hbody, hn, -, -⟩
  have hmem := mem_declarations_iff.2 hd
  simp only [declarations, crateUniverse] at hmem
  fin_cases hmem
  · cases hbody
    cases hn with
    | branch he hn =>
      rcases List.mem_pair.1 he with rfl | rfl
      · cases hn with
        | name h => exact h (List.mem_singleton_self _)
      · cases hn with
        | element hn =>
          cases hn with
          | name h => exact h (List.mem_singleton_self _)
  · cases hbody
  · cases hbody
  · cases hbody
  · cases hbody

theorem crateUniverse_expands : crateUniverse.Expands :=
  expands_of_mentions ⟨fun id => .intro id fun _ h => absurd h (crateUniverse_mentions _ _)⟩

/-- The members of the shelf are asked for. -/
def crateRun : Option Interner := do
  let (_, s) ← crateUniverse.exportedTypes 9 crateUniverse.start
  let (_, s) ← crateUniverse.members 9 ⟨4⟩ s
  pure s

theorem crateRun_reaches (h : crateRun = some s) :
    crateUniverse.Reaches crateUniverse.start s := by
  unfold crateRun at h
  obtain ⟨⟨ts, s₀⟩, hexported, h⟩ := Option.bind_eq_some_iff.1 h
  obtain ⟨⟨ms, s₁⟩, hmembers, h⟩ := Option.bind_eq_some_iff.1 h
  cases h
  have hsize : (crateUniverse.exportedTypes 9 crateUniverse.start).map (·.2.slots.size) =
      some 5 := by decide +kernel
  rw [hexported] at hsize
  have hhas : 4 < s₀.slots.size := by
    have hsize : s₀.slots.size = 5 := Option.some.inj hsize
    omega
  exact (Relation.ReflTransGen.single (.exported hexported)).tail (.members hhas hmembers)

/-- The members of the instance are those of the interface with the alias of numbers in place of
the type parameter: one that it has itself and two that it takes over. -/
theorem crateUniverse_substitutes : ∃ s l s₁ l' s₂, crateRun = some s ∧
    crateUniverse.list 9 .members ⟨3⟩ s = some (l, s₁) ∧
    crateUniverse.list 9 .members ⟨8⟩ s₁ = some (l', s₂) ∧ l.map (·.name) = ["items", "tag", "seal"] ∧
    Finds s₂ (fun fuel => l.mapM (crateUniverse.substituteItem ⟨0, 2⟩ [⟨6⟩] fuel .members)) l' ∧
    ∀ k : Listing, ∃ l s₁ l' s₂, ∃ n, ∀ fuel, n ≤ fuel →
      crateUniverse.list fuel k ⟨3⟩ s = some (l, s₁) ∧
        crateUniverse.list fuel k ⟨8⟩ s₁ = some (l', s₂) := by
  have hrun : (do
      let s ← crateRun
      let (l, s₁) ← crateUniverse.list 9 .members ⟨3⟩ s
      let (_, s₂) ← crateUniverse.list 9 .members ⟨8⟩ s₁
      pure ([s.find? (.param (.param ⟨0, 2⟩ 0)), s.find? (.reference ⟨.declared ⟨0, 2⟩, [⟨2⟩]⟩),
        s.find? (.reference ⟨.declared ⟨0, 2⟩, [⟨6⟩]⟩),
        s₂.find? (.reference ⟨.declared ⟨0, 2⟩, [⟨2⟩]⟩), s₂.find? (.reference ⟨.declared ⟨0, 4⟩, []⟩)],
        l.map (·.name), s₂.members? ⟨12⟩, crateFlat s₂, IsInline s₂ ⟨13⟩) : Option
          (List (Option TypeId) × List String × Option (List TypeMember) × Bool × Bool)) =
      some ([some ⟨2⟩, some ⟨3⟩, some ⟨8⟩, some ⟨3⟩, some ⟨12⟩], ["items", "tag", "seal"],
        some [⟨"seal", false, some ⟨13⟩⟩], true, true) := by
    decide +kernel
  obtain ⟨s, hs, hrun⟩ := Option.bind_eq_some_iff.1 hrun
  obtain ⟨⟨l, s₁⟩, hlist, hrun⟩ := Option.bind_eq_some_iff.1 hrun
  obtain ⟨⟨l', s₂⟩, hlist', hrun⟩ := Option.bind_eq_some_iff.1 hrun
  have hrun := Option.some.inj hrun
  simp only [Prod.mk.injEq, List.cons.injEq, and_true] at hrun
  obtain ⟨⟨hparam, ht, ht', ht₂, hsealed⟩, hnames, hseal, hflat, hinline⟩ := hrun
  have ht := (Interner.data_of_find? ht).2
  have ht' := (Interner.data_of_find? ht').2
  have hparams : s.Completes ⟨0, 2⟩ 1 [] [⟨2⟩] :=
    ⟨[⟨2⟩], rfl, .cons (Interner.data_of_find? hparam).2 .nil⟩
  have hd : crateUniverse.declaration? ⟨0, 2⟩ = some _ := rfl
  have hsubstitute := instances_substitute (crateRun_reaches hs) (not_circular crateUniverse_opaque)
    crateUniverse_supplies hd rfl (crateUniverse_plain hd (by decide)).1 ht hparams ht'
  refine ⟨s, l, s₁, l', s₂, hs, hlist, hlist', hnames, ?_, fun k => ?_⟩
  · have hhas : s.Has ⟨3⟩ := Interner.has_of_data_ne (by rw [ht]; exact fun h => by cases h)
    have hhas' : s.Has ⟨8⟩ := Interner.has_of_data_ne (by rw [ht']; exact fun h => by cases h)
    obtain ⟨hreach₁, -, hgrows, -⟩ := list_keeps (crateRun_reaches hs) hhas hlist
    obtain ⟨hreach, -⟩ := list_keeps hreach₁ (hgrows.has hhas') hlist'
    refine ((hsubstitute .members).1 9 l s₁ 9 l' s₂ hlist hlist').2
      (fun h => crateUniverse_acyclic hflat h.cyclic) fun b hb => ?_
    exact crateUniverse_heritage hflat _ (fun b xs hb => crateUniverse_sealed hreach hsealed hseal
      hinline hb _) (Interner.data_of_find? ht₂).2 b hb
  · exact (hsubstitute k).2 crateUniverse_expands (crateUniverse_founded ht)
      (crateUniverse_founded ht')

/-! ## Instances that list something else

One interface for each way in which what is taken over can differ.  Over a record the type
parameter decides which members there are.  An inline object in a base that the arguments
touch is resolved anew.  And of types that take over from each other, whichever is asked
first lists less. -/

/-- The instance of an interface lists members that are not what substitution makes of those of the
declared type, although the types of the own items have no inline object or intersection. -/
def ListsOtherwise (u : Universe) (s : Interner) (id : DeclarationId) (args : List TypeId)
    (t t' : TypeId) : Prop :=
  ∃ d bases members indexes params l s₁ l' s₂,
    (u.declaration? id = some d ∧ d.body = .interface bases members indexes ∧
      u.PlainItems id.unit d.typeParams members indexes) ∧
    (s.data t = .form (.reference ⟨.declared id, params⟩) ∧
      s.Completes id d.typeParams.length [] params ∧
      s.data t' = .form (.reference ⟨.declared id, args⟩)) ∧
    (∃ fuel, u.members fuel t s = some (l, s₁) ∧ u.members fuel t' s₁ = some (l', s₂)) ∧
    ¬ Finds s₂ (fun fuel => l.mapM (u.substituteItem id args fuel .members)) l'

/-- One unit: generic interfaces that take over from a record over the type parameter, from an
interface with an inline object, and from each other. -/
def keyedUniverse : Universe where
  units := [⟨"keyed.ts", [
    { name := "Keyed", exported := true, line := none, typeParams := ["T"]
      body := .interface [.generic "Record" [.name "T", .name "number"]] [] [] },
    { name := "Place", exported := false, line := none, typeParams := ["T"]
      body := .interface [] [⟨"at", false, false,
        some (.object [⟨"x", false, false, some (.name "number")⟩] [])⟩] [] },
    { name := "Pinned", exported := true, line := none, typeParams := ["T"]
      body := .interface [.generic "Place" [.name "T"]] [] [] },
    { name := "Left", exported := true, line := none, typeParams := ["T"]
      body := .interface [.generic "Right" [.name "T"]]
        [⟨"left", false, false, some (.name "T")⟩] [] },
    { name := "Right", exported := true, line := none, typeParams := ["T"]
      body := .interface [.generic "Left" [.name "T"]]
        [⟨"right", false, false, some (.name "T")⟩] [] },
    { name := "Holder", exported := true, line := none, typeParams := []
      body := .interface [] [
        ⟨"keyed", false, false, some (.generic "Keyed" [.literal (.str "a")])⟩,
        ⟨"pinned", false, false, some (.generic "Pinned" [.literal (.str "a")])⟩,
        ⟨"left", false, false, some (.generic "Left" [.literal (.str "a")])⟩,
        ⟨"right", false, false, some (.generic "Right" [.literal (.str "a")])⟩] [] }]⟩]
  distinct := by decide

theorem keyedUniverse_opaque : ∀ d ∈ keyedUniverse.declarations, ¬ d.2.IsTransparent := by decide

/-- What the texts of the unit apply to how many arguments. -/
def keyedNames : List (String × Nat) :=
  [("number", 0), ("Record", 2), ("Keyed", 1), ("Place", 1), ("Pinned", 1), ("Left", 1),
    ("Right", 1)]

theorem keyedUniverse_applies {e : TypeExpr} {n : String} {count : Nat}
    (hd : keyedUniverse.declaration? a = some d) (he : e ∈ d.texts)
    (happ : e.Applies d.typeParams n count) : a.unit = 0 ∧ (n, count) ∈ keyedNames := by
  have hmem := mem_declarations_iff.2 hd
  simp only [declarations, keyedUniverse] at hmem
  unfold keyedNames
  fin_cases hmem
  all_goals refine ⟨rfl, ?_⟩
  · rcases List.mem_pair.1 he with rfl | rfl <;> grind
  · obtain rfl := List.mem_singleton.1 he
    grind
  · rcases List.mem_pair.1 he with rfl | rfl <;> grind
  · rcases List.mem_pair.1 he with rfl | rfl <;> grind
  · rcases List.mem_pair.1 he with rfl | rfl <;> grind
  · obtain rfl := List.mem_singleton.1 he
    grind

theorem keyedUniverse_expands : keyedUniverse.Expands := by
  refine expands_of_mentions ⟨fun id => .intro id fun id' h => ?_⟩
  obtain ⟨d, body, n, hd, hbody, -⟩ := h
  have hmem := mem_declarations_iff.2 hd
  simp only [declarations, keyedUniverse] at hmem
  fin_cases hmem <;> cases hbody

/-- The members of the holder and of its left one are asked for. -/
def keyedRun : Option Interner := do
  let (_, s) ← keyedUniverse.exportedTypes 9 keyedUniverse.start
  let (_, s) ← keyedUniverse.members 9 ⟨9⟩ s
  let (_, s) ← keyedUniverse.members 9 ⟨13⟩ s
  pure s

theorem keyedRun_reaches (h : keyedRun = some s) : keyedUniverse.Reaches keyedUniverse.start s := by
  unfold keyedRun at h
  obtain ⟨⟨ts, s₀⟩, hexported, h⟩ := Option.bind_eq_some_iff.1 h
  obtain ⟨⟨ms, s₁⟩, hmembers, h⟩ := Option.bind_eq_some_iff.1 h
  obtain ⟨⟨ms', s₂⟩, hmembers', h⟩ := Option.bind_eq_some_iff.1 h
  cases h
  have hsize : (do
      let (_, s) ← keyedUniverse.exportedTypes 9 keyedUniverse.start
      let (_, s₁) ← keyedUniverse.members 9 ⟨9⟩ s
      pure (decide (9 < s.slots.size ∧ 13 < s₁.slots.size)) : Option Bool) = some true := by
    decide +kernel
  rw [hexported, Option.bind_eq_bind, Option.bind_some] at hsize
  dsimp only at hsize
  rw [hmembers] at hsize
  obtain ⟨hhas, hhas'⟩ := of_decide_eq_true (Option.some.inj hsize)
  exact ((Relation.ReflTransGen.single (.exported hexported)).tail (.members hhas hmembers)).tail
    (.members hhas' hmembers')

/-- The members of the declared type and then those of the instance for the literal, if the types
are these, with the table that they leave behind. -/
def keyedLists (id : DeclarationId) (x t t' : TypeId) (s : Interner) :
    Option (List TypeMember × List TypeMember × Interner) := do
  let (l, s₁) ← keyedUniverse.members 9 t s
  let (l', s₂) ← keyedUniverse.members 9 t' s₁
  if s.find? (.param (.param id 0)) = some x ∧ s.find? (.reference ⟨.declared id, [x]⟩) = some t ∧
      s.find? (.reference ⟨.declared id, [⟨10⟩]⟩) = some t' then
    some (l, l', s₂)
  else none

theorem listsOtherwise_of_keyedLists {x : TypeId} {l l' : List TypeMember} {s₂ : Interner}
    (h : keyedLists id x t t' s = some (l, l', s₂)) (hd : keyedUniverse.declaration? id = some d)
    (hbody : d.body = .interface bases members indexes) (hcount : d.typeParams.length = 1)
    (hplain : keyedUniverse.PlainItems id.unit d.typeParams members indexes)
    (hne : ¬ Finds s₂
      (fun fuel => l.mapM (keyedUniverse.substituteItem id [⟨10⟩] fuel .members)) l') :
    keyedUniverse.ListsOtherwise s id [⟨10⟩] t t' := by
  unfold keyedLists at h
  obtain ⟨⟨l, s₁⟩, hlist, h⟩ := Option.bind_eq_some_iff.1 h
  obtain ⟨⟨l', s₂⟩, hlist', h⟩ := Option.bind_eq_some_iff.1 h
  dsimp only at h
  split at h
  · rename_i hfind
    obtain ⟨hparam, ht, ht'⟩ := hfind
    cases h
    refine ⟨d, bases, members, indexes, [x], l, s₁, l', s₂, ⟨hd, hbody, hplain⟩,
      ⟨(Interner.data_of_find? ht).2, ⟨[x], ?_, ?_⟩, (Interner.data_of_find? ht').2⟩,
      ⟨9, hlist, hlist'⟩, hne⟩
    · rw [List.take_nil, List.nil_append]
    · rw [hcount]
      exact .cons (Interner.data_of_find? hparam).2 .nil
  · cases h

/-- The instance lists something else if it lists another number of members. -/
theorem listsOtherwise_of_lengths {x : TypeId} {count count' : Nat}
    (h : (keyedLists id x t t' s).map (fun found => (found.1.length, found.2.1.length)) =
      some (count, count')) (hcounts : count' ≠ count)
    (hd : keyedUniverse.declaration? id = some d)
    (hbody : d.body = .interface bases members indexes) (hcount : d.typeParams.length = 1)
    (hplain : keyedUniverse.PlainItems id.unit d.typeParams members indexes) :
    keyedUniverse.ListsOtherwise s id [⟨10⟩] t t' := by
  obtain ⟨⟨l, l', s₂⟩, hlists, hlengths⟩ := Option.map_eq_some_iff.1 h
  obtain ⟨rfl, rfl⟩ := Prod.mk.inj hlengths
  exact listsOtherwise_of_keyedLists hlists hd hbody hcount hplain
    fun ⟨n, hn⟩ => hcounts (length_of_mapM (hn n (Nat.le_refl n)))

theorem keyedUniverse_no_items : keyedUniverse.PlainItems 0 ["T"] [] [] :=
  ⟨fun _ h => (by cases h), fun _ h => by cases h⟩

/-- A record over a literal has a member. -/
theorem keyedUniverse_keyed (hs : keyedRun = some s) :
    keyedUniverse.ListsOtherwise s ⟨0, 0⟩ [⟨10⟩] ⟨5⟩ ⟨11⟩ := by
  have hrun : (keyedRun.bind (keyedLists ⟨0, 0⟩ ⟨0⟩ ⟨5⟩ ⟨11⟩)).map (fun found =>
      (found.1.length, found.2.1.length)) = some (0, 1) := by decide +kernel
  rw [hs, Option.bind_some] at hrun
  exact listsOtherwise_of_lengths hrun (by decide) rfl rfl rfl keyedUniverse_no_items

/-- The inline object that the instance takes over is another one. -/
theorem keyedUniverse_pinned (hs : keyedRun = some s) :
    keyedUniverse.ListsOtherwise s ⟨0, 2⟩ [⟨10⟩] ⟨6⟩ ⟨12⟩ := by
  have hrun : ((keyedRun.bind (keyedLists ⟨0, 2⟩ ⟨2⟩ ⟨6⟩ ⟨12⟩)).map fun found =>
      (found.1, found.2.1, IsInline found.2.2 ⟨16⟩)) =
      some ([⟨"at", false, some ⟨16⟩⟩], [⟨"at", false, some ⟨18⟩⟩], true) := by decide +kernel
  rw [hs, Option.bind_some] at hrun
  obtain ⟨⟨l, l', s₂⟩, hlists, hfound⟩ := Option.map_eq_some_iff.1 hrun
  simp only [Prod.mk.injEq] at hfound
  obtain ⟨rfl, rfl, hinline⟩ := hfound
  refine listsOtherwise_of_keyedLists hlists rfl rfl rfl keyedUniverse_no_items fun h => ?_
  have hsame := h.unique (.mapM (.cons (.bind (.optionMapM (.some (finds_inline hinline _ _)))
    (.pure _)) .nil))
  revert hsame
  decide

/-- The instance has been listed while another one was under way, and the declared type was not. -/
theorem keyedUniverse_right (hs : keyedRun = some s) :
    keyedUniverse.ListsOtherwise s ⟨0, 4⟩ [⟨10⟩] ⟨8⟩ ⟨14⟩ := by
  have hrun : (keyedRun.bind (keyedLists ⟨0, 4⟩ ⟨4⟩ ⟨8⟩ ⟨14⟩)).map (fun found =>
      (found.1.length, found.2.1.length)) = some (2, 1) := by decide +kernel
  rw [hs, Option.bind_some] at hrun
  have hplain : keyedUniverse.PlainItems 0 ["T"] [⟨"right", false, false, some (.name "T")⟩] [] :=
    ⟨by simp [inlines_generic keyedUniverse_opaque], fun _ h => by cases h⟩
  exact listsOtherwise_of_lengths hrun (by decide) rfl rfl rfl hplain

/-- What an instance takes over may be something else, in a unit that supplies all arguments and in
which all aliases expand. -/
theorem keyedUniverse_lists_otherwise : keyedUniverse.SuppliesArguments ∧
    (∀ n, ¬ keyedUniverse.Circular n) ∧ keyedUniverse.Expands ∧
    ∃ s, keyedUniverse.Reaches keyedUniverse.start s ∧
      keyedUniverse.ListsOtherwise s ⟨0, 0⟩ [⟨10⟩] ⟨5⟩ ⟨11⟩ ∧
      keyedUniverse.ListsOtherwise s ⟨0, 2⟩ [⟨10⟩] ⟨6⟩ ⟨12⟩ ∧
      keyedUniverse.ListsOtherwise s ⟨0, 4⟩ [⟨10⟩] ⟨8⟩ ⟨14⟩ := by
  refine ⟨suppliesArguments_of_names (fun _ _ _ _ _ => keyedUniverse_applies) (by decide),
    not_circular keyedUniverse_opaque, keyedUniverse_expands, ?_⟩
  have hsome : keyedRun.isSome = true := by decide +kernel
  obtain ⟨s, hs⟩ := Option.isSome_iff_exists.1 hsome
  exact ⟨s, keyedRun_reaches hs, keyedUniverse_keyed hs, keyedUniverse_pinned hs,
    keyedUniverse_right hs⟩

end Universe
end TypedJson
