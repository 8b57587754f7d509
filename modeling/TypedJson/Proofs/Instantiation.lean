import TypedJson.Proofs.Derivation
import TypedJson.Proofs.Substitution
/-!
# Texts with other arguments

A text that is resolved with arguments for its type parameters denotes what substitution makes of
the type that it denotes with the type parameters themselves (`substitutes_of_denotes`): it has to
give every declaration all its arguments, and to have no inline object or intersection, as these
get a new handle wherever they are resolved (`Universe.Formed`).

Both denotations are derivations in one table, over the same text and in different scopes.
The induction is on the first, and the second is analysed by what its phrase can denote.  At
a type parameter the two scopes decide; anywhere else both derivations take the same step,
since which rule applies depends on names only.
-/
namespace TypedJson

/-- The expression looks the name up with so many arguments, at once or later. -/
inductive TypeExpr.Applies (params : List String) : TypeExpr → String → Nat → Prop
  | name {n : String} (h : n ∉ params) : Applies params (.name n) n 0
  | generic {n : String} {args : List TypeExpr} (h : args = [] → n ∉ params) :
    Applies params (.generic n args) n args.length
  | argument {m n : String} {args : List TypeExpr} {e : TypeExpr} {count : Nat} (hm : ¬ IsReserved m)
    (he : e ∈ args) (h : Applies params e n count) : Applies params (.generic m args) n count
  | element {n : String} {e : TypeExpr} {count : Nat} (h : Applies params e n count) :
    Applies params (.array e) n count
  | branch {n : String} {branches : List TypeExpr} {e : TypeExpr} {count : Nat} (he : e ∈ branches)
    (h : Applies params e n count) : Applies params (.union branches) n count
  | part {n : String} {parts : List TypeExpr} {e : TypeExpr} {count : Nat} (he : e ∈ parts)
    (h : Applies params e n count) : Applies params (.intersection parts) n count
  | member {n : String} {members : List Member} {indexes : List Index} {m : Member}
    {e : TypeExpr} {count : Nat} (hm : m ∈ members) (hmethod : m.method = false)
    (htype : m.type = some e) (h : Applies params e n count) :
    Applies params (.object members indexes) n count
  | key {n : String} {members : List Member} {indexes : List Index} {x : Index} {count : Nat}
    (hx : x ∈ indexes) (h : Applies params x.key n count) :
    Applies params (.object members indexes) n count
  | value {n : String} {members : List Member} {indexes : List Index} {x : Index} {count : Nat}
    (hx : x ∈ indexes) (h : Applies params x.value n count) :
    Applies params (.object members indexes) n count

namespace Universe

/-- Every reference to a declaration gives it all its arguments. -/
def SuppliesArguments (u : Universe) : Prop :=
  ∀ id d e n count id' d', u.declaration? id = some d → e ∈ d.texts →
    e.Applies d.typeParams n count → ¬ IsReserved n → u.find? n id.unit = some id' →
    u.declaration? id' = some d' → d'.typeParams.length ≤ count

/-- The expression has an inline object or intersection in it, also after the expansion of
aliases. -/
inductive Inlines (u : Universe) : Nat → List String → TypeExpr → Prop
  | object {unit params members indexes} : Inlines u unit params (.object members indexes)
  | intersection {unit params parts} : Inlines u unit params (.intersection parts)
  | element {unit params e} (h : Inlines u unit params e) : Inlines u unit params (.array e)
  | branch {unit params branches e} (he : e ∈ branches) (h : Inlines u unit params e) :
    Inlines u unit params (.union branches)
  | argument {unit params n args e} (hn : ¬ IsReserved n) (he : e ∈ args)
    (h : Inlines u unit params e) : Inlines u unit params (.generic n args)
  | expanded {unit params n args id d body} (hparam : args = [] → n ∉ params)
    (hn : ¬ IsReserved n) (hfind : u.find? n unit = some id) (hd : u.declaration? id = some d)
    (hbody : d.body = .typeAlias body) (hopen : body.isStructure = false)
    (h : Inlines u id.unit d.typeParams body) : Inlines u unit params (.generic n args)
  | name {unit params n} (h : Inlines u unit params (.generic n [])) :
    Inlines u unit params (.name n)

/-! ## What the constructors say

Inversions of `Applies` and `Inlines` for each form of an expression, stated as equivalences
so that `simp` can decide them on a concrete unit. -/

end Universe

section Applies

variable {params : List String} {n m : String} {count : Nat} {e : TypeExpr} {es : List TypeExpr}

@[simp, grind =] theorem applies_name :
    (TypeExpr.name m).Applies params n count ↔ m = n ∧ count = 0 ∧ n ∉ params := by
  constructor
  · rintro ⟨⟩
    exact ⟨rfl, rfl, ‹_›⟩
  · rintro ⟨rfl, rfl, h⟩
    exact .name h

@[simp, grind =] theorem applies_generic : (TypeExpr.generic m es).Applies params n count ↔
    m = n ∧ count = es.length ∧ (es = [] → n ∉ params) ∨
      ¬ IsReserved m ∧ ∃ e ∈ es, e.Applies params n count := by
  constructor
  · intro happ
    cases happ with
    | generic h => exact .inl ⟨rfl, rfl, h⟩
    | argument hm he h => exact .inr ⟨hm, _, he, h⟩
  · rintro (⟨rfl, rfl, h⟩ | ⟨hm, e, he, h⟩)
    · exact .generic h
    · exact .argument hm he h

@[simp, grind =] theorem applies_array :
    (TypeExpr.array e).Applies params n count ↔ e.Applies params n count := by
  constructor
  · rintro ⟨⟩
    assumption
  · exact .element

@[simp, grind =] theorem applies_union :
    (TypeExpr.union es).Applies params n count ↔ ∃ e ∈ es, e.Applies params n count := by
  constructor
  · rintro ⟨⟩
    exact ⟨_, ‹_›, ‹_›⟩
  · rintro ⟨e, he, h⟩
    exact .branch he h

@[simp, grind =] theorem applies_literal {v : Literal} :
    (TypeExpr.literal v).Applies params n count ↔ False :=
  iff_false_intro fun happ => by cases happ

@[simp, grind =] theorem applies_object {members : List Member} {indexes : List Index} :
    (TypeExpr.object members indexes).Applies params n count ↔
      (∃ m ∈ members, m.method = false ∧ ∃ e, m.type = some e ∧ e.Applies params n count) ∨
      ∃ x ∈ indexes, x.key.Applies params n count ∨ x.value.Applies params n count := by
  constructor
  · intro happ
    cases happ with
    | member hm hmethod htype h => exact .inl ⟨_, hm, hmethod, _, htype, h⟩
    | key hx h => exact .inr ⟨_, hx, .inl h⟩
    | value hx h => exact .inr ⟨_, hx, .inr h⟩
  · rintro (⟨m, hm, hmethod, e, htype, h⟩ | ⟨x, hx, h | h⟩)
    · exact .member hm hmethod htype h
    · exact .key hx h
    · exact .value hx h

end Applies

namespace Universe

section Inlines

variable {u : Universe} {unit : Nat} {params : List String} {n : String} {e : TypeExpr}
  {es : List TypeExpr}

@[simp] theorem inlines_array :
    u.Inlines unit params (.array e) ↔ u.Inlines unit params e := by
  constructor
  · rintro ⟨⟩
    assumption
  · exact .element

@[simp] theorem inlines_union :
    u.Inlines unit params (.union es) ↔ ∃ e ∈ es, u.Inlines unit params e := by
  constructor
  · rintro ⟨⟩
    exact ⟨_, ‹_›, ‹_›⟩
  · rintro ⟨e, he, h⟩
    exact .branch he h

@[simp] theorem inlines_name :
    u.Inlines unit params (.name n) ↔ u.Inlines unit params (.generic n []) := by
  constructor
  · rintro ⟨⟩
    assumption
  · exact .name

theorem inlines_generic (h : ∀ d ∈ u.declarations, ¬ d.2.IsTransparent) :
    u.Inlines unit params (.generic n es) ↔ ¬ IsReserved n ∧ ∃ e ∈ es, u.Inlines unit params e := by
  constructor
  · intro hin
    cases hin with
    | argument hn he h => exact ⟨hn, _, he, h⟩
    | expanded _ _ _ hd hbody hopen =>
      exact absurd ⟨_, hbody, hopen⟩ (h _ (mem_declarations_iff.2 hd))
  · rintro ⟨hn, e, he, h⟩
    exact .argument hn he h

end Inlines

/-- The expression has no inline object or intersection, and gives every declaration all its
arguments. -/
structure Formed (u : Universe) (unit : Nat) (params : List String) (e : TypeExpr) : Prop where
  plain : ¬ u.Inlines unit params e
  supplied : ∀ n count id d, e.Applies params n count → ¬ IsReserved n →
    u.find? n unit = some id → u.declaration? id = some d → d.typeParams.length ≤ count

/-- The declaration is given all its arguments, and if it is expanded its text is formed. -/
def FormedInstance (u : Universe) (id : DeclarationId) (xs : List TypeId) : Prop :=
  ∀ d, u.declaration? id = some d → d.typeParams.length ≤ xs.length ∧
    ∀ body, d.body = .typeAlias body → body.isStructure = false →
      u.Formed id.unit d.typeParams body

def FormedPhrase (u : Universe) : Phrase → Prop
  | .expr scope e => u.Formed scope.unit (scope.params.map (·.1)) e
  | .applied unit n xs => ∀ id, u.find? n unit = some id → u.FormedInstance id xs
  | .declared id xs => u.FormedInstance id xs

variable {u : Universe} {s : Interner} {V : NamedTable} {id a : DeclarationId} {d : Declaration}
  {t t' : TypeId} {args xs xs' : List TypeId} {k : Listing} {unit : Nat} {params : List String}

namespace Formed

variable {e : TypeExpr} {es : List TypeExpr} {n : String}

theorem element (h : u.Formed unit params (.array e)) : u.Formed unit params e :=
  ⟨fun hin => h.plain (.element hin), fun n count id d he => h.supplied n count id d (.element he)⟩

theorem branch (h : u.Formed unit params (.union es)) (he : e ∈ es) : u.Formed unit params e :=
  ⟨fun hin => h.plain (.branch he hin),
    fun n count id d happ => h.supplied n count id d (.branch he happ)⟩

theorem argument (h : u.Formed unit params (.generic n es)) (hn : ¬ IsReserved n) (he : e ∈ es) :
    u.Formed unit params e :=
  ⟨fun hin => h.plain (.argument hn he hin),
    fun n count id d happ => h.supplied n count id d (.argument hn he happ)⟩

theorem name (h : u.Formed unit params (.name n)) : u.Formed unit params (.generic n []) := by
  refine ⟨fun hin => h.plain (.name hin), fun m count id d happ => ?_⟩
  cases happ with
  | generic hparam => exact h.supplied n 0 id d (.name (hparam rfl))
  | argument _ he => cases he

theorem formedInstance (hsupplies : u.SuppliesArguments) (h : u.Formed unit params (.generic n es))
    (hparam : es = [] → n ∉ params) (hn : ¬ IsReserved n) (hfind : u.find? n unit = some id)
    (hlen : es.length = xs.length) : u.FormedInstance id xs := by
  refine fun d hd => ⟨hlen ▸ h.supplied n _ id d (.generic hparam) hn hfind hd,
    fun body hbody hopen => ⟨fun hin => h.plain (.expanded hparam hn hfind hd hbody hopen hin),
      fun n count id' d' happ => hsupplies id d body n count id' d' hd ?_ happ⟩⟩
  rw [Declaration.texts, hbody]
  exact List.mem_singleton_self body

end Formed

/-! ## What expressions denote in either scope

Missing arguments would be filled in with the own parameters of the declaration that is
referred to, and these could be the ones that are substituted for; so every declaration has
to be given all of its arguments. -/

theorem Completes.eq_take {count : Nat} {given : List TypeId}
    (h : s.Completes id count given args) (hlen : count ≤ given.length) :
    args = given.take count := by
  obtain ⟨missing, rfl, hmissing⟩ := h
  rw [List.length_take_of_le hlen, List.drop_eq_nil_of_le (by simp)] at hmissing
  rw [List.forall₂_nil_left_iff.1 hmissing, List.append_nil]

theorem isAtom_of_wordForm? {n : String} {f : Form} (h : wordForm? n = some f) : f.IsAtom := by
  unfold wordForm? at h
  split at h
  · cases h
    trivial
  · split at h
    · cases h
      trivial
    · split at h
      · cases h
        trivial
      · cases h

section Denotes

theorem substitutes_atom (hV : u.Naming V) {f : Form} (hf : f.IsAtom)
    (ht : V.table.data t = .form f) (ht' : V.table.data t' = .form f) :
    u.Substitutes V.table id args t t' := by
  obtain rfl := hV.form_unique ht ht'
  exact .atom ht hf

theorem substitutes_argument (hV : u.Naming V) {i : Intrinsic} (hlen : xs.length = xs'.length)
    (h : ∀ {x x'}, (x, x') ∈ xs.zip xs' → u.Substitutes V.table id args x x') (position : Nat)
    {x x' : TypeId} (hx : V.table.IsArgument i xs[position]? x)
    (hx' : V.table.IsArgument i xs'[position]? x') : u.Substitutes V.table id args x x' := by
  rcases hx with hx | ⟨hnone, hx⟩
  · rcases hx' with hx' | ⟨hnone', -⟩
    · exact h (List.mem_iff_getElem?.2 ⟨position, List.getElem?_zip_eq_some.2 ⟨hx, hx'⟩⟩)
    · have hlt := (List.getElem?_eq_some_iff.1 hx).1
      rw [List.getElem?_eq_none_iff] at hnone'
      omega
  · rcases hx' with hx' | ⟨-, hx'⟩
    · have hlt := (List.getElem?_eq_some_iff.1 hx').1
      rw [List.getElem?_eq_none_iff] at hnone
      omega
    · exact substitutes_atom hV (f := .intrinsic i) trivial hx hx'

theorem substitutes_builtin (hV : u.Naming V) {b : Builtin} (hlen : xs.length = xs'.length)
    (h : ∀ {x x'}, (x, x') ∈ xs.zip xs' → u.Substitutes V.table id args x x')
    (ht : V.table.IsBuiltin b xs (V.table.data t))
    (ht' : V.table.IsBuiltin b xs' (V.table.data t')) : u.Substitutes V.table id args t t' := by
  cases b with
  | array =>
    obtain ⟨x, hx, hdata⟩ := ht
    obtain ⟨x', hx', hdata'⟩ := ht'
    exact .array (substitutes_argument hV hlen h 0 hx hx') hdata hdata'
  | date | pattern => exact .reference rfl (fun hx => by cases hx) ht ht'
  | record =>
    obtain ⟨key, value, hkey, hvalue, hdata⟩ := ht
    obtain ⟨key', value', hkey', hvalue', hdata'⟩ := ht'
    exact .record (substitutes_argument hV hlen h 0 hkey hkey')
      (substitutes_argument hV hlen h 1 hvalue hvalue') hdata hdata'

theorem substitutes_completes {zs zs' : List TypeId} (hd : u.declaration? a = some d)
    (hformed : u.FormedInstance a xs) (hlen : xs.length = xs'.length)
    (h : ∀ {x x'}, (x, x') ∈ xs.zip xs' → u.Substitutes s id args x x')
    (hzs : s.Completes a d.typeParams.length xs zs)
    (hzs' : s.Completes a d.typeParams.length xs' zs') :
    zs'.length = d.typeParams.length ∧ List.Forall₂ (u.Substitutes s id args) zs zs' := by
  have hcount := (hformed d hd).1
  rw [Completes.eq_take hzs hcount, Completes.eq_take hzs' (hlen ▸ hcount)]
  exact ⟨List.length_take_of_le (hlen ▸ hcount),
    List.forall₂_take _ (List.forall₂_iff_zip.2 ⟨hlen, h⟩)⟩

/-- **Phrases that match denote what substitution makes of each other** if they are about such
types.  The induction is on the way in which the first phrase denotes its type; an alias with a
handle of its own is formed anew of its arguments, so nothing is asked of its text. -/
theorem substitutes_of_denotes (hV : u.Standing V) (hcircular : ∀ n, ¬ u.Circular n)
    (hsupplies : u.SuppliesArguments) {p : Phrase} (ht : u.Denotes V.table p t) :
    ∀ {p' : Phrase} {t' : TypeId}, p.Matches p' → u.FormedPhrase p →
      (∀ {x x'}, (x, x') ∈ p.args.zip p'.args → u.Substitutes V.table id args x x') →
      u.Denotes V.table p' t' → u.Substitutes V.table id args t t' := by
  have hnaming := hV.prepared.naming
  have hsettled := settled_of_reaches hV.reached hcircular
  have hall : ∀ {scope' : Scope} {es : List TypeExpr} {xs xs' : List TypeId},
      es.length = xs.length → (∀ {e x}, (e, x) ∈ es.zip xs → ∀ {x'}, e ∈ es →
        u.Denotes V.table (.expr scope' e) x' → u.Substitutes V.table id args x x') →
      u.DenoteAll V.table scope' es xs' → ∀ {x x'}, (x, x') ∈ xs.zip xs' →
        u.Substitutes V.table id args x x' := by
    intro scope' es xs xs' hlen h hxs' x x' hx
    obtain ⟨e, he, he'⟩ := mem_zip_of_zip hlen hx
    exact h he (List.of_mem_zip he).1 ((List.forall₂_iff_zip.1 hxs').2 he')
  induction ht with
  | @param scope n es q hbound =>
    intro p' t' hp hformed hargs ht'
    cases hp with
    | expr hunit hparams =>
      obtain ⟨q', hbound', hmem⟩ := (bound?_zip hparams n es).2 q hbound
      rw [ht'.eq_of_bound hbound']
      exact hargs hmem
  | @word scope n es f t hbound hword hdata =>
    intro p' t' hp hformed hargs ht'
    cases hp with
    | expr hunit hparams =>
      have hbound' := (bound?_zip hparams n es).1 hbound
      exact substitutes_atom hnaming (isAtom_of_wordForm? hword) hdata
        (ht'.data_of_word hbound' hword)
  | @applied scope n es xs t hbound hword hlen hxs _ ihxs ih =>
    intro p' t' hp hformed hargs ht'
    cases hp with
    | expr hunit hparams =>
      have hreserved := not_isReserved hword
      have hbound' := (bound?_zip hparams n es).1 hbound
      obtain ⟨xs', hxs', happlied⟩ := ht'.exists_applied hbound' hword
      rw [← hunit] at happlied
      refine ih (.applied (hlen.symm.trans hxs'.length_eq)) (fun id' hfind =>
        Formed.formedInstance hsupplies hformed (not_mem_of_bound? hbound) hreserved hfind hlen)
        (hall hlen (fun he x' hmem hx' =>
          ihxs he (.expr hunit hparams) (Formed.argument hformed hreserved hmem) hargs hx') hxs')
        happlied
  | name _ ih =>
    intro p' t' hp hformed hargs ht'
    cases hp with
    | expr hunit hparams =>
      cases ht' with
      | name ht' => exact ih (.expr hunit hparams) (Formed.name hformed) hargs ht'
  | array _ hdata ih =>
    intro p' t' hp hformed hargs ht'
    cases hp with
    | expr hunit hparams =>
      cases ht' with
      | array hx' hdata' =>
        exact .array (ih (.expr hunit hparams) (Formed.element hformed) hargs hx') hdata hdata'
  | @union scope es xs t hlen hxs hdata ih =>
    intro p' t' hp hformed hargs ht'
    cases hp with
    | expr hunit hparams =>
      cases ht' with
      | union hlen' hxs' hdata' =>
        exact .union (hlen.symm.trans hlen') (hall hlen (fun he x' hmem hx' =>
          ih he (.expr hunit hparams) (Formed.branch hformed hmem) hargs hx')
          (List.forall₂_iff_zip.2 ⟨hlen', hxs'⟩)) hdata hdata'
  -- what is formed has no inline object and no intersection in it
  | intersection =>
    intro p' t' hp hformed
    exact absurd .intersection hformed.plain
  | object =>
    intro p' t' hp hformed
    exact absurd .object hformed.plain
  | literal hdata =>
    intro p' t' hp hformed hargs ht'
    cases hp with
    | expr =>
      cases ht' with
      | literal hdata' => exact substitutes_atom hnaming (f := .literal _) trivial hdata hdata'
  | declared hfind _ ih =>
    intro p' t' hp hformed hargs ht'
    cases hp with
    | applied hlen => exact ih (.declared hlen) (hformed _ hfind) hargs (ht'.declared_of_find? hfind)
  | builtin hfind hb hdata =>
    intro p' t' hp hformed hargs ht'
    cases hp with
    | applied hlen => exact substitutes_builtin hnaming hlen hargs hdata (ht'.isBuiltin hfind hb)
  | unknown hfind hb hdata =>
    intro p' t' hp hformed hargs ht'
    cases hp with
    | applied =>
      exact substitutes_atom hnaming (f := .unresolved _) trivial hdata
        (ht'.data_of_unknown hfind hb)
  | reference hd hkind hcompletes hdata =>
    intro p' t' hp hformed hargs ht'
    cases hp with
    | declared hlen =>
      obtain ⟨zs', hcompletes', hdata'⟩ :=
        ht'.exists_reference hd hkind (hsettled.resolved _ _ t' hd)
      obtain ⟨-, hzs⟩ := substitutes_completes hd hformed hlen hargs hcompletes hcompletes'
      obtain ⟨hlen, hzip⟩ := List.forall₂_iff_zip.1 hzs
      exact .reference hlen hzip hdata hdata'
  | named hd hbody hnamed hcompletes hinst =>
    intro p' t' hp hformed hargs ht'
    cases hp with
    | declared hlen =>
      obtain ⟨zs', hcompletes', hinst'⟩ :=
        ht'.exists_named hd hbody hnamed (hsettled.resolved _ _ t' hd)
      obtain ⟨hcount, hzs⟩ := substitutes_completes hd hformed hlen hargs hcompletes hcompletes'
      obtain ⟨hlen, hzip⟩ := List.forall₂_iff_zip.1 hzs
      exact .named hd hbody hnamed hcount hlen hzip hinst hinst'
  -- the text of the alias is read in the scope of its arguments, where the phrases match
  -- again
  | @transparent id' d body xs zs t hd hbody hopen hcompletes _ ih =>
    intro p' t' hp hformed hargs ht'
    cases hp with
    | declared hlen =>
      obtain ⟨zs', hcompletes', ht'⟩ :=
        ht'.exists_transparent hd hbody hopen (hsettled.resolved _ _ t' hd)
      obtain ⟨hcount, hzs⟩ := substitutes_completes hd hformed hlen hargs hcompletes hcompletes'
      obtain ⟨hmatch, hzip⟩ := matches_scope id' d hzs body
      have hparams : (d.scope id' zs).params.map (·.1) = d.typeParams :=
        List.map_fst_zip (Nat.le_of_eq (hzs.length_eq.trans hcount).symm)
      have hbody' : u.FormedPhrase (.expr (d.scope id' zs) body) := by
        show u.Formed id'.unit ((d.scope id' zs).params.map (·.1)) body
        rw [hparams]
        exact (hformed d hd).2 body hbody hopen
      exact ih hmatch hbody' hzip ht'
  -- no alias is left unresolved in a settled table
  | circular hd hdata =>
    intro p' t' hp hformed hargs ht'
    exact absurd hdata (hsettled.resolved _ _ _ hd)

section Scopes

variable {scope scope' : Scope}

theorem Formed.substitutes (hV : u.Standing V) (hcircular : ∀ n, ¬ u.Circular n)
    (hsupplies : u.SuppliesArguments) {e : TypeExpr}
    (hscope : ScopesAlike (u.Substitutes V.table id args) scope scope')
    (he : u.Formed scope.unit (scope.params.map (·.1)) e) (ht : u.Denotes V.table (.expr scope e) t)
    (ht' : u.Denotes V.table (.expr scope' e) t') : u.Substitutes V.table id args t t' :=
  substitutes_of_denotes hV hcircular hsupplies ht (.expr hscope.1 hscope.names) he
    (fun hx => (List.forall₂_iff_zip.1 hscope.types).2 hx) ht'

theorem substitutes_denoteAll (hV : u.Standing V) (hcircular : ∀ n, ¬ u.Circular n)
    (hsupplies : u.SuppliesArguments) {es : List TypeExpr} {ts ts' : List TypeId}
    (hscope : ScopesAlike (u.Substitutes V.table id args) scope scope')
    (hformed : ∀ e ∈ es, u.Formed scope.unit (scope.params.map (·.1)) e)
    (hts : u.DenoteAll V.table scope es ts) (hts' : u.DenoteAll V.table scope' es ts') :
    List.Forall₂ (u.Substitutes V.table id args) ts ts' :=
  forall₂_of_left (forall₂_imp_mem hts fun _ he _ _ hx => And.intro he hx) hts'
    fun _ _ _ ⟨he, hx⟩ hx' => (hformed _ he).substitutes hV hcircular hsupplies hscope hx hx'

end Scopes

end Denotes

end Universe
end TypedJson
