import TypedJson.Proofs.Instantiation
import TypedJson.Proofs.Linearization
/-!
# Lists with other arguments

Where the texts that a type lists and takes over from have no inline object or intersection
(`Universe.PlainBase`), the contents of what substitution makes of the type are those of the type
with the arguments in place of the type parameters (`Substitutes.contents`).  So its list is that of
the type with the arguments in place of the type parameters, if all that the type takes over from is
plain or left as it is (`finds_kept`).

A type that is taken over from may be touched by the arguments or not.  If it is touched, its
texts must be plain, since an inline object in them would be resolved anew and be another
object.  If it is not, its list is the same list, whatever is in it; `Unchanged` asks for
that of the type and of the items, as the types of the items could still be touched.
-/
namespace TypedJson
namespace Universe

/-- The types of the items have no inline object or intersection in them. -/
structure PlainItems (u : Universe) (unit : Nat) (params : List String) (members : List Member)
    (indexes : List Index) : Prop where
  member : ∀ m ∈ members, ∀ e, m.method = false → m.type = some e → ¬ u.Inlines unit params e
  index : ∀ x ∈ indexes, ¬ u.Inlines unit params x.key ∧ ¬ u.Inlines unit params x.value

/-- What the declaration lists and takes over has no inline object or intersection in it. -/
def PlainTexts (u : Universe) (id : DeclarationId) (d : Declaration) : Prop :=
  match d.body with
  | .interface bases members indexes =>
    u.PlainItems id.unit d.typeParams members indexes ∧
      ∀ e ∈ bases, ¬ u.Inlines id.unit d.typeParams e
  | .typeAlias (.object members indexes) => u.PlainItems id.unit d.typeParams members indexes
  | .typeAlias (.intersection parts) => ∀ e ∈ parts, ¬ u.Inlines id.unit d.typeParams e
  | _ => True

/-- The arguments change what the type lists in its types only: it is no type parameter, if it is a
record its key stays as it is, and if it is declared the texts are plain. -/
structure PlainBase (u : Universe) (s : Interner) (id : DeclarationId) (args : List TypeId)
    (t : TypeId) : Prop where
  param : ∀ position, s.data t ≠ .form (.param (.param id position))
  record : ∀ origin key value, s.data t = .object origin (.record key value) →
    u.Substitutes s id args key key
  reference : ∀ a d xs, s.data t = .form (.reference ⟨.declared a, xs⟩) →
    u.declaration? a = some d → u.PlainTexts a d
  named : ∀ a d xs, (s.data t).named? = some ⟨.declared a, xs⟩ → u.declaration? a = some d →
    u.PlainTexts a d

/-- The arguments leave the type as it is, and all that is listed for it. -/
structure Unchanged (u : Universe) (s : Interner) (id : DeclarationId) (args : List TypeId)
    (k : Listing) (t : TypeId) : Prop where
  type : Finds s (fun fuel => u.substitute id args fuel t) t
  items : ∀ l, s.kept? k t = some l → ∀ x ∈ l,
    Finds s (fun fuel => u.substituteItem id args fuel k x) x

/-- How many items of a list the texts say. -/
def textCount (members : List Member) (indexes : List Index) : Listing → Nat
  | .members => members.length
  | .indexes => indexes.length

/-- The types of the items are formed. -/
structure FormedItems (u : Universe) (scope : Scope) (members : List Member)
    (indexes : List Index) : Prop where
  member : ∀ m ∈ members, ∀ e, m.method = false → m.type = some e →
    u.Formed scope.unit (scope.params.map (·.1)) e
  index : ∀ x ∈ indexes, u.Formed scope.unit (scope.params.map (·.1)) x.key ∧
    u.Formed scope.unit (scope.params.map (·.1)) x.value

/-- The second contents are the first ones with the arguments in place of the type parameters. -/
inductive SubstitutesContents (u : Universe) (s : Interner) (id : DeclarationId)
    (args : List TypeId) : Contents TypeId → Contents TypeId → Prop
  | text {unit params params' bases members indexes}
    (hscope : ScopesAlike (u.Substitutes s id args) ⟨unit, params⟩ ⟨unit, params'⟩)
    (hitems : u.FormedItems ⟨unit, params⟩ members indexes)
    (hbases : ∀ e ∈ bases, u.Formed unit (params.map (·.1)) e) :
    SubstitutesContents u s id args (.text unit params bases members indexes)
      (.text unit params' bases members indexes)
  | parts {xs xs'} (h : List.Forall₂ (u.Substitutes s id args) xs xs') :
    SubstitutesContents u s id args (.parts xs) (.parts xs')
  | record {key value value'} (hkey : u.Substitutes s id args key key)
    (h : u.Substitutes s id args value value') :
    SubstitutesContents u s id args (.record key value) (.record key value')
  | nothing : SubstitutesContents u s id args .nothing .nothing

variable {u : Universe} {s s' : Interner} {V : NamedTable} {id a : DeclarationId} {d : Declaration}
  {t t' : TypeId} {args xs xs' : List TypeId} {k : Listing} {bases : List TypeExpr}
  {members : List Member} {indexes : List Index}

/-! ## Items

For the items of a list substitution goes into their types and leaves names and flags alone,
so merging, which goes by names, commutes with it. -/

section Items

variable {scope scope' : Scope}

theorem TextDenotes.length_eq {own : List k.Item}
    (h : u.TextDenotes s scope members indexes k own) :
    own.length = textCount members indexes k := by
  cases k with
  | members => exact (List.Forall₂.length_eq h).symm
  | indexes => exact (List.Forall₂.length_eq h).symm

theorem substitutesItem_of_member {m : Member} {x x' : TypeMember}
    (hx : u.MemberDenotes s scope m x) (hx' : u.MemberDenotes s scope' m x')
    (h : ∀ e, m.method = false → m.type = some e → ∀ {y y'}, u.Denotes s (.expr scope e) y →
      u.Denotes s (.expr scope' e) y' → u.Substitutes s id args y y') :
    u.SubstitutesItem s id args .members x x' := by
  refine ⟨hx.name.trans hx'.name.symm, hx.optional.trans hx'.optional.symm, ?_⟩
  have htype := hx.type
  have htype' := hx'.type
  split at htype
  · rename_i hmethod hm
    rw [hmethod, hm] at htype'
    obtain ⟨y, hy, hdenotes⟩ := htype
    obtain ⟨y', hy', hdenotes'⟩ := htype'
    rw [hy, hy']
    exact .some (h _ hmethod hm hdenotes hdenotes')
  · rename_i hnone
    split at htype'
    · rename_i hmethod hm
      exact absurd hm (hnone _ hmethod)
    · rw [htype, htype']
      exact .none

theorem FormedItems.substitutes (hV : u.Standing V) (hcircular : ∀ n, ¬ u.Circular n)
    (hsupplies : u.SuppliesArguments)
    (hscope : ScopesAlike (u.Substitutes V.table id args) scope scope')
    (hitems : u.FormedItems scope members indexes) {own own' : List k.Item}
    (hown : u.TextDenotes V.table scope members indexes k own)
    (hown' : u.TextDenotes V.table scope' members indexes k own') :
    List.Forall₂ (u.SubstitutesItem V.table id args k) own own' := by
  have hone : ∀ {e}, u.Formed scope.unit (scope.params.map (·.1)) e → ∀ {y y'},
      u.Denotes V.table (.expr scope e) y → u.Denotes V.table (.expr scope' e) y' →
      u.Substitutes V.table id args y y' := fun he _ _ =>
    he.substitutes hV hcircular hsupplies hscope
  cases k with
  | members =>
    refine forall₂_of_left (forall₂_imp_mem hown fun m hm _ _ hx => And.intro hm hx) hown' ?_
    rintro m x x' ⟨hm, hx⟩ hx'
    exact substitutesItem_of_member hx hx' fun e hmethod htype =>
      hone (hitems.member m hm e hmethod htype)
  | indexes =>
    refine forall₂_of_left (forall₂_imp_mem hown fun m hm _ _ hx => And.intro hm hx) hown' ?_
    rintro m x x' ⟨hm, hx⟩ hx'
    obtain ⟨hkey, hvalue⟩ := hitems.index m hm
    exact ⟨hone hkey hx.key hx'.key, hone hvalue hx.value hx'.value⟩

theorem substitutes_recordItems {key value value' : TypeId} (hkey : u.Substitutes s id args key key)
    (h : u.Substitutes s id args value value') : List.Forall₂ (u.SubstitutesItem s id args k)
      (recordItems s key value k) (recordItems s key value' k) := by
  cases k with
  | members =>
    unfold recordItems
    rw [List.forall₂_map_left_iff, List.forall₂_map_right_iff, List.forall₂_same]
    exact fun _ _ => ⟨rfl, rfl, .some h⟩
  | indexes =>
    unfold recordItems
    cases literalKeys? s key with
    | some names => exact .nil
    | none => exact .cons ⟨hkey, h⟩ .nil

/-- Substitution finds the second item for the first one. -/
def FindsItem (u : Universe) (s : Interner) (id : DeclarationId) (args : List TypeId) (k : Listing)
    (x y : k.Item) : Prop := Finds s (fun fuel => u.substituteItem id args fuel k x) y

theorem FindsItem.name_eq {m m' : TypeMember} (h : u.FindsItem s id args .members m m') :
    m.name = m'.name := by
  obtain ⟨n, hrun⟩ := h
  obtain ⟨type, s', -, hpure⟩ := bind_eq_some.1 (hrun n (Nat.le_refl n))
  cases hpure
  rfl

theorem any_name_eq {n n' : String} (hn : n = n') {ms ms' : List TypeMember}
    (h : List.Forall₂ (u.FindsItem s id args .members) ms ms') :
    ms.any (·.name == n) = ms'.any (·.name == n') := by
  subst hn
  induction h with
  | nil => rfl
  | cons hx _ ih => rw [List.any_cons, List.any_cons, ih, hx.name_eq]

theorem FindsItem.mergeMembers {ms ms' more more' : List TypeMember}
    (h : List.Forall₂ (u.FindsItem s id args .members) ms ms')
    (hmore : List.Forall₂ (u.FindsItem s id args .members) more more') :
    List.Forall₂ (u.FindsItem s id args .members) (mergeMembers ms more)
      (mergeMembers ms' more') := by
  refine List.rel_foldl (P := List.Forall₂ (u.FindsItem s id args .members))
    (R := u.FindsItem s id args .members) (fun {out out'} hout {m m'} hm => ?_) h hmore
  rw [any_name_eq hm.name_eq hout]
  split
  · exact hout
  · exact List.rel_append hout (.cons hm .nil)

theorem FindsItem.join {lists lists' : List (List k.Item)} {own own' : List k.Item}
    (hlists : List.Forall₂ (List.Forall₂ (u.FindsItem s id args k)) lists lists')
    (hown : List.Forall₂ (u.FindsItem s id args k) own own') :
    List.Forall₂ (u.FindsItem s id args k) (k.join lists own) (k.join lists' own') := by
  cases k with
  | members =>
    exact List.rel_foldl (P := List.Forall₂ (u.FindsItem s id args .members))
      (R := List.Forall₂ (u.FindsItem s id args .members))
      (fun {_ _} hms {_ _} hmore => FindsItem.mergeMembers hms hmore) hown hlists
  | indexes => exact List.rel_append hown (List.rel_flatten hlists)

theorem finds_items (hV : u.Standing V) {l l' : List k.Item}
    (h : List.Forall₂ (u.SubstitutesItem V.table id args k) l l') :
    List.Forall₂ (u.FindsItem V.table id args k) l l' :=
  h.imp fun _ _ hx => hx.finds hV

end Items

/-! ## What declarations say

The contents of a declared type are read off its declaration, with a scope that has the
arguments. -/

section Texts

variable {e e' : TypeExpr}

theorem formed_of_text (hsupplies : u.SuppliesArguments) (hd : u.declaration? a = some d)
    (he : e ∈ d.texts) (hlen : xs.length = d.typeParams.length)
    (hpart : ∀ n count, e'.Applies d.typeParams n count → e.Applies d.typeParams n count)
    (hplain : ¬ u.Inlines a.unit d.typeParams e') :
    u.Formed a.unit ((d.scope a xs).params.map (·.1)) e' := by
  have hnames : (d.scope a xs).params.map (·.1) = d.typeParams :=
    List.map_fst_zip (Nat.le_of_eq hlen.symm)
  rw [hnames]
  exact ⟨hplain, fun n count id' d' happ => hsupplies a d e n count id' d' hd he (hpart n count happ)⟩

theorem PlainItems.formed (hplain : u.PlainItems a.unit d.typeParams members indexes)
    (hsupplies : u.SuppliesArguments) (hd : u.declaration? a = some d)
    (he : .object members indexes ∈ d.texts) (hlen : xs.length = d.typeParams.length) :
    u.FormedItems (d.scope a xs) members indexes := by
  refine ⟨fun m hm e hmethod htype => ?_, fun x hx => ⟨?_, ?_⟩⟩
  · exact formed_of_text hsupplies hd he hlen (fun n count happ => .member hm hmethod htype happ)
      (hplain.member m hm e hmethod htype)
  · exact formed_of_text hsupplies hd he hlen (fun n count happ => .key hx happ) (hplain.index x hx).1
  · exact formed_of_text hsupplies hd he hlen (fun n count happ => .value hx happ)
      (hplain.index x hx).2

theorem formed_bases (hsupplies : u.SuppliesArguments) (hd : u.declaration? a = some d)
    (hbody : d.body = .interface bases members indexes)
    (hplain : ∀ e ∈ bases, ¬ u.Inlines a.unit d.typeParams e)
    (hlen : xs.length = d.typeParams.length) (he : e ∈ bases) :
    u.Formed a.unit ((d.scope a xs).params.map (·.1)) e := by
  refine formed_of_text hsupplies hd (e := e) ?_ hlen (fun n count happ => happ) (hplain e he)
  rw [Declaration.texts, hbody]
  exact List.mem_cons_of_mem _ he

theorem formed_parts (hsupplies : u.SuppliesArguments) (hd : u.declaration? a = some d)
    {parts : List TypeExpr} (hbody : d.body = .typeAlias (.intersection parts))
    (hplain : ∀ e ∈ parts, ¬ u.Inlines a.unit d.typeParams e)
    (hlen : xs.length = d.typeParams.length) (he : e ∈ parts) :
    u.Formed a.unit ((d.scope a xs).params.map (·.1)) e := by
  refine formed_of_text hsupplies hd (e := .intersection parts) ?_ hlen
    (fun n count happ => .part he happ) (hplain e he)
  rw [Declaration.texts, hbody]
  exact List.mem_singleton_self _

theorem object_mem_texts (hbody : d.body = .interface bases members indexes) :
    .object members indexes ∈ d.texts := by
  rw [Declaration.texts, hbody]
  exact List.mem_cons_self

theorem contents_of_interface (hd : u.declaration? a = some d)
    (hbody : d.body = .interface bases members indexes) (xs : List TypeId) :
    u.contents (.form (.reference ⟨.declared a, xs⟩)) =
      .text a.unit (d.typeParams.zip xs) bases members indexes := by
  obtain ⟨name, exported, line, typeParams, body⟩ := d
  obtain rfl : body = .interface bases members indexes := hbody
  simp only [contents, interface?, hd]

theorem contents_of_no_interface (hd : u.declaration? a = some d)
    (hbody : ∀ bases members indexes, d.body ≠ .interface bases members indexes)
    (xs : List TypeId) : u.contents (.form (.reference ⟨.declared a, xs⟩)) = .nothing := by
  obtain ⟨name, exported, line, typeParams, body⟩ := d
  cases body with
  | interface bases members indexes => exact absurd rfl (hbody bases members indexes)
  | typeAlias | enum => simp only [contents, interface?, hd]

end Texts

/-! ## What substitution makes of contents

Contents change in the handles that are in force, and the texts stay.  So the bases of the
second type are what substitution makes of the bases of the first, one by one, and
acyclicity is handed from the one to the other. -/

section Substitution

theorem Substitutes.functional (hV : u.Standing V) (h : u.Substitutes V.table id args t t')
    {t'' : TypeId} (h' : u.Substitutes V.table id args t t'') : t' = t'' :=
  (h.finds hV).unique (h'.finds hV)

theorem length_of_reference (h : u.Reaches u.start s) (hd : u.declaration? a = some d)
    (ht : s.data t = .form (.reference ⟨.declared a, xs⟩)) : xs.length = d.typeParams.length := by
  have hexplained := (grounded_of_reaches h).1.data t
  rw [ht] at hexplained
  exact hexplained d hd

theorem contents_of_reference (hV : u.Standing V) (hsupplies : u.SuppliesArguments)
    (hd : u.declaration? a = some d) (hplain : u.PlainTexts a d)
    (h : List.Forall₂ (u.Substitutes V.table id args) xs xs')
    (ht : V.table.data t = .form (.reference ⟨.declared a, xs⟩)) :
    u.SubstitutesContents V.table id args (u.contents (.form (.reference ⟨.declared a, xs⟩)))
      (u.contents (.form (.reference ⟨.declared a, xs'⟩))) := by
  have hlen := length_of_reference hV.reached hd ht
  by_cases hbody : ∃ bases members indexes, d.body = .interface bases members indexes
  · obtain ⟨bases, members, indexes, hbody⟩ := hbody
    unfold PlainTexts at hplain
    rw [hbody] at hplain
    rw [contents_of_interface hd hbody, contents_of_interface hd hbody]
    exact .text (.zip h d.typeParams)
      (hplain.1.formed hsupplies hd (object_mem_texts hbody) hlen)
      fun e he => formed_bases hsupplies hd hbody hplain.2 hlen he
  · have hnone : ∀ bases members indexes, d.body ≠ .interface bases members indexes :=
      fun bases members indexes heq => hbody ⟨bases, members, indexes, heq⟩
    rw [contents_of_no_interface hd hnone, contents_of_no_interface hd hnone]
    exact .nothing

/-- An instance of an alias is made of the text of it, in a scope with the arguments. -/
theorem contents_of_fills (hV : u.Standing V) (hcircular : ∀ n, ¬ u.Circular n)
    (hsupplies : u.SuppliesArguments) (hd : u.declaration? a = some d) {body : TypeExpr}
    (hbody : d.body = .typeAlias body) (hplain : u.PlainTexts a d)
    (hlen : xs.length = d.typeParams.length)
    (h : List.Forall₂ (u.Substitutes V.table id args) xs xs') {data data' : TypeData}
    (hdata : Fills u V.table ⟨.declared a, xs⟩ (d.scope a xs) body data)
    (hdata' : Fills u V.table ⟨.declared a, xs'⟩ (d.scope a xs') body data') :
    u.SubstitutesContents V.table id args (u.contents data) (u.contents data') := by
  have hscope : ScopesAlike (u.Substitutes V.table id args) (d.scope a xs) (d.scope a xs') :=
    .zip h d.typeParams
  unfold PlainTexts at hplain
  rw [hbody] at hplain
  cases hdata with
  | union =>
    cases hdata' with
    | union => exact .nothing
  | object =>
    cases hdata' with
    | object =>
      refine .text hscope (PlainItems.formed hplain hsupplies hd ?_ hlen) fun e he => by cases he
      rw [Declaration.texts, hbody]
      exact List.mem_singleton_self _
  | intersection hts =>
    cases hdata' with
    | intersection hts' =>
      exact .parts (substitutes_denoteAll hV hcircular hsupplies hscope
        (fun e he => formed_parts hsupplies hd hbody hplain hlen he) hts hts')

/-- **What a type lists for itself and takes over from changes in its types only.** -/
theorem Substitutes.contents (hV : u.Standing V) (hcircular : ∀ n, ¬ u.Circular n)
    (hsupplies : u.SuppliesArguments) (h : u.Substitutes V.table id args t t')
    (hbase : u.PlainBase V.table id args t) :
    u.SubstitutesContents V.table id args (u.contents (V.table.data t))
      (u.contents (V.table.data t')) := by
  have hsettled := settled_of_reaches hV.reached hcircular
  cases h with
  | param ht => exact absurd ht (hbase.param _)
  | @atom t f ht hf =>
    rw [ht]
    cases f with
    | intrinsic | literal | unresolved => exact .nothing
    | param | array | reference | union => cases hf
  | array _ ht ht' | union _ _ ht ht' =>
    rw [ht, ht']
    exact .nothing
  | @reference t t' symbol xs ys hlen h ht ht' =>
    rw [ht, ht']
    cases symbol with
    | builtin | param | anonymous => exact .nothing
    | declared a =>
      cases hd : u.declaration? a with
      | none =>
        simp only [Universe.contents, interface?, hd]
        exact .nothing
      | some d =>
        exact contents_of_reference hV hsupplies hd (hbase.reference a d xs ht hd)
          (List.forall₂_iff_zip.2 ⟨hlen, h⟩) ht
  | record hkey hvalue ht ht' =>
    have hsame := hbase.record _ _ _ ht
    obtain rfl := hkey.functional hV hsame
    rw [ht, ht']
    exact .record hkey hvalue
  | named hd hbody hnamed hcount hlen h ht ht' =>
    have hname := hV.prepared.kept.named?_of_mem hd hbody hnamed ht
    exact contents_of_fills hV hcircular hsupplies hd hbody (hbase.named _ _ _ hname hd)
      (hlen.trans hcount) (List.forall₂_iff_zip.2 ⟨hlen, h⟩)
      (hsettled.fills_of_mem hd hbody hnamed ht) (hsettled.fills_of_mem hd hbody hnamed ht')

theorem SubstitutesContents.own (hV : u.Standing V) (hcircular : ∀ n, ¬ u.Circular n)
    (hsupplies : u.SuppliesArguments) (h : u.SubstitutesContents V.table id args
      (u.contents (V.table.data t)) (u.contents (V.table.data t'))) {own own' : List k.Item}
    (hown : u.Own V.table k t own) (hown' : u.Own V.table k t' own') :
    List.Forall₂ (u.SubstitutesItem V.table id args k) own own' := by
  rw [own_iff_contents] at hown hown'
  generalize u.contents (V.table.data t) = contents at h hown
  generalize u.contents (V.table.data t') = contents' at h hown'
  cases h with
  | text hscope hitems _ => exact hitems.substitutes hV hcircular hsupplies hscope hown hown'
  | parts | nothing =>
    cases hown
    cases hown'
    exact .nil
  | record hkey h =>
    cases hown
    cases hown'
    exact substitutes_recordItems hkey h

theorem SubstitutesContents.heritage (hV : u.Standing V) (hcircular : ∀ n, ¬ u.Circular n)
    (hsupplies : u.SuppliesArguments) (h : u.SubstitutesContents V.table id args
      (u.contents (V.table.data t)) (u.contents (V.table.data t'))) {ts ts' : List TypeId}
    (hts : u.Bases V.table t ts) (hts' : u.Bases V.table t' ts') :
    List.Forall₂ (u.Substitutes V.table id args) ts ts' := by
  rw [bases_iff_contents] at hts hts'
  generalize u.contents (V.table.data t) = contents at h hts
  generalize u.contents (V.table.data t') = contents' at h hts'
  cases h with
  | text hscope _ hbases =>
    exact substitutes_denoteAll hV hcircular hsupplies hscope hbases hts hts'
  | parts h =>
    cases hts
    cases hts'
    exact h
  | record | nothing =>
    cases hts
    cases hts'
    exact .nil

/-- What the second type takes over from comes of something that the first one takes over from. -/
theorem SubstitutesContents.exists_inherits (hV : u.Standing V) (hcircular : ∀ n, ¬ u.Circular n)
    (hsupplies : u.SuppliesArguments) (h : u.SubstitutesContents V.table id args
      (u.contents (V.table.data t)) (u.contents (V.table.data t'))) {ts : List TypeId}
    (hts : u.Bases V.table t ts) {b' : TypeId} (hb' : u.Inherits V.table t' b') :
    ∃ b ∈ ts, u.Substitutes V.table id args b b' := by
  rw [bases_iff_contents] at hts
  rw [inherits_iff_contents] at hb'
  generalize u.contents (V.table.data t) = contents at h hts
  generalize u.contents (V.table.data t') = contents' at h hb'
  cases h with
  | text hscope _ hbases =>
    obtain ⟨e, he, hb'⟩ := hb'
    obtain ⟨b, hb, hdenotes⟩ := forall₂_mem_left hts he
    exact ⟨b, hb, (hbases e he).substitutes hV hcircular hsupplies hscope hdenotes hb'⟩
  | parts h =>
    cases hts
    exact forall₂_mem_right h hb'
  | record | nothing => exact hb'.elim

/-- What substitution makes of the type takes over from none that takes over from itself, if that is
so of the type: by induction on what this takes over from. -/
theorem Substitutes.not_cyclicFrom (hV : u.Standing V) (hcircular : ∀ n, ¬ u.Circular n)
    (hsupplies : u.SuppliesArguments) (hacyclic : ¬ u.CyclicFrom V.table t)
    (hbase : ∀ b, Relation.ReflTransGen (u.Inherits V.table) t b →
      u.PlainBase V.table id args b ∨ u.Unchanged V.table id args k b)
    (x : u.Heritage V.table t) : ∀ {x' : TypeId} {l : List k.Item}, V.table.kept? k x = some l →
      u.Substitutes V.table id args x x' → ¬ u.CyclicFrom V.table x' := by
  have hwoven := woven_of_reaches hV.reached
  induction x using (inherits_wellFounded hacyclic).induction with
  | _ x ih =>
    intro x' l hl h hcyclic'
    have hx : ¬ u.CyclicFrom V.table x := fun ⟨b, hto, hcycle⟩ =>
      hacyclic ⟨b, x.2.2.trans hto, hcycle⟩
    rcases hbase x x.2.2 with hplain | hsame
    · obtain ⟨own, bases, lists, -, hbases, hlists, -⟩ := hwoven.madeOf hl hx
      obtain ⟨b', hinherits', hb'⟩ := hcyclic'.exists_inherits
      have hcontents := h.contents hV hcircular hsupplies hplain
      obtain ⟨b, hmem, hsub⟩ := hcontents.exists_inherits hV hcircular hsupplies hbases hinherits'
      obtain ⟨l, -, hl, -⟩ := forall₂_mem_left hlists hmem
      have hinherits : u.Inherits V.table x b := hbases.inherits hmem
      exact ih ⟨b, Interner.has_of_kept? hl, x.2.2.tail hinherits⟩ hinherits hl hsub hb'
    · rw [(h.finds hV).unique hsame.type] at hcyclic'
      exact hx hcyclic'

/-- **Lists change with the arguments in their types only**, by induction on what the first type
takes over from: the bases of a type lead to those of the other. -/
theorem finds_kept (hV : u.Standing V) (hcircular : ∀ n, ¬ u.Circular n)
    (hsupplies : u.SuppliesArguments) (hacyclic : ¬ u.CyclicFrom V.table t)
    (hbase : ∀ b, Relation.ReflTransGen (u.Inherits V.table) t b →
      u.PlainBase V.table id args b ∨ u.Unchanged V.table id args k b)
    (x : u.Heritage V.table t) : ∀ {x' : TypeId} {l l' : List k.Item},
      u.Substitutes V.table id args x x' → V.table.kept? k x = some l →
      V.table.kept? k x' = some l' → List.Forall₂ (u.FindsItem V.table id args k) l l' := by
  have hwoven := woven_of_reaches hV.reached
  induction x using (inherits_wellFounded hacyclic).induction with
  | _ x ih =>
    intro x' l l' h hl hl'
    rcases hbase x x.2.2 with hplain | hsame
    · obtain ⟨own, bases, lists, hown, hbases, hlists, rfl⟩ := hwoven.madeOf hl fun ⟨b, hto, hcycle⟩ =>
        hacyclic ⟨b, x.2.2.trans hto, hcycle⟩
      obtain ⟨own', bases', lists', hown', hbases', hlists', rfl⟩ := hwoven.madeOf hl'
        (h.not_cyclicFrom hV hcircular hsupplies hacyclic hbase x hl)
      have hcontents := h.contents hV hcircular hsupplies hplain
      have hboth := hcontents.heritage hV hcircular hsupplies hbases hbases'
      refine FindsItem.join (List.forall₂_iff_zip.2 ⟨?_, fun {l l'} hll => ?_⟩)
        (finds_items hV (hcontents.own hV hcircular hsupplies hown hown'))
      · rw [← hlists.length_eq, ← hlists'.length_eq, hboth.length_eq]
      -- the lists at one place are those of the bases at that place
      · obtain ⟨b, hb, hb'⟩ := mem_zip_of_zip hlists.length_eq hll
        obtain ⟨b', hbb', hb'⟩ := mem_zip_of_zip hboth.length_eq.symm hb'
        have hinherits : u.Inherits V.table x b := hbases.inherits (List.of_mem_zip hb).1
        have hkept := ((List.forall₂_iff_zip.1 hlists).2 hb).1
        exact ih ⟨b, Interner.has_of_kept? hkept, x.2.2.tail hinherits⟩ hinherits
          ((List.forall₂_iff_zip.1 hboth.flip).2 hbb') hkept ((List.forall₂_iff_zip.1 hlists').2 hb').1
    · -- the type is one and the same, and so is its list
      obtain rfl := (h.finds hV).unique hsame.type
      obtain rfl : l = l' := Option.some.inj (hl.symm.trans hl')
      exact List.forall₂_same.2 (hsame.items l hl)

end Substitution

end Universe
end TypedJson
