import TypedJson.Proofs.Assembly
import TypedJson.Proofs.Likeness
import TypedJson.Proofs.Unresolved
/-!
# What is denoted alike

An expression denotes alike types in scopes whose type parameters stand for alike types
(`Like.of_denotes`).  That is not a matter of the structure of the types alone, as aliases and
interfaces are expanded as one goes down; so likeness is shown for a relation at a time, up to
what is derived from it by resolution (`Universe.Derived`).

Given a relation between types, the types derived from it are those that matching phrases
denote, where the phrases are about related types.  If related types are built in the same
way of derived ones, then so are derived types, since a phrase is built in the way that its
text says.  So the derived relation is one as `Like` asks for, and nothing has to be
unrolled.
-/
namespace TypedJson
namespace Universe

variable {u : Universe} {s s' : Interner}

namespace Phrase

/-- The types that the phrase is about. -/
def args : Phrase → List TypeId
  | .expr scope _ => scope.params.map (·.2)
  | .applied _ _ xs => xs
  | .declared _ xs => xs

/-- The phrases are the same but for the types that they are about. -/
inductive Matches : Phrase → Phrase → Prop
  | expr {scope scope' : Scope} {e : TypeExpr} (hunit : scope.unit = scope'.unit)
    (hparams : scope.params.map (·.1) = scope'.params.map (·.1)) :
    Matches (.expr scope e) (.expr scope' e)
  | applied {unit : Nat} {n : String} {xs xs' : List TypeId} (hlen : xs.length = xs'.length) :
    Matches (.applied unit n xs) (.applied unit n xs')
  | declared {id : DeclarationId} {xs xs' : List TypeId} (hlen : xs.length = xs'.length) :
    Matches (.declared id xs) (.declared id xs')

end Phrase

/-- The types are related, or they are what phrases denote that match and are about types of
which this is true. -/
inductive Derived (u : Universe) (s s' : Interner) (R : TypeId → TypeId → Prop) :
    TypeId → TypeId → Prop
  | base {t t' : TypeId} (h : R t t') : Derived u s s' R t t'
  | plain {t t' : TypeId} {f : Form} (hf : (TypeData.form f).parts = [])
    (ht : s.data t = .form f) (ht' : s'.data t' = .form f) : Derived u s s' R t t'
  | denoted {p p' : Phrase} {t t' : TypeId} (hp : p.Matches p')
    (hargs : ∀ {x x'}, (x, x') ∈ p.args.zip p'.args → Derived u s s' R x x')
    (ht : u.Denotes s p t) (ht' : u.Denotes s' p' t') : Derived u s s' R t t'

/-- A table between questions in which no declared name stands for an unresolved type. -/
structure Settled (u : Universe) (s : Interner) : Prop where
  kept : u.Kept [] s
  resolved : ∀ id d t, u.declaration? id = some d → s.data t ≠ .form (.unresolved d.name)

theorem settled_of_reaches (h : u.Reaches u.start s) (hcircular : ∀ n, ¬ u.Circular n) :
    u.Settled s where
  kept := kept_of_reaches h
  resolved := by
    intro id d t hd hdata
    have hexplained := (grounded_of_reaches h).1.data t
    rw [hdata] at hexplained
    rcases hexplained with hunknown | hn
    · exact hunknown.notDeclared id d hd rfl
    · exact hcircular d.name hn

theorem find?_zip : ∀ {ps ps' : List (String × TypeId)} {n : String},
    ps.map (·.1) = ps'.map (·.1) →
      (ps.find? (·.1 == n) = none → ps'.find? (·.1 == n) = none) ∧
      ∀ p, ps.find? (·.1 == n) = some p → ∃ p', ps'.find? (·.1 == n) = some p' ∧
        (p.2, p'.2) ∈ (ps.map (·.2)).zip (ps'.map (·.2))
  | [], [], _, _ => ⟨fun _ => rfl, fun _ h => by cases h⟩
  | [], _ :: _, _, h => by cases h
  | _ :: _, [], _, h => by cases h
  | p :: ps, p' :: ps', n, h => by
    simp only [List.map_cons, List.cons.injEq] at h
    rw [List.find?_cons, List.find?_cons, ← h.1]
    cases hn : p.1 == n with
    | true =>
      refine ⟨fun h => (by cases h), fun q hq => ?_⟩
      cases hq
      exact ⟨p', rfl, List.mem_cons_self⟩
    | false =>
      obtain ⟨hnone, hsome⟩ := find?_zip (n := n) h.2
      exact ⟨hnone, fun q hq => (hsome q hq).imp fun q' hq' => hq'.imp_right (List.mem_cons_of_mem _)⟩

theorem bound?_zip {scope scope' : Scope}
    (h : scope.params.map (·.1) = scope'.params.map (·.1)) (n : String) (args : List TypeExpr) :
    (scope.bound? n args = none → scope'.bound? n args = none) ∧
    ∀ p, scope.bound? n args = some p → ∃ p', scope'.bound? n args = some p' ∧
      (p.2, p'.2) ∈ (scope.params.map (·.2)).zip (scope'.params.map (·.2)) := by
  unfold Scope.bound?
  cases args.isEmpty with
  | true => exact find?_zip h
  | false => exact ⟨fun _ => rfl, fun _ h => by cases h⟩

section Derivation

variable {R : TypeId → TypeId → Prop}

/-- Derived, and built in the same way of derived types. -/
def Both (u : Universe) (s s' : Interner) (R : TypeId → TypeId → Prop) (x x' : TypeId) : Prop :=
  Derived u s s' R x x' ∧ Alike (Derived u s s' R) (s.data x) (s'.data x')

theorem alike_plain {f : Form} (hf : (TypeData.form f).parts = []) {t t' : TypeId}
    (ht : s.data t = .form f) (ht' : s'.data t' = .form f) :
    Alike (Derived u s s' R) (s.data t) (s'.data t') := by
  rw [ht, ht']
  exact .plain hf

theorem both_plain {f : Form} (hf : (TypeData.form f).parts = []) {t t' : TypeId}
    (ht : s.data t = .form f) (ht' : s'.data t' = .form f) : Both u s s' R t t' :=
  ⟨.plain hf ht ht', alike_plain hf ht ht'⟩

/-! ## Parts of phrases

Arguments, builtins and the texts of aliases: for each of them, what is made of derived
types on both sides is made in the same way. -/

theorem both_completes {id : DeclarationId} {count : Nat} {given given' args args' : List TypeId}
    (hlen : given.length = given'.length)
    (h : ∀ {x x'}, (x, x') ∈ given.zip given' → Both u s s' R x x')
    (hargs : s.Completes id count given args) (hargs' : s'.Completes id count given' args') :
    List.Forall₂ (Both u s s' R) args args' := by
  obtain ⟨missing, rfl, hmissing⟩ := hargs
  obtain ⟨missing', rfl, hmissing'⟩ := hargs'
  have hgiven := List.forall₂_take count (List.forall₂_iff_zip.2 ⟨hlen, h⟩)
  rw [← hgiven.length_eq] at hmissing'
  refine List.rel_append hgiven ?_
  refine List.forall₂_iff_zip.2 ⟨hmissing.length_eq.symm.trans hmissing'.length_eq, fun hx => ?_⟩
  obtain ⟨position, hposition, hposition'⟩ := mem_zip_of_zip hmissing.length_eq hx
  exact both_plain rfl ((List.forall₂_iff_zip.1 hmissing).2 hposition)
    ((List.forall₂_iff_zip.1 hmissing').2 hposition')

theorem both_argument {i : Intrinsic} {xs xs' : List TypeId} (hlen : xs.length = xs'.length)
    (h : ∀ {x x'}, (x, x') ∈ xs.zip xs' → Both u s s' R x x') (position : Nat) {x x' : TypeId}
    (hx : s.IsArgument i xs[position]? x) (hx' : s'.IsArgument i xs'[position]? x') :
    Derived u s s' R x x' := by
  rcases hx with hx | ⟨hnone, hx⟩
  · rcases hx' with hx' | ⟨hnone', -⟩
    · exact (h (List.mem_iff_getElem?.2 ⟨position, by rw [List.getElem?_zip_eq_some]; exact ⟨hx, hx'⟩⟩)).1
    · have hlt := (List.getElem?_eq_some_iff.1 hx).1
      rw [List.getElem?_eq_none_iff] at hnone'
      omega
  · rcases hx' with hx' | ⟨-, hx'⟩
    · have hlt := (List.getElem?_eq_some_iff.1 hx').1
      rw [List.getElem?_eq_none_iff] at hnone
      omega
    · exact .plain rfl hx hx'

theorem alike_builtin {b : Builtin} {xs xs' : List TypeId} (hlen : xs.length = xs'.length)
    (h : ∀ {x x'}, (x, x') ∈ xs.zip xs' → Both u s s' R x x') {d d' : TypeData}
    (hd : s.IsBuiltin b xs d) (hd' : s'.IsBuiltin b xs' d') : Alike (Derived u s s' R) d d' := by
  cases b with
  | array =>
    obtain ⟨x, hx, rfl⟩ := hd
    obtain ⟨x', hx', rfl⟩ := hd'
    exact .array (both_argument hlen h 0 hx hx')
  | date =>
    obtain rfl := hd
    obtain rfl := hd'
    exact .plain rfl
  | pattern =>
    obtain rfl := hd
    obtain rfl := hd'
    exact .plain rfl
  | record =>
    obtain ⟨key, value, hkey, hvalue, rfl⟩ := hd
    obtain ⟨key', value', hkey', hvalue', rfl⟩ := hd'
    exact .record rfl (both_argument hlen h 0 hkey hkey') (both_argument hlen h 1 hvalue hvalue')

theorem matches_scope {Q : TypeId → TypeId → Prop} (id : DeclarationId) (d : Declaration)
    {args args' : List TypeId} (h : List.Forall₂ Q args args') (e : TypeExpr) :
    (Phrase.expr (d.scope id args) e).Matches (.expr (d.scope id args') e) ∧
    ∀ {x x'}, (x, x') ∈ ((d.scope id args).params.map (·.2)).zip
      ((d.scope id args').params.map (·.2)) → Q x x' := by
  have hscopes : ScopesAlike Q (d.scope id args) (d.scope id args') := .zip h d.typeParams
  exact ⟨.expr rfl hscopes.names, fun hx => (List.forall₂_iff_zip.1 hscopes.types).2 hx⟩

/-- The data is what the text of the alias says. -/
inductive Fills (u : Universe) (s : Interner) (inst : Instance) (scope : Scope) :
    TypeExpr → TypeData → Prop
  | union {es : List TypeExpr} {ts : List TypeId} (h : u.DenoteAll s scope es ts) :
    Fills u s inst scope (.union es) (.namedUnion inst ts)
  | object {members : List Member} {indexes : List Index} :
    Fills u s inst scope (.object members indexes) (.object (some inst) (.literal members indexes scope))
  | intersection {es : List TypeExpr} {ts : List TypeId} (h : u.DenoteAll s scope es ts) :
    Fills u s inst scope (.intersection es) (.object (some inst) (.intersection ts))

theorem Settled.fills (hs : u.Settled s) {t : TypeId} {inst : Instance} {body : TypeExpr}
    {scope : Scope} (hname : (s.data t).named? = some inst) (hbody : u.IsBody inst body scope) :
    Fills u s inst scope body (s.data t) := by
  have hmeant := hs.kept.meaningful.data t
  have hlawful := hs.kept.sound.lawful t
  generalize s.data t = d at hname hmeant hlawful
  rcases TypeData.cases_of_named? hname with ⟨ts, rfl⟩ | ⟨shape, rfl⟩
  · obtain ⟨scope', es, hbody', hts⟩ := hmeant
    obtain ⟨rfl, rfl⟩ := hbody.unique hbody'
    exact .union hts
  · cases shape with
    | literal members indexes scope' =>
      obtain ⟨rfl, rfl⟩ := hbody.unique hmeant
      exact .object
    | intersection ts =>
      obtain ⟨scope', es, hbody', hts⟩ := hmeant
      obtain ⟨rfl, rfl⟩ := hbody.unique hbody'
      exact .intersection hts
    | record key value =>
      obtain rfl : inst = ⟨.builtin .record, [key, value]⟩ := hlawful
      obtain ⟨_, _, hid, -⟩ := hbody
      cases hid

theorem Settled.fills_of_mem (hs : u.Settled s) {id : DeclarationId} {d : Declaration}
    {body : TypeExpr} (hd : u.declaration? id = some d) (hbody : d.body = .typeAlias body)
    (hnamed : body.isStructure = true) {args : List TypeId} {t : TypeId}
    (ht : (⟨.declared id, args⟩, t) ∈ s.instances) :
    Fills u s ⟨.declared id, args⟩ (d.scope id args) body (s.data t) := by
  have hinst : u.IsBody ⟨.declared id, args⟩ body (d.scope id args) := ⟨id, d, rfl, hd, hbody, rfl⟩
  rcases (hs.kept.meaningful.noted _ _ ht).named ⟨_, _, hinst, hnamed⟩ with hopen | hname
  · exact absurd hopen (hs.kept.closed t (hs.kept.sound.instances _ ht))
  · exact hs.fills hname hinst

section Scopes

variable {scope scope' : Scope} (hmatch : ∀ e, (Phrase.expr scope e).Matches (.expr scope' e))
  (h : ∀ {x x'}, (x, x') ∈ (scope.params.map (·.2)).zip (scope'.params.map (·.2)) →
    Derived u s s' R x x')

include hmatch h

theorem derived_denotes {e : TypeExpr} {t t' : TypeId} (ht : u.Denotes s (.expr scope e) t)
    (ht' : u.Denotes s' (.expr scope' e) t') : Derived u s s' R t t' :=
  .denoted (hmatch e) h ht ht'

theorem derived_denoteAll {es : List TypeExpr} {ts ts' : List TypeId}
    (hts : u.DenoteAll s scope es ts) (hts' : u.DenoteAll s' scope' es ts') :
    List.Forall₂ (Derived u s s' R) ts ts' := by
  refine List.forall₂_iff_zip.2 ⟨hts.length_eq.symm.trans hts'.length_eq, fun hx => ?_⟩
  obtain ⟨e, he, he'⟩ := mem_zip_of_zip hts.length_eq hx
  exact derived_denotes hmatch h ((List.forall₂_iff_zip.1 hts).2 he)
    ((List.forall₂_iff_zip.1 hts').2 he')

end Scopes

theorem alike_fills {id : DeclarationId} {d : Declaration} {args args' : List TypeId}
    (hargs : List.Forall₂ (Derived u s s' R) args args') {inst inst' : Instance} {body : TypeExpr}
    {data data' : TypeData} (h : Fills u s inst (d.scope id args) body data)
    (h' : Fills u s' inst' (d.scope id args') body data') : Alike (Derived u s s' R) data data' := by
  have hall : ∀ {es ts ts'}, u.DenoteAll s (d.scope id args) es ts →
      u.DenoteAll s' (d.scope id args') es ts' → List.Forall₂ (Derived u s s' R) ts ts' :=
    derived_denoteAll (fun e => (matches_scope id d hargs e).1)
      (matches_scope id d hargs (.name "")).2
  cases h with
  | union hts =>
    cases h' with
    | union hts' => exact .union rfl rfl (.of_forall₂ (hall hts hts'))
  | object =>
    cases h' with
    | object => exact .literal rfl (.zip hargs d.typeParams)
  | intersection hts =>
    cases h' with
    | intersection hts' => exact .intersection rfl (hall hts hts')

/-- **What phrases denote that match is built in the same way** if what they are about is.  The
induction is on the way in which the first phrase denotes its type; an alias with a handle of its
own ends it, as what is in there is derived in turn. -/
theorem alike_of_denotes (hs : u.Settled s) (hs' : u.Settled s') {p : Phrase} {t : TypeId}
    (ht : u.Denotes s p t) : ∀ {p' : Phrase} {t' : TypeId}, p.Matches p' →
      (∀ {x x'}, (x, x') ∈ p.args.zip p'.args → Both u s s' R x x') → u.Denotes s' p' t' →
      Alike (Derived u s s' R) (s.data t) (s'.data t') := by
  induction ht with
  | @param scope n args q hbound =>
    intro p' t' hp hargs ht'
    cases hp with
    | expr hunit hparams =>
      obtain ⟨q', hbound', hmem⟩ := (bound?_zip hparams n args).2 q hbound
      rw [ht'.eq_of_bound hbound']
      exact (hargs hmem).2
  | @word scope n args f t hbound hword hdata =>
    intro p' t' hp hargs ht'
    cases hp with
    | expr hunit hparams =>
      have hbound' := (bound?_zip hparams n args).1 hbound
      exact alike_plain (wordForm?_parts hword) hdata (ht'.data_of_word hbound' hword)
  | @applied scope n args xs t hbound hword hlen hxs _ ihxs ih =>
    intro p' t' hp hargs ht'
    cases hp with
    | expr hunit hparams =>
      have hbound' := (bound?_zip hparams n args).1 hbound
      obtain ⟨xs', hxs', happlied⟩ := ht'.exists_applied hbound' hword
      rw [← hunit] at happlied
      refine ih (.applied (hlen.symm.trans hxs'.length_eq)) (fun {x x'} hx => ?_) happlied
      obtain ⟨e, he, he'⟩ := mem_zip_of_zip hlen hx
      have hx' := (List.forall₂_iff_zip.1 hxs').2 he'
      exact ⟨derived_denotes (fun _ => .expr hunit hparams) (fun hx => (hargs hx).1) (hxs he) hx',
        ihxs he (.expr hunit hparams) hargs hx'⟩
  | name _ ih =>
    intro p' t' hp hargs ht'
    cases hp with
    | expr hunit hparams =>
      cases ht' with
      | name ht' => exact ih (.expr hunit hparams) hargs ht'
  | array hx hdata =>
    intro p' t' hp hargs ht'
    cases hp with
    | expr hunit hparams =>
      cases ht' with
      | array hx' hdata' =>
        rw [hdata, hdata']
        exact .array (derived_denotes (fun _ => .expr hunit hparams) (fun hx => (hargs hx).1) hx hx')
  -- the branches are derived one by one, in the order of the text
  | union hlen hxs hdata =>
    intro p' t' hp hargs ht'
    cases hp with
    | expr hunit hparams =>
      cases ht' with
      | union hlen' hxs' hdata' =>
        have hall := derived_denoteAll (fun _ => .expr hunit hparams) (fun hx => (hargs hx).1)
          (List.forall₂_iff_zip.2 ⟨hlen, hxs⟩) (List.forall₂_iff_zip.2 ⟨hlen', hxs'⟩)
        rw [hdata, hdata']
        exact .union rfl rfl (.of_forall₂ hall)
  | intersection hlen hxs hdata =>
    intro p' t' hp hargs ht'
    cases hp with
    | expr hunit hparams =>
      cases ht' with
      | intersection hlen' hxs' hdata' =>
        have hall := derived_denoteAll (fun _ => .expr hunit hparams) (fun hx => (hargs hx).1)
          (List.forall₂_iff_zip.2 ⟨hlen, hxs⟩) (List.forall₂_iff_zip.2 ⟨hlen', hxs'⟩)
        rw [hdata, hdata']
        exact .intersection rfl hall
  | literal hdata =>
    intro p' t' hp hargs ht'
    cases hp with
    | expr =>
      cases ht' with
      | literal hdata' => exact alike_plain rfl hdata hdata'
  | object hdata =>
    intro p' t' hp hargs ht'
    cases hp with
    | expr hunit hparams =>
      cases ht' with
      | object hdata' =>
        rw [hdata, hdata']
        exact .literal rfl (.of_zip hunit hparams fun hx => (hargs hx).1)
  | declared hfind _ ih =>
    intro p' t' hp hargs ht'
    cases hp with
    | applied hlen => exact ih (.declared hlen) hargs (ht'.declared_of_find? hfind)
  | builtin hfind hb hdata =>
    intro p' t' hp hargs ht'
    cases hp with
    | applied hlen => exact alike_builtin hlen hargs hdata (ht'.isBuiltin hfind hb)
  | unknown hfind hb hdata =>
    intro p' t' hp hargs ht'
    cases hp with
    | applied hlen => exact alike_plain rfl hdata (ht'.data_of_unknown hfind hb)
  -- missing arguments are filled up in the same way on both sides
  | reference hd hkind hcompletes hdata =>
    intro p' t' hp hargs ht'
    cases hp with
    | declared hlen =>
      obtain ⟨args', hcompletes', hdata'⟩ := ht'.exists_reference hd hkind (hs'.resolved _ _ t' hd)
      have hdone := both_completes hlen hargs hcompletes hcompletes'
      rw [hdata, hdata']
      exact .reference (hdone.imp fun _ _ h => h.1)
  | named hd hbody hnamed hcompletes hinst =>
    intro p' t' hp hargs ht'
    cases hp with
    | declared hlen =>
      obtain ⟨args', hcompletes', hinst'⟩ :=
        ht'.exists_named hd hbody hnamed (hs'.resolved _ _ t' hd)
      have hdone := both_completes hlen hargs hcompletes hcompletes'
      -- what the text of the alias denotes is derived in its turn, so nothing is asked of it here
      exact alike_fills (hdone.imp fun _ _ h => h.1) (hs.fills_of_mem hd hbody hnamed hinst)
        (hs'.fills_of_mem hd hbody hnamed hinst')
  | @transparent id d body xs args t hd hbody hopen hcompletes _ ih =>
    intro p' t' hp hargs ht'
    cases hp with
    | declared hlen =>
      obtain ⟨args', hcompletes', ht'⟩ :=
        ht'.exists_transparent hd hbody hopen (hs'.resolved _ _ t' hd)
      obtain ⟨hmatch, hzip⟩ :=
        matches_scope id d (both_completes hlen hargs hcompletes hcompletes') body
      exact ih hmatch hzip ht'
  | circular hd hdata => exact absurd hdata (hs.resolved _ _ _ hd)

theorem Derived.both (hs : u.Settled s) (hs' : u.Settled s')
    (hR : ∀ x x', R x x' → Alike (Derived u s s' R) (s.data x) (s'.data x')) {t t' : TypeId}
    (h : Derived u s s' R t t') : Both u s s' R t t' := by
  induction h with
  | base h => exact ⟨.base h, hR _ _ h⟩
  | plain hf ht ht' => exact both_plain hf ht ht'
  | denoted hp hargs ht ht' ih =>
    exact ⟨.denoted hp hargs ht ht', alike_of_denotes hs hs' ht hp ih ht'⟩

end Derivation

namespace Like

variable {t t' : TypeId}

/-- **Types are alike if they are derived from related ones**, and related ones are built in the
same way of derived ones. -/
theorem of_derived {R : TypeId → TypeId → Prop} (hs : u.Settled s) (hs' : u.Settled s')
    (hR : ∀ x x', R x x' → Alike (Derived u s s' R) (s.data x) (s'.data x'))
    (h : Derived u s s' R t t') : Like s s' t t' :=
  ⟨Derived u s s' R, fun _ _ hx => (hx.both hs hs' hR).2, h⟩

/-- **An expression denotes alike types in alike scopes.** -/
theorem of_denotes (hs : u.Settled s) (hs' : u.Settled s') {scope scope' : Scope} {e : TypeExpr}
    (hscope : ScopesAlike (Like s s') scope scope') (ht : u.Denotes s (.expr scope e) t)
    (ht' : u.Denotes s' (.expr scope' e) t') : Like s s' t t' := by
  refine of_derived (R := Like s s') hs hs' (fun x x' hx => hx.alike.mono fun _ _ => .base)
    (.denoted (.expr hscope.1 hscope.names) (fun hx => .base ?_) ht ht')
  exact (List.forall₂_iff_zip.1 hscope.types).2 hx

theorem of_denoteAll (hs : u.Settled s) (hs' : u.Settled s') {scope scope' : Scope}
    (hscope : ScopesAlike (Like s s') scope scope') {es : List TypeExpr} {ts ts' : List TypeId}
    (hts : u.DenoteAll s scope es ts) (hts' : u.DenoteAll s' scope' es ts') :
    List.Forall₂ (Like s s') ts ts' := by
  refine List.forall₂_iff_zip.2 ⟨hts.length_eq.symm.trans hts'.length_eq, fun hx => ?_⟩
  obtain ⟨e, he, he'⟩ := mem_zip_of_zip hts.length_eq hx
  exact of_denotes hs hs' hscope ((List.forall₂_iff_zip.1 hts).2 he) ((List.forall₂_iff_zip.1 hts').2 he')

end Like

end Universe
end TypedJson
