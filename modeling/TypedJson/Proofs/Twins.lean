import TypedJson.Proofs.Lockstep
import TypedJson.Proofs.Leaves
/-!
# Twins are alike

What the table says about a type is read off its parts, and the parts of twins are twins
(`Sides.Twin.data`).  So whatever a pass asks the table itself has the same answer for twins: they
are literals of the same value, have the same declaration, and their leaves are twins in the same
order.

A type has one name and a name has one shape, so twins are made in the same way; and their
parts are called the same, as the name of a type contains the names of its parts.  What is
asked of the table is a function of the data, so each answer below is read off `TwinData`.
-/
namespace TypedJson
namespace Sides

variable {u : Universe} {w : Sides u}

/-- The types are made in the same way from twins. -/
inductive TwinData (w : Sides u) : TypeData → TypeData → Prop
  | intrinsic {i : Intrinsic} : TwinData w (.form (.intrinsic i)) (.form (.intrinsic i))
  | literal {value : Literal} : TwinData w (.form (.literal value)) (.form (.literal value))
  | unresolved {n : String} : TwinData w (.form (.unresolved n)) (.form (.unresolved n))
  | param {symbol : Symbol} : TwinData w (.form (.param symbol)) (.form (.param symbol))
  | array {x x' : TypeId} (h : w.Twin x x') : TwinData w (.form (.array x)) (.form (.array x'))
  | reference {symbol : Symbol} {args args' : List TypeId} (h : w.Twins args args') :
    TwinData w (.form (.reference ⟨symbol, args⟩)) (.form (.reference ⟨symbol, args'⟩))
  | union {bs bs' : List TypeId} (h : w.Twins bs bs') :
    TwinData w (.form (.union bs)) (.form (.union bs'))
  | namedUnion {symbol : Symbol} {args args' bs bs' : List TypeId} (hargs : w.Twins args args')
    (h : w.Twins bs bs') : TwinData w (.namedUnion ⟨symbol, args⟩ bs) (.namedUnion ⟨symbol, args'⟩ bs')
  | named {symbol : Symbol} {args args' : List TypeId} {shape shape' : Shape}
    (hargs : w.Twins args args') :
    TwinData w (.object (some ⟨symbol, args⟩) shape) (.object (some ⟨symbol, args'⟩) shape')
  | inline {members members' : List Member} {indexes indexes' : List Index} {scope scope' : Scope} :
    TwinData w (.object none (.literal members indexes scope))
      (.object none (.literal members' indexes' scope'))
  | intersection {parts parts' : List TypeId} (h : w.Twins parts parts') :
    TwinData w (.object none (.intersection parts)) (.object none (.intersection parts'))

section Data

variable {S S' : DeclarationId → List TypeName → Prop} {N : TypeName} {d d' : TypeData}

/-! Names first: the instance that a type is named after has the arguments of the name, and what
is named after an alias is of the kind that the text of the alias says.  So it cannot be a
union on one side and an object on the other. -/

theorem twins_of_instance {i j : Instance} (hargs : ∀ x ∈ i.args, w.left.Has x)
    (hargs' : ∀ x ∈ j.args, w.right.Has x) (h : i.nameBy w.left.name = j.nameBy w.right.name) :
    ∃ symbol args args', i = ⟨symbol, args⟩ ∧ j = ⟨symbol, args'⟩ ∧ w.Twins args args' := by
  obtain ⟨symbol, args⟩ := i
  obtain ⟨symbol', args'⟩ := j
  obtain ⟨hsymbol, hnames⟩ := TypeName.named.inj h
  obtain rfl : symbol = symbol' := hsymbol
  exact ⟨symbol, args, args', rfl, rfl, twins_of_names hargs hargs' hnames.symm⟩

theorem twinData_of_forms {f g : Form} (hparts : ∀ x ∈ (TypeData.form f).parts, w.left.Has x)
    (hparts' : ∀ x ∈ (TypeData.form g).parts, w.right.Has x)
    (h : f.nameBy w.left.name = g.nameBy w.right.name) : w.TwinData (.form f) (.form g) := by
  cases f with
  | intrinsic i => cases g with | intrinsic => cases h; exact .intrinsic | _ => cases h
  | literal value => cases g with | literal => cases h; exact .literal | _ => cases h
  | unresolved n => cases g with | unresolved => cases h; exact .unresolved | _ => cases h
  | param symbol => cases g with | param => cases h; exact .param | _ => cases h
  | array x =>
    cases g with
    | array y =>
      exact .array ⟨hparts x List.mem_cons_self, hparts' y List.mem_cons_self,
        (TypeName.array.inj h).symm⟩
    | _ => cases h
  | reference i =>
    obtain ⟨symbol, args⟩ := i
    cases g with
    | reference j =>
      obtain ⟨symbol', args'⟩ := j
      obtain ⟨hsymbol, hnames⟩ := TypeName.reference.inj h
      obtain rfl : symbol = symbol' := hsymbol
      exact .reference (twins_of_names hparts hparts' hnames.symm)
    | _ => cases h
  | union bs =>
    cases g with
    | union bs' => exact .union (twins_of_names hparts hparts' (TypeName.union.inj h).symm)
    | _ => cases h

theorem not_union_of_stands {name : TypeId → TypeName} {origin : Instance} {shape : Shape}
    (h : u.Stands S name (.object (some origin) shape) N) {scope : NameScope}
    {es : List TypeExpr} : ¬ u.HasBody N scope (.union es) := by
  intro h'
  cases shape with
  | literal members indexes scope => cases (h.2.unique h').2
  | intersection parts =>
    obtain ⟨-, _, _, hbody, -⟩ := h
    cases (hbody.unique h').2
  | record key value =>
    obtain ⟨rfl, rfl⟩ := h
    cases h'

theorem twinData_of_named {origin origin' : Instance} (h : u.Stands S w.left.name d N)
    (h' : u.Stands S' w.right.name d' N) (hd : d.named? = some origin)
    (hd' : d'.named? = some origin') (hparts : ∀ x ∈ d.parts, w.left.Has x)
    (hparts' : ∀ x ∈ d'.parts, w.right.Has x)
    (heq : origin.nameBy w.left.name = origin'.nameBy w.right.name) : w.TwinData d d' := by
  rcases TypeData.cases_of_named? hd with ⟨bs, rfl⟩ | ⟨shape, rfl⟩
  · rcases TypeData.cases_of_named? hd' with ⟨bs', rfl⟩ | ⟨shape', rfl⟩
    · obtain ⟨symbol, args, args', rfl, rfl, hargs⟩ := twins_of_instance
        (fun x hx => hparts x (List.mem_append_left _ hx))
        (fun x hx => hparts' x (List.mem_append_left _ hx)) heq
      exact .namedUnion hargs (twins_of_names (fun x hx => hparts x (List.mem_append_right _ hx))
        (fun x hx => hparts' x (List.mem_append_right _ hx))
        (h'.2.unique (fun _ _ h => TypeExpr.union.inj h) h.2))
    · obtain ⟨-, scope, es, hbody, -⟩ := h
      exact absurd hbody (not_union_of_stands h')
  · rcases TypeData.cases_of_named? hd' with ⟨bs', rfl⟩ | ⟨shape', rfl⟩
    · obtain ⟨-, scope, es, hbody, -⟩ := h'
      exact absurd hbody (not_union_of_stands h)
    · obtain ⟨symbol, args, args', rfl, rfl, hargs⟩ := twins_of_instance
        (fun x hx => hparts x (List.mem_append_left _ hx))
        (fun x hx => hparts' x (List.mem_append_left _ hx)) heq
      exact .named hargs

theorem twinData_of_stands (h : u.Stands S w.left.name d N) (h' : u.Stands S' w.right.name d' N)
    (hopen : d ≠ .reserved) (hopen' : d' ≠ .reserved) (hparts : ∀ x ∈ d.parts, w.left.Has x)
    (hparts' : ∀ x ∈ d'.parts, w.right.Has x) : w.TwinData d d' := by
  rcases h.name_cases hopen with ⟨f, rfl, rfl⟩ | ⟨origin, hd, rfl⟩ |
    ⟨members, indexes, scope, p, rfl, rfl⟩ | ⟨parts, p, rfl, rfl⟩
  · obtain ⟨g, rfl, heq⟩ := h'.exists_form
    exact twinData_of_forms hparts hparts' heq
  · obtain ⟨origin', hd', heq⟩ := h'.exists_named hopen'
    exact twinData_of_named h h' hd hd' hparts hparts' heq
  · obtain ⟨members', indexes', scope', rfl⟩ := h'.exists_inline
    exact .inline
  · obtain ⟨parts', rfl, heq⟩ := h'.exists_intersection
    exact .intersection (twins_of_names hparts hparts' heq.symm)

end Data

variable {t t' : TypeId}

/-- **Twins are made in the same way from twins.** -/
theorem Twin.data (ht : w.Twin t t') : w.TwinData (w.left.table.data t) (w.right.table.data t') := by
  have hleft := w.left_standing.prepared
  have hright := w.right_standing.prepared
  have hstands := hright.naming.stands t' ht.right
  rw [ht.name] at hstands
  exact twinData_of_stands (hleft.naming.stands t ht.left) hstands (hleft.kept.closed t ht.left)
    (hright.kept.closed t' ht.right) (hleft.naming.parts t ht.left) (hright.naming.parts t' ht.right)

/-! ## What the table says

The answers are equal where they do not mention handles, and twins where they do. -/

variable {d d' : TypeData}

theorem TwinData.intrinsic? (h : w.TwinData d d') : d'.intrinsic? = d.intrinsic? := by
  cases h with
  | _ => rfl

theorem TwinData.literal? (h : w.TwinData d d') : d'.literal? = d.literal? := by
  cases h with
  | _ => rfl

theorem TwinData.union? (h : w.TwinData d d') : Option.Rel w.Twins d.union? d'.union? := by
  cases h with
  | union h => exact .some h
  | namedUnion _ h => exact .some h
  | _ => exact .none

theorem TwinData.element? (h : w.TwinData d d') : Option.Rel w.Twin d.element? d'.element? := by
  cases h with
  | array h => exact .some h
  | _ => exact .none

theorem TwinData.arguments (h : w.TwinData d d') : w.Twins d.arguments d'.arguments := by
  cases h with
  | array h => exact .cons h .nil
  | reference h => exact h
  | namedUnion hargs _ => exact hargs
  | named hargs => exact hargs
  | _ => exact .nil

theorem TwinData.instance? (h : w.TwinData d d') :
    d'.instance?.map (·.symbol) = d.instance?.map (·.symbol) := by
  cases h with
  | _ => rfl

theorem Twin.isNull (ht : w.Twin t t') : w.right.table.isNull t' = w.left.table.isNull t := by
  unfold Interner.isNull Interner.intrinsic?
  rw [ht.data.intrinsic?]

theorem Twin.literal? (ht : w.Twin t t') : w.right.table.literal? t' = w.left.table.literal? t :=
  ht.data.literal?

theorem Twin.originOf? (ht : w.Twin t t') :
    u.originOf? w.right.table t' = u.originOf? w.left.table t := by
  have hbind : ∀ d : TypeData, (d.instance?.bind fun inst => u.origin? inst.symbol) =
      (d.instance?.map (·.symbol)).bind u.origin? := fun d => by
    cases d.instance? with
    | none => rfl
    | some inst => rfl
  unfold Universe.originOf?
  rw [hbind, hbind, ht.data.instance?]

theorem Twin.isEnum (ht : w.Twin t t') : u.isEnum w.right.table t' = u.isEnum w.left.table t := by
  unfold Universe.isEnum
  rw [ht.originOf?]

theorem Twin.enumValues (ht : w.Twin t t') :
    u.enumValues w.right.table t' = u.enumValues w.left.table t := by
  unfold Universe.enumValues
  have hdata := ht.data
  generalize w.left.table.data t = d at hdata
  generalize w.right.table.data t' = d' at hdata
  cases hdata with
  | @reference symbol =>
    cases symbol with
    | _ => rfl
  | _ => rfl

theorem Twin.branches? (ht : w.Twin t t') :
    Option.Rel w.Twins (u.branches? w.left.table t) (u.branches? w.right.table t') := by
  unfold Universe.branches?
  rw [ht.isEnum]
  split
  · exact .none
  · exact ht.data.union?

theorem Twin.branches?_eq_none (ht : w.Twin t t') (h : u.branches? w.left.table t = none) :
    u.branches? w.right.table t' = none := by
  have hbranches := ht.branches?
  rw [h] at hbranches
  generalize u.branches? w.right.table t' = found at hbranches ⊢
  cases hbranches with
  | none => rfl

theorem Twin.branches?_eq_some (ht : w.Twin t t') {bs : List TypeId}
    (h : u.branches? w.left.table t = some bs) :
    ∃ bs', u.branches? w.right.table t' = some bs' ∧ w.Twins bs bs' := by
  have hbranches := ht.branches?
  rw [h] at hbranches
  generalize u.branches? w.right.table t' = found at hbranches ⊢
  cases hbranches with
  | some hbs => exact ⟨_, rfl, hbs⟩

/-! Lists of twins are asked for in the same way on both sides, so whatever is asked of each of
them and put together has one answer. -/

theorem Twins.all_eq {ts ts' : List TypeId} (hts : w.Twins ts ts') {p p' : TypeId → Bool}
    (h : ∀ t t', w.Twin t t' → p' t' = p t) : ts'.all p' = ts.all p := by
  induction hts with
  | nil => rfl
  | cons ht _ ih => rw [List.all_cons, List.all_cons, h _ _ ht, ih]

theorem Twins.any_eq {ts ts' : List TypeId} (hts : w.Twins ts ts') {p p' : TypeId → Bool}
    (h : ∀ t t', w.Twin t t' → p' t' = p t) : ts'.any p' = ts.any p := by
  induction hts with
  | nil => rfl
  | cons ht _ ih => rw [List.any_cons, List.any_cons, h _ _ ht, ih]

theorem Twins.filter {ts ts' : List TypeId} (hts : w.Twins ts ts') {p p' : TypeId → Bool}
    (h : ∀ t t', w.Twin t t' → p' t' = p t) : w.Twins (ts.filter p) (ts'.filter p') := by
  induction hts with
  | nil => exact .nil
  | @cons t t' _ _ ht _ ih =>
    rw [List.filter_cons, List.filter_cons, h t t' ht]
    split
    · exact .cons ht ih
    · exact ih

theorem Twins.filterMap_eq {α : Type} {ts ts' : List TypeId} (hts : w.Twins ts ts')
    {f f' : TypeId → Option α} (h : ∀ t t', w.Twin t t' → f' t' = f t) :
    ts'.filterMap f' = ts.filterMap f := by
  induction hts with
  | nil => rfl
  | cons ht _ ih => rw [List.filterMap_cons, List.filterMap_cons, h _ _ ht, ih]

/-! Questions that take in the origin of a type, its literals or the branches come down to those
above. -/

theorem Twin.isLiteralUnion (ht : w.Twin t t') :
    Universe.isLiteralUnion w.right.table t' = Universe.isLiteralUnion w.left.table t := by
  unfold Universe.isLiteralUnion Interner.union?
  have hunion := ht.data.union?
  generalize (w.left.table.data t).union? = found at hunion
  generalize (w.right.table.data t').union? = found' at hunion
  cases hunion with
  | none => rfl
  | some h => exact h.all_eq fun b b' hb => by rw [hb.literal?]

theorem Twin.hasProperties (ht : w.Twin t t') (origin : Origin) (isEnum : Bool) :
    Universe.hasProperties w.right.table t' origin isEnum =
      Universe.hasProperties w.left.table t origin isEnum := by
  unfold Universe.hasProperties
  rw [ht.isLiteralUnion]

theorem Twin.nameNode (ht : w.Twin t t') (origin : Origin) (n : SchemaNode) :
    u.nameNode w.right.table t' origin n = u.nameNode w.left.table t origin n := by
  unfold Universe.nameNode
  rw [ht.enumValues]

/-! ## Leaves

The leaves come in the order of the walk.  The walk is compared as a derivation, with the
list to visit and what was met twin on both sides. -/

open Universe (Met addLeaf Collects)

/-- What was met is twin to what was met. -/
structure TwinMet (w : Sides u) (met met' : Met) : Prop where
  leaves : w.Twins met.1 met'.1
  unions : w.Twins met.2 met'.2

theorem TwinMet.addLeaf {met met' : Met} (h : w.TwinMet met met') (ht : w.Twin t t') :
    w.TwinMet (addLeaf t met) (addLeaf t' met') := by
  unfold Universe.addLeaf
  by_cases hmem : t ∈ met.1
  · rw [if_pos (List.contains_iff_mem.2 hmem),
      if_pos (List.contains_iff_mem.2 ((h.leaves.mem_iff ht).1 hmem))]
    exact h
  · have hmem' : t' ∉ met'.1 := fun hin => hmem ((h.leaves.mem_iff ht).2 hin)
    rw [if_neg fun hin => hmem (List.contains_iff_mem.1 hin),
      if_neg fun hin => hmem' (List.contains_iff_mem.1 hin)]
    exact ⟨.cons ht h.leaves, h.unions⟩

theorem collects_twins {ts ts' : List TypeId} {met met' out : Met}
    (h : Collects u w.left.table ts met out) (hts : w.Twins ts ts') (hmet : w.TwinMet met met') :
    ∃ out', Collects u w.right.table ts' met' out' ∧ w.TwinMet out out' := by
  induction h generalizing ts' met' with
  | done met =>
    cases hts
    exact ⟨met', .done met', hmet⟩
  | leaf h _ ih =>
    cases hts with
    | cons ht hrest =>
      obtain ⟨out', hout', hout⟩ := ih hrest (hmet.addLeaf ht)
      exact ⟨out', .leaf (ht.branches?_eq_none h) hout', hout⟩
  | again h seen _ ih =>
    cases hts with
    | cons ht hrest =>
      obtain ⟨out', hout', hout⟩ := ih hrest hmet
      obtain ⟨bs', hbs', -⟩ := ht.branches?_eq_some h
      exact ⟨out', .again hbs' ((hmet.unions.mem_iff ht).1 seen) hout', hout⟩
  | @enter t bs rest met out h new _ ih =>
    cases hts with
    | @cons _ t' _ rest' ht hrest =>
      obtain ⟨bs', hbs', hbs⟩ := ht.branches?_eq_some h
      have hentered : w.TwinMet (met.1, t :: met.2) (met'.1, t' :: met'.2) :=
        ⟨hmet.leaves, .cons ht hmet.unions⟩
      have hts' : w.Twins (bs ++ rest) (bs' ++ rest') := List.rel_append hbs hrest
      obtain ⟨out', hout', hout⟩ := ih hts' hentered
      exact ⟨out', .enter hbs' (fun hin => new ((hmet.unions.mem_iff ht).2 hin)) hout', hout⟩

/-- **The leaves of twins are twins.** -/
theorem Twin.leaves (ht : w.Twin t t') :
    w.Twins (u.leaves w.left.table t) (u.leaves w.right.table t') := by
  obtain ⟨out, hout, hleaves⟩ := Universe.leaves_collects w.left_standing.prepared.kept.sound ht.left
  obtain ⟨out', hout', hleaves'⟩ :=
    Universe.leaves_collects w.right_standing.prepared.kept.sound ht.right
  obtain ⟨out'', hout'', htwin⟩ := collects_twins hout (.cons ht .nil)
    (⟨.nil, .nil⟩ : w.TwinMet ([], []) ([], []))
  rw [hleaves, hleaves', hout'.unique hout'']
  exact List.rel_reverse htwin.leaves

theorem Twin.isNullable (ht : w.Twin t t') :
    w.right.table.isNullable t' = w.left.table.isNullable t := by
  have hany : ∀ {V : NamedTable} {t : TypeId}, u.Standing V → V.Has t →
      V.table.isNullable t = (u.leaves V.table t).any V.table.isNull := fun hV ht => by
    rw [Bool.eq_iff_iff, Universe.isNullable_iff hV.prepared.kept.sound ht, List.any_eq_true]
  rw [hany w.right_standing ht.right, hany w.left_standing ht.left]
  exact ht.leaves.any_eq fun r r' hr => hr.isNull

theorem Twins.realLeaves {ts ts' : List TypeId} (hts : w.Twins ts ts') :
    w.Twins (Universe.realLeaves w.left.table ts) (Universe.realLeaves w.right.table ts') :=
  hts.filter fun t t' ht => by rw [ht.literal?, ht.isNull]

end Sides
end TypedJson
