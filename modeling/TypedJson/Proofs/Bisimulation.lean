import TypedJson.Proofs.Session
import TypedJson.Proofs.Verdict
/-!
# Schemas that cannot be told apart

One schema may share a node where another has several, or number its nodes in another order.  A
relation between the nodes of two tables is a bisimulation if related nodes are alike: they say the
same themselves and refer to related nodes (`NodeTable.Bisimulation`).  A search of union branches
stops at nodes it has seen, which may be fewer in the one table than in the other; but it finds what
is reached, and that is the same on both sides (`NodeTable.Mirror.anyBranch_eq`).  So checks against
related nodes find the same (`Check.checkValue_agree`), up to the wording of the findings and the
nodes that they show.

The proof goes through the check function by function, each lemma with related nodes on both
sides; the checkers of the parts are related by assumption.  Only two places look at numbers
of nodes rather than at nodes: searches, which remember where they have been, and
descriptions, which are words and are left out of the comparison.
-/
namespace TypedJson

/-- Where a finding is, of what kind, and what was found there. -/
def Finding.gist (f : Finding) : List Segment × FindingKind × Option Json :=
  (f.path, f.kind, f.value)

namespace Outcome

def gist (o : Outcome) : Bool × List (List Segment × FindingKind × Option Json) :=
  (o.ok, o.findings.map Finding.gist)

variable {a a' b b' : Outcome}

theorem ok_of_gist (h : a.gist = a'.gist) : a.ok = a'.ok := congrArg Prod.fst h

theorem gist_both (ha : a.gist = a'.gist) (hb : b.gist = b'.gist) :
    (a.both b).gist = (a'.both b').gist := by
  simp only [gist, Prod.mk.injEq] at ha hb ⊢
  simp only [both, List.map_append, ha, hb, and_self]

theorem gist_all {os os' : List Outcome} (h : List.Forall₂ (fun o o' => o.gist = o'.gist) os os') :
    (all os).gist = (all os').gist := by
  induction h with
  | nil => rfl
  | cons hfirst _ ih => exact gist_both hfirst ih

end Outcome

/-! ## Nodes that are alike

A bisimulation may relate one node to several, in either direction.  So reachability is shown
both ways, and what a search finds is compared by what is reached, never step by step. -/

variable {R : NodeId → NodeId → Prop}

structure Property.Alike (R : NodeId → NodeId → Prop) (p q : Property) : Prop where
  name : p.name = q.name
  isOptional : p.isOptional = q.isOptional
  type : R p.type q.type

structure IndexSignature.Alike (R : NodeId → NodeId → Prop) (x y : IndexSignature) : Prop where
  keyType : R x.keyType y.keyType
  valueType : R x.valueType y.valueType

/-- The nodes agree in what a check reads of them and refer to related nodes. -/
structure SchemaNode.Alike (R : NodeId → NodeId → Prop) (m n : SchemaNode) : Prop where
  displayName : m.displayName = n.displayName
  isNullable : m.isNullable = n.isNullable
  allowedValues : m.allowedValues.values = n.allowedValues.values
  arrayOf : Option.Rel R m.arrayOf n.arrayOf
  unionOf : List.Forall₂ R m.unionOf n.unionOf
  properties : List.Forall₂ (Property.Alike R) m.properties n.properties
  indexes : List.Forall₂ (IndexSignature.Alike R) m.indexes n.indexes

/-- Related nodes of the tables are alike. -/
def NodeTable.Bisimulation (t t' : NodeTable) (R : NodeId → NodeId → Prop) : Prop :=
  ∀ a b, a.index < t.size → b.index < t'.size → R a b → (t.node a).Alike R (t'.node b)

/-- A bisimulation between nodes of two closed tables, which therefore never leads out of them. -/
structure NodeTable.Mirror (t t' : NodeTable) (R : NodeId → NodeId → Prop) : Prop where
  closed : t.Closed
  closed' : t'.Closed
  lt : ∀ {a b}, R a b → a.index < t.size
  lt' : ∀ {a b}, R a b → b.index < t'.size
  alike : ∀ {a b}, R a b → (t.node a).Alike R (t'.node b)

theorem forall₂_find? {α β : Type} {S : α → β → Prop} {p : α → Bool} {q : β → Bool} :
    ∀ {xs : List α} {ys : List β}, List.Forall₂ S xs ys →
      (∀ x ∈ xs, ∀ y ∈ ys, S x y → p x = q y) → Option.Rel S (xs.find? p) (ys.find? q)
  | _, _, .nil, _ => .none
  | x :: xs, y :: ys, .cons h hrest, hpq => by
    have hfirst := hpq x List.mem_cons_self y List.mem_cons_self h
    rw [List.find?_cons, List.find?_cons, ← hfirst]
    cases p x with
    | true => exact .some h
    | false =>
      exact forall₂_find? hrest fun a ha b hb =>
        hpq a (List.mem_cons_of_mem _ ha) b (List.mem_cons_of_mem _ hb)

theorem isSome_of_rel {α β : Type} {S : α → β → Prop} : ∀ {o : Option α} {o' : Option β},
    Option.Rel S o o' → o.isSome = o'.isSome
  | _, _, .some _ => rfl
  | _, _, .none => rfl

theorem isEmpty_of_forall₂ {α β : Type} {S : α → β → Prop} : ∀ {xs : List α} {ys : List β},
    List.Forall₂ S xs ys → xs.isEmpty = ys.isEmpty
  | _, _, .nil => rfl
  | _, _, .cons _ _ => rfl

namespace NodeTable

variable {t t' : NodeTable}

theorem Bisimulation.mirror (h : Bisimulation t t' R) (closed : t.Closed) (closed' : t'.Closed) :
    Mirror t t' fun a b => a.index < t.size ∧ b.index < t'.size ∧ R a b := by
  refine ⟨closed, closed', fun h => h.1, fun h => h.2.1, ?_⟩
  rintro a b ⟨ha, hb, hab⟩
  have halike := h a b ha hb hab
  refine ⟨halike.displayName, halike.isNullable, halike.allowedValues, ?_, ?_, ?_, ?_⟩
  · cases hitem : (t.node a).arrayOf <;> cases hitem' : (t'.node b).arrayOf
    all_goals
      have hrel := halike.arrayOf
      rw [hitem, hitem'] at hrel
      cases hrel
    · exact .none
    · rename_i hrel
      exact .some ⟨closed.item ha hitem, closed'.item hb hitem', hrel⟩
  · exact forall₂_imp_mem halike.unionOf fun x hx y hy hxy =>
      ⟨closed.branch ha hx, closed'.branch hb hy, hxy⟩
  · exact forall₂_imp_mem halike.properties fun p hp q hq hpq =>
      ⟨hpq.name, hpq.isOptional, closed.property ha hp, closed'.property hb hq, hpq.type⟩
  · exact forall₂_imp_mem halike.indexes fun x hx y hy hxy =>
      ⟨⟨(closed.signature ha hx).1, (closed'.signature hb hy).1, hxy.keyType⟩,
        ⟨(closed.signature ha hx).2, (closed'.signature hb hy).2, hxy.valueType⟩⟩

namespace Mirror

theorem reaches (h : Mirror t t' R) {a b c : NodeId} (hab : R a b) (hac : t.Reaches a c) :
    ∃ d, t'.Reaches b d ∧ R c d := by
  induction hac with
  | refl => exact ⟨b, .refl, hab⟩
  | tail _ hstep ih =>
    obtain ⟨d, hbd, hcd⟩ := ih
    obtain ⟨e, he, hrel⟩ := forall₂_mem_left (h.alike hcd).unionOf hstep
    exact ⟨e, hbd.tail he, hrel⟩

theorem reaches' (h : Mirror t t' R) {a b d : NodeId} (hab : R a b) (hbd : t'.Reaches b d) :
    ∃ c, t.Reaches a c ∧ R c d := by
  induction hbd with
  | refl => exact ⟨a, .refl, hab⟩
  | tail _ hstep ih =>
    obtain ⟨c, hac, hcd⟩ := ih
    obtain ⟨e, he, hrel⟩ := forall₂_mem_right (h.alike hcd).unionOf hstep
    exact ⟨e, hac.tail he, hrel⟩

/-- **Searches of the branches agree**, whatever nodes they meet twice. -/
theorem anyBranch_eq (h : Mirror t t' R) {a b : NodeId} (hab : R a b) {p q : SchemaNode → Bool}
    (hpq : ∀ {m n}, m.Alike R n → p m = q n) : t.anyBranch p a = t'.anyBranch q b := by
  rw [Bool.eq_iff_iff, anyBranch_iff h.closed (h.lt hab), anyBranch_iff h.closed' (h.lt' hab)]
  constructor
  · rintro ⟨c, hac, hc⟩
    obtain ⟨d, hbd, hcd⟩ := h.reaches hab hac
    exact ⟨d, hbd, hpq (h.alike hcd) ▸ hc⟩
  · rintro ⟨d, hbd, hd⟩
    obtain ⟨c, hac, hcd⟩ := h.reaches' hab hbd
    exact ⟨c, hac, hpq (h.alike hcd) ▸ hd⟩

theorem isNullable_eq (h : Mirror t t' R) {a b : NodeId} (hab : R a b) :
    t.isNullable a = t'.isNullable b :=
  h.anyBranch_eq hab fun halike => halike.isNullable

end Mirror
end NodeTable

/-! ## Checks -/

namespace Check

variable {t t' : NodeTable}

@[simp] theorem gist_finding (place : Place) (message : String) (kind : FindingKind)
    (value : Option Json) (node : Option SchemaNode) :
    (finding place message kind value node).gist = (place.reverse, kind, value) := rfl

theorem gist_failWith (strict : Bool) {f f' : Finding} (h : f.gist = f'.gist) :
    (failWith strict f).gist = (failWith strict f').gist := by
  cases strict <;> simp [failWith, Outcome.gist, h]

theorem gist_passWith {f f' : Finding} (h : f.gist = f'.gist) :
    (passWith f).gist = (passWith f').gist := by
  simp [passWith, Outcome.gist, h]

/-- The checkers find the same against related nodes. -/
def Agree (R : NodeId → NodeId → Prop) (check check' : Checker) : Prop :=
  ∀ place strict a b, R a b → (check place strict a).gist = (check' place strict b).gist

/-! ### Keys -/

theorem nodeAdmits_eq {m n : SchemaNode} (h : m.Alike R n) (key : String) :
    nodeAdmits m key = nodeAdmits n key := by
  unfold nodeAdmits
  rw [h.allowedValues, h.displayName]

theorem admitsKey_eq (h : t.Mirror t' R) {a b : NodeId} (hab : R a b) (key : String) :
    admitsKey t a key = admitsKey t' b key :=
  h.anyBranch_eq hab fun halike => nodeAdmits_eq halike key

theorem signatureFor?_rel (h : t.Mirror t' R) {m n : SchemaNode} (hmn : m.Alike R n) (key : String) :
    Option.Rel (IndexSignature.Alike R) (signatureFor? t m key) (signatureFor? t' n key) :=
  forall₂_find? hmn.indexes fun _ _ _ _ hxy => admitsKey_eq h hxy.keyType key

theorem isSome_property? {m n : SchemaNode} (hmn : m.Alike R n) (key : String) :
    (m.property? key).isSome = (n.property? key).isSome :=
  isSome_of_rel (forall₂_find? hmn.properties fun _ _ _ _ hpq => by rw [hpq.name])

inductive KeyRole.Alike (R : NodeId → NodeId → Prop) : KeyRole → KeyRole → Prop
  | declared : Alike R .declared .declared
  | signature {x y : IndexSignature} (h : x.Alike R y) : Alike R (.signature x) (.signature y)
  | unknown : Alike R .unknown .unknown

theorem roleOf_alike (h : t.Mirror t' R) {m n : SchemaNode} (hmn : m.Alike R n) (key : String) :
    (roleOf t m key).Alike R (roleOf t' n key) := by
  have hrel := signatureFor?_rel h hmn key
  unfold roleOf
  rw [isSome_property? hmn]
  split
  · exact .declared
  · generalize signatureFor? t m key = o, signatureFor? t' n key = o' at hrel ⊢
    cases hrel with
    | some hxy => exact .signature hxy
    | none => exact .unknown

/-! ### Parts -/

theorem gist_itemOutcomes {place : Place} {strict : Bool} {item item' : NodeId} (hitem : R item item') :
    ∀ {checks checks' : List Checker} {i : Nat}, List.Forall₂ (Agree R) checks checks' →
      List.Forall₂ (fun o o' => o.gist = o'.gist) (itemOutcomes place strict item i checks)
        (itemOutcomes place strict item' i checks')
  | _, _, _, .nil => .nil
  | _, _, _, .cons h hrest => .cons (h _ _ _ _ hitem) (gist_itemOutcomes hitem hrest)

theorem gist_checkAbsent (h : t.Mirror t' R) {a b : NodeId} (hab : R a b) (place : Place)
    (strict optional : Bool) :
    (checkAbsent t place strict optional a).gist = (checkAbsent t' place strict optional b).gist := by
  unfold checkAbsent
  rw [isEmpty_of_forall₂ (h.alike hab).unionOf]
  split
  · rfl
  · split
    · exact gist_failWith strict rfl
    · exact gist_failWith strict rfl

/-- The members of one object with checkers that agree. -/
def MembersAgree (R : NodeId → NodeId → Prop) (members members' : List (String × Checker)) : Prop :=
  List.Forall₂ (fun m m' => m.1 = m'.1 ∧ Agree R m.2 m'.2) members members'

theorem gist_propertyOutcome (h : t.Mirror t' R) {members members' : List (String × Checker)}
    (hmembers : MembersAgree R members members') {p q : Property} (hpq : p.Alike R q)
    (place : Place) (strict : Bool) :
    (propertyOutcome t place strict members p).gist = (propertyOutcome t' place strict members' q).gist := by
  have hrel := member?_rel (R := Agree R) hmembers q.name
  unfold propertyOutcome
  rw [hpq.name, hpq.isOptional]
  generalize Json.member? q.name members = o, Json.member? q.name members' = o' at hrel ⊢
  cases hrel with
  | some hagree => exact hagree _ strict _ _ hpq.type
  | none => exact gist_checkAbsent h hpq.type _ strict q.isOptional

theorem gist_memberOutcome (h : t.Mirror t' R) {m n : SchemaNode} (hmn : m.Alike R n)
    {check check' : Checker} (hagree : Agree R check check') (key : String) (place : Place)
    (strict : Bool) :
    (memberOutcome t m place strict (key, check)).gist =
      (memberOutcome t' n place strict (key, check')).gist := by
  have hrole := roleOf_alike h hmn key
  unfold memberOutcome
  dsimp only
  generalize roleOf t m key = role, roleOf t' n key = role' at hrole ⊢
  cases hrole with
  | declared => rfl
  | signature hxy => exact hagree _ strict _ _ hxy.valueType
  | unknown => rfl

theorem unknownKeys_eq (h : t.Mirror t' R) {m n : SchemaNode} (hmn : m.Alike R n)
    {members members' : List (String × Checker)} (hmembers : MembersAgree R members members') :
    unknownKeys t m members = unknownKeys t' n members' := by
  have hkeys : members.map (·.1) = members'.map (·.1) := by
    induction hmembers with
    | nil => rfl
    | cons hm _ ih => simp only [List.map_cons, hm.1, ih]
  unfold unknownKeys
  rw [hkeys]
  refine List.filter_congr fun key _ => ?_
  have hrole := roleOf_alike h hmn key
  generalize roleOf t m key = role, roleOf t' n key = role' at hrole ⊢
  cases hrole <;> rfl

theorem gist_objectOutcome (h : t.Mirror t' R) {m n : SchemaNode} (hmn : m.Alike R n)
    {members members' : List (String × Checker)} (hmembers : MembersAgree R members members')
    (place : Place) (strict : Bool) (v : Json) :
    (objectOutcome t place strict m v members).gist = (objectOutcome t' place strict n v members').gist := by
  have hproperties : List.Forall₂ (fun o o' : Outcome => o.gist = o'.gist)
      (m.properties.map (propertyOutcome t place strict members))
      (n.properties.map (propertyOutcome t' place strict members')) := by
    rw [List.forall₂_map_left_iff, List.forall₂_map_right_iff]
    exact hmn.properties.imp fun _ _ hpq => gist_propertyOutcome h hmembers hpq place strict
  have hothers : List.Forall₂ (fun o o' : Outcome => o.gist = o'.gist)
      (members.map (memberOutcome t m place strict)) (members'.map (memberOutcome t' n place strict)) := by
    rw [List.forall₂_map_left_iff, List.forall₂_map_right_iff]
    refine hmembers.imp ?_
    rintro ⟨key, check⟩ ⟨_, check'⟩ ⟨rfl, hagree⟩
    exact gist_memberOutcome h hmn hagree key place strict
  have hunknown : (unknownOutcome place strict m v (unknownKeys t m members)).gist =
      (unknownOutcome place strict n v (unknownKeys t' n members')).gist := by
    rw [unknownKeys_eq h hmn hmembers]
    unfold unknownOutcome
    split
    · exact gist_passWith rfl
    · rfl
  exact Outcome.gist_both (Outcome.gist_all hproperties)
    (Outcome.gist_both (Outcome.gist_all hothers) hunknown)

/-! ### Values -/

theorem gist_dateOutcome (place : Place) (strict : Bool) (m n : SchemaNode) (v : Json) :
    (dateOutcome place strict m v).gist = (dateOutcome place strict n v).gist := by
  unfold dateOutcome
  split
  · exact gist_passWith rfl
  · rfl
  · exact gist_failWith strict rfl

theorem gist_patternOutcome (place : Place) (strict : Bool) (m n : SchemaNode) (v : Json) :
    (patternOutcome place strict m v).gist = (patternOutcome place strict n v).gist := by
  unfold patternOutcome
  split
  · rfl
  · split
    · exact gist_passWith rfl
    · exact gist_failWith strict rfl

theorem isLiteralOnly_eq {m n : SchemaNode} (hmn : m.Alike R n) :
    m.isLiteralOnly = n.isLiteralOnly := by
  unfold SchemaNode.isLiteralOnly LiteralSet.isEmpty
  rw [hmn.allowedValues, ← Option.not_isSome, isSome_of_rel hmn.arrayOf, Option.not_isSome,
    isEmpty_of_forall₂ hmn.properties, isEmpty_of_forall₂ hmn.indexes]

theorem gist_plainOutcome (h : t.Mirror t' R) {m n : SchemaNode} (hmn : m.Alike R n)
    {members members' : List (String × Checker)} (hmembers : MembersAgree R members members')
    (place : Place) (strict : Bool) (v : Json) :
    (plainOutcome t place strict m v members).gist = (plainOutcome t' place strict n v members').gist := by
  unfold plainOutcome
  rw [hmn.allowedValues, hmn.displayName, isEmpty_of_forall₂ hmn.properties,
    isEmpty_of_forall₂ hmn.indexes, isLiteralOnly_eq hmn]
  split
  · rfl
  · split
    case h_5 => exact gist_dateOutcome place strict m n v
    case h_6 => exact gist_patternOutcome place strict m n v
    case h_7 =>
      split
      · split
        · exact gist_objectOutcome h hmn hmembers place strict _
        · exact gist_failWith strict rfl
      · split
        · exact gist_failWith strict rfl
        · rfl
    all_goals
      split
      · rfl
      · exact gist_failWith strict rfl

theorem shapeOutcome_agree (h : t.Mirror t' R) {items items' : List Checker}
    (hitems : List.Forall₂ (Agree R) items items') {members members' : List (String × Checker)}
    (hmembers : MembersAgree R members members') (v : Json) :
    Agree R (shapeOutcome t v items members) (shapeOutcome t' v items' members') := by
  intro place strict a b hab
  have hmn := h.alike hab
  have hitem := hmn.arrayOf
  unfold shapeOutcome
  rw [h.isNullable_eq hab]
  dsimp only
  generalize (t.node a).arrayOf = o, (t'.node b).arrayOf = o' at hitem ⊢
  cases v with
  | null =>
    dsimp only
    split
    · rfl
    · exact gist_failWith strict rfl
  | array js =>
    cases hitem with
    | some hrel => exact Outcome.gist_all (gist_itemOutcomes hrel hitems)
    | none => exact gist_failWith strict rfl
  | bool | number | string | object =>
    cases hitem with
    | some => exact gist_failWith strict rfl
    | none => exact gist_plainOutcome h hmn hmembers place strict _

/-! The candidates of a union are related in their order, and related checks accept or reject
alike.  So the first one that accepts is at the same place on both sides. -/

theorem firstAccepted?_agree {shape shape' : Checker} (hshape : Agree R shape shape') (place : Place)
    {cs cs' : List NodeId} (h : List.Forall₂ R cs cs') :
    Option.Rel (fun o o' => o.gist = o'.gist) (firstAccepted? shape place cs)
      (firstAccepted? shape' place cs') := by
  induction h with
  | nil => exact .none
  | @cons c c' _ _ hc _ ih =>
    have hgist := hshape place false c c' hc
    rw [firstAccepted?, firstAccepted?, ← Outcome.ok_of_gist hgist]
    split
    · exact .some hgist
    · exact ih

theorem unionOutcome_agree (h : t.Mirror t' R) {shape shape' : Checker} (hshape : Agree R shape shape')
    (v : Json) : Agree R (unionOutcome t v shape) (unionOutcome t' v shape') := by
  intro place strict a b hab
  have hbranches := (h.alike hab).unionOf
  unfold unionOutcome
  generalize (t.node a).unionOf = branches, (t'.node b).unionOf = branches' at hbranches ⊢
  cases hbranches with
  | nil => exact hshape place strict a b hab
  | cons hfirst hrest =>
    have hrel := firstAccepted?_agree hshape place (.cons hab (.cons hfirst hrest))
    dsimp only
    generalize firstAccepted? shape place _ = o, firstAccepted? shape' place _ = o' at hrel ⊢
    cases hrel with
    | some hgist => exact hgist
    | none => exact gist_failWith strict rfl

/-- **Checks against related nodes find the same.** -/
theorem checkValue_agree (h : t.Mirror t' R) (v : Json) : Agree R (checkValue t v) (checkValue t' v) := by
  cases v with
  | array items =>
    have hitems : List.Forall₂ (Agree R) (checkItems t items) (checkItems t' items) := by
      rw [checkItems_eq_map, checkItems_eq_map, List.forall₂_map_left_iff, List.forall₂_map_right_iff]
      exact List.forall₂_same.2 fun j _ => checkValue_agree h j
    rw [checkValue, checkValue]
    exact unionOutcome_agree h (shapeOutcome_agree h hitems .nil _) _
  | object members =>
    have hmembers : MembersAgree R (checkMembers t members) (checkMembers t' members) := by
      unfold MembersAgree
      rw [checkMembers_eq_map, checkMembers_eq_map, List.forall₂_map_left_iff,
        List.forall₂_map_right_iff]
      exact List.forall₂_same.2 fun m _ => ⟨rfl, checkValue_agree h m.2⟩
    rw [checkValue, checkValue]
    exact unionOutcome_agree h (shapeOutcome_agree h .nil hmembers _) _
  | null | bool | number | string =>
    rw [checkValue, checkValue]
    exact unionOutcome_agree h (shapeOutcome_agree h .nil .nil _) _
termination_by sizeOf v
decreasing_by
  · exact Json.sizeOf_item_lt ‹_›
  · exact Json.sizeOf_value_lt ‹_›

end Check

/-- **How nodes are shared and numbered cannot be observed**: against nodes that a bisimulation
between two closed tables relates, a value has findings of the same kinds, at the same places and
with the same values, in the same order. -/
theorem findings_eq_of_bisimulation {t t' : NodeTable} (closed : t.Closed) (closed' : t'.Closed)
    (sim : t.Bisimulation t' R) {a b : NodeId} (ha : a.index < t.size) (hb : b.index < t'.size)
    (hab : R a b) (v : Json) :
    (Report.ofNode t a v).findings.map Finding.gist = (Report.ofNode t' b v).findings.map Finding.gist :=
  congrArg Prod.snd
    (Check.checkValue_agree (sim.mirror closed closed') v [] true a b ⟨ha, hb, hab⟩)

/-- A dictionary that is a branch and the key type of itself, and a type with such a property. -/
def knotTable : NodeTable := .ofArray #[
  { SchemaNode.plain "Knot" with unionOf := [⟨0⟩, ⟨1⟩], indexes := [⟨⟨0⟩, ⟨0⟩⟩] },
  SchemaNode.plain "string",
  { SchemaNode.plain "Holder" with properties := [⟨"knot", false, ⟨0⟩⟩] }]

/-- The same with two nodes for the dictionary, which refer to one another, in another order. -/
def unrolledTable : NodeTable := .ofArray #[
  { SchemaNode.plain "Holder" with properties := [⟨"knot", false, ⟨2⟩⟩] },
  SchemaNode.plain "string",
  { SchemaNode.plain "Knot" with unionOf := [⟨3⟩, ⟨1⟩], indexes := [⟨⟨3⟩, ⟨3⟩⟩] },
  { SchemaNode.plain "Knot" with unionOf := [⟨2⟩, ⟨1⟩], indexes := [⟨⟨2⟩, ⟨2⟩⟩] }]

/-- Each node with those that were made from it. -/
def unrolled (a b : NodeId) : Prop :=
  (a, b) ∈ [((⟨0⟩, ⟨2⟩) : NodeId × NodeId), (⟨0⟩, ⟨3⟩), (⟨1⟩, ⟨1⟩), (⟨2⟩, ⟨0⟩)]

instance (a b : NodeId) : Decidable (unrolled a b) := inferInstanceAs (Decidable (_ ∈ _))

theorem unrolled_bisimulation : knotTable.Bisimulation unrolledTable unrolled := by
  intro a b _ _ hab
  simp only [unrolled, List.mem_cons, Prod.mk.injEq, List.not_mem_nil, or_false] at hab
  rcases hab with ⟨rfl, rfl⟩ | ⟨rfl, rfl⟩ | ⟨rfl, rfl⟩ | ⟨rfl, rfl⟩
  · exact ⟨rfl, rfl, rfl, .none, .cons (by decide) (.cons (by decide) .nil), .nil,
      .cons ⟨by decide, by decide⟩ .nil⟩
  · exact ⟨rfl, rfl, rfl, .none, .cons (by decide) (.cons (by decide) .nil), .nil,
      .cons ⟨by decide, by decide⟩ .nil⟩
  · exact ⟨rfl, rfl, rfl, .none, .nil, .nil, .nil⟩
  · exact ⟨rfl, rfl, rfl, .none, .nil, .cons ⟨rfl, rfl, by decide⟩ .nil, .nil⟩

def knotValue : Json := .object [("knot", .object [("a", .number (.int 1))])]

/-- Unrolling the dictionary changes nothing: the number in it is an error of the property. -/
theorem unrolledTable_findings :
    knotTable.Closed ∧ unrolledTable.Closed ∧ knotTable.Bisimulation unrolledTable unrolled ∧
      unrolled ⟨2⟩ ⟨0⟩ ∧
      (Report.ofNode knotTable ⟨2⟩ knotValue).findings.map Finding.gist =
        (Report.ofNode unrolledTable ⟨0⟩ knotValue).findings.map Finding.gist ∧
      (Report.ofNode knotTable ⟨2⟩ knotValue).findings.map (fun f => (f.path, f.kind)) =
        [([.key "knot"], .typeMismatch)] := by
  have closed : knotTable.Closed := by decide
  have closed' : unrolledTable.Closed := by decide
  exact ⟨closed, closed', unrolled_bisimulation, by decide,
    findings_eq_of_bisimulation closed closed' unrolled_bisimulation (by decide) (by decide)
      (by decide) _, by decide⟩

end TypedJson
