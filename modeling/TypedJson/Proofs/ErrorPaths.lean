import TypedJson.Proofs.Location
import TypedJson.Proofs.References
/-!
# Errors stand apart

A check reports an error at its own place, or its parts report errors below it, but not both.  The
parts of an object are its properties and its other members, each under a name of its own, so the
errors below one of them stand apart from those below another (`Outcome.Scattered.all`).  A union
reports at its own place only, since what its trials find is no error.  So no error of a report says
again what another says (`Schema.errors_apart`).

Two conditions are needed.  The names in an object are distinct, and so are those of the
properties of a node; otherwise the same member could be checked twice.  A declared property
and a further member never have the same name, since a member with a declared name is not
checked as a further one.
-/
namespace TypedJson

/-- Neither path is the other one or leads on from it. -/
def Segment.Apart (p q : List Segment) : Prop := ¬ p <+: q ∧ ¬ q <+: p

/-- The paths of the errors, in order. -/
def Report.errorPaths (r : Report) : List (List Segment) :=
  (r.findings.filter (·.isError)).map (·.path)

open Segment

theorem Segment.apart_of_below {place : Place} {s s' : Segment} (hne : s ≠ s') {p q : List Segment}
    (hp : (s :: place).reverse <+: p) (hq : (s' :: place).reverse <+: q) : Apart p q := by
  have hnot : ∀ {x y : Segment} {path : List Segment}, (x :: place).reverse <+: path →
      (y :: place).reverse <+: path → x = y := by
    intro x y path hx hy
    have hle : (x :: place).reverse.length ≤ (y :: place).reverse.length := by simp
    have heq := (List.prefix_of_prefix_length_le hx hy hle).eq_of_length (by simp)
    exact (List.cons.inj (List.reverse_injective heq)).1
  exact ⟨fun h => hne (hnot (hp.trans h) hq), fun h => hne (hnot hp (hq.trans h))⟩

namespace Outcome

/-- The paths of the errors, in order. -/
def errorPaths (o : Outcome) : List (List Segment) := (o.findings.filter (·.isError)).map (·.path)

theorem errorPaths_both (a b : Outcome) : (a.both b).errorPaths = a.errorPaths ++ b.errorPaths := by
  simp only [errorPaths, both, List.filter_append, List.map_append]

theorem mem_errorPaths_all {p : List Segment} : ∀ {os : List Outcome},
    p ∈ (all os).errorPaths ↔ ∃ o ∈ os, p ∈ o.errorPaths
  | [] => by simp [all, pass, errorPaths]
  | o :: os => by
    rw [show all (o :: os) = o.both (all os) from rfl, errorPaths_both, List.mem_append,
      mem_errorPaths_all]
    simp

theorem errorPaths_of_not_hasErrors {o : Outcome} (h : o.hasErrors = false) : o.errorPaths = [] := by
  unfold hasErrors at h
  rw [List.any_eq_false] at h
  rw [errorPaths, List.filter_eq_nil_iff.2 h, List.map_nil]

/-- The errors lie at the place or below it, apart from one another. -/
structure Scattered (place : Place) (o : Outcome) : Prop where
  below : ∀ p ∈ o.errorPaths, place.reverse <+: p
  apart : o.errorPaths.Pairwise Apart

namespace Scattered

variable {place : Place} {a b : Outcome}

theorem of_not_hasErrors (h : a.hasErrors = false) : a.Scattered place := by
  refine ⟨?_, ?_⟩ <;> rw [errorPaths_of_not_hasErrors h]
  · exact fun p hp => absurd hp List.not_mem_nil
  · exact .nil

theorem pass : Scattered place .pass := of_not_hasErrors rfl

theorem fail : Scattered place .fail := of_not_hasErrors rfl

theorem failWith (strict : Bool) {f : Finding} (hpath : f.path = place.reverse) :
    Scattered place (Check.failWith strict f) := by
  cases strict with
  | false => exact fail
  | true =>
    cases herror : f.isError with
    | false => exact of_not_hasErrors (by simp [hasErrors, Check.failWith, herror])
    | true =>
      have hpaths : (Check.failWith true f).errorPaths = [place.reverse] := by
        simp [errorPaths, Check.failWith, herror, hpath]
      refine ⟨?_, ?_⟩ <;> rw [hpaths]
      · intro p hp
        obtain rfl := List.mem_singleton.1 hp
        exact List.prefix_refl _
      · exact List.pairwise_singleton _ _

theorem both (ha : a.Scattered place) (hb : b.Scattered place)
    (hapart : ∀ p ∈ a.errorPaths, ∀ q ∈ b.errorPaths, Apart p q) : (a.both b).Scattered place := by
  refine ⟨?_, ?_⟩ <;> rw [errorPaths_both]
  · intro p hp
    rcases List.mem_append.1 hp with hp | hp
    · exact ha.below p hp
    · exact hb.below p hp
  · exact List.pairwise_append.2 ⟨ha.apart, hb.apart, hapart⟩

theorem widen {s : Segment} (h : a.Scattered (s :: place)) : a.Scattered place := by
  refine ⟨fun p hp => ?_, h.apart⟩
  have hbelow := h.below p hp
  rw [List.reverse_cons] at hbelow
  exact (List.prefix_append _ _).trans hbelow

/-- **The errors of parts that stand under different steps stand apart.** -/
theorem all {α : Type} (step : α → Segment) {outcome : α → Outcome} : ∀ {parts : List α},
    (∀ a ∈ parts, (outcome a).Scattered (step a :: place)) → (parts.map step).Nodup →
      (Outcome.all (parts.map outcome)).Scattered place
  | [], _, _ => pass
  | a :: parts, h, hdistinct => by
    rw [List.map_cons, List.nodup_cons] at hdistinct
    have ha := h a List.mem_cons_self
    have hrest : ∀ b ∈ parts, (outcome b).Scattered (step b :: place) := fun b hb =>
      h b (List.mem_cons_of_mem _ hb)
    refine ha.widen.both (all step hrest hdistinct.2) fun p hp q hq => ?_
    obtain ⟨o, ho, hq⟩ := mem_errorPaths_all.1 hq
    obtain ⟨b, hb, rfl⟩ := List.mem_map.1 ho
    have hne : step a ≠ step b := fun heq => hdistinct.1 (heq ▸ List.mem_map_of_mem hb)
    exact apart_of_below hne (ha.below p hp) ((hrest b hb).below q hq)

end Scattered
end Outcome

namespace Check

variable {t : NodeTable} {place : Place} {strict : Bool}

/-- The errors of the checker are scattered, wherever it is used. -/
def Scatters (t : NodeTable) (check : Checker) : Prop :=
  ∀ place strict id, id.index < t.size → (check place strict id).Scattered place

/-! Items are apart by their places, properties and members by their keys.  A key is dealt with
as a property or by a signature, never by both, so the errors of the two lists are apart as
well. -/

theorem itemOutcomes_eq_map (place : Place) (strict : Bool) (item : NodeId) :
    ∀ (i : Nat) (checks : List Checker), itemOutcomes place strict item i checks =
      (checks.zipIdx i).map fun c => c.1 (.index c.2 :: place) strict item
  | _, [] => rfl
  | i, check :: checks => by
    rw [itemOutcomes, itemOutcomes_eq_map place strict item (i + 1) checks]
    rfl

theorem itemOutcomes_scattered {item : NodeId} (hitem : item.index < t.size) {checks : List Checker}
    (hscatters : ∀ check ∈ checks, Scatters t check) :
    (Outcome.all (itemOutcomes place strict item 0 checks)).Scattered place := by
  rw [itemOutcomes_eq_map]
  refine .all (fun c => .index c.2) (fun c hc => ?_) ?_
  · exact hscatters c.1 (List.fst_mem_of_mem_zipIdx hc) _ strict item hitem
  · have hindexes : (checks.zipIdx 0).map (fun c => Segment.index c.2) =
        (List.range' 0 checks.length).map Segment.index := by
      rw [← List.zipIdx_map_snd, List.map_map]
      rfl
    rw [hindexes]
    exact List.Nodup.map (fun _ _ h => Segment.index.inj h) List.nodup_range'

variable {members : List (String × Json)}

theorem propertyOutcome_scattered (hscatters : ∀ m ∈ members, Scatters t (checkValue t m.2))
    {p : Property} (hp : p.type.index < t.size) :
    (propertyOutcome t place strict (checkMembers t members) p).Scattered (.key p.name :: place) := by
  unfold propertyOutcome
  rw [checkMembers_eq_map, member?_map]
  cases hm : Json.member? p.name members with
  | some j => exact hscatters _ (Json.mem_of_member? hm) _ strict _ hp
  | none =>
    show (checkAbsent t (.key p.name :: place) strict p.isOptional p.type).Scattered _
    unfold checkAbsent
    split
    · exact .pass
    · split
      · exact .failWith strict rfl
      · exact .failWith strict rfl

theorem memberOutcome_scattered (closed : t.Closed) {c : NodeId} (hc : c.index < t.size)
    {m : String × Checker} (hscatters : Scatters t m.2) :
    (memberOutcome t (t.node c) place strict m).Scattered (.key m.1 :: place) := by
  unfold memberOutcome
  split
  · rename_i x hrole
    have hx := List.mem_of_find?_eq_some ((roleOf_eq_signature_iff _ _ _).1 hrole).2
    exact hscatters _ strict _ (closed.signature hc hx).2
  · exact .pass

theorem property?_of_mem_errorPaths {n : SchemaNode} {m : String × Checker} {p : List Segment}
    (h : p ∈ (memberOutcome t n place strict m).errorPaths) : n.property? m.1 = none := by
  unfold memberOutcome at h
  split at h
  · rename_i x hrole
    exact ((roleOf_eq_signature_iff _ _ _).1 hrole).1
  · cases h

theorem objectOutcome_scattered (closed : t.Closed) {c : NodeId} (hc : c.index < t.size)
    (hproperties : ((t.node c).properties.map (·.name)).Nodup) (hnames : (members.map (·.1)).Nodup)
    (hscatters : ∀ m ∈ members, Scatters t (checkValue t m.2)) (v : Json) :
    (objectOutcome t place strict (t.node c) v (checkMembers t members)).Scattered place := by
  have hkeys : ((checkMembers t members).map (·.1)) = members.map (·.1) := by
    rw [checkMembers_eq_map, List.map_map]
    rfl
  have hchecks : ∀ m ∈ checkMembers t members, Scatters t m.2 := by
    rw [checkMembers_eq_map, List.forall_mem_map]
    exact hscatters
  have hsteps : ∀ {names : List String}, names.Nodup → (names.map Segment.key).Nodup := fun h =>
    h.map fun _ _ heq => Segment.key.inj heq
  have hdeclared : (Outcome.all ((t.node c).properties.map
      (propertyOutcome t place strict (checkMembers t members)))).Scattered place := by
    refine .all (fun p => .key p.name) (fun p hp => ?_) ?_
    · exact propertyOutcome_scattered hscatters (closed.property hc hp)
    · have hmap := hsteps hproperties
      rwa [List.map_map] at hmap
  have hothers : (Outcome.all ((checkMembers t members).map
      (memberOutcome t (t.node c) place strict))).Scattered place := by
    refine .all (fun m => .key m.1) (fun m hm => ?_) ?_
    · exact memberOutcome_scattered closed hc (hchecks m hm)
    · have hmap := hsteps (hkeys ▸ hnames)
      rwa [List.map_map] at hmap
  have hunknown : (unknownOutcome place strict (t.node c) v
      (unknownKeys t (t.node c) (checkMembers t members))).hasErrors = false := by
    unfold unknownOutcome
    split <;> rfl
  refine hdeclared.both (hothers.both (.of_not_hasErrors hunknown) ?_) ?_
  · rw [Outcome.errorPaths_of_not_hasErrors hunknown]
    exact fun _ _ q hq => absurd hq List.not_mem_nil
  · intro p hp q hq
    rw [Outcome.errorPaths_both, Outcome.errorPaths_of_not_hasErrors hunknown, List.append_nil] at hq
    obtain ⟨o, ho, hp⟩ := Outcome.mem_errorPaths_all.1 hp
    obtain ⟨x, hx, rfl⟩ := List.mem_map.1 ho
    obtain ⟨o, ho, hq⟩ := Outcome.mem_errorPaths_all.1 hq
    obtain ⟨m, hm, rfl⟩ := List.mem_map.1 ho
    have hne : Segment.key x.name ≠ Segment.key m.1 := by
      intro heq
      have hnone := property?_of_mem_errorPaths hq
      rw [SchemaNode.property?, List.find?_eq_none] at hnone
      exact hnone x hx (beq_iff_eq.2 (Segment.key.inj heq))
    exact apart_of_below hne
      ((propertyOutcome_scattered hscatters (closed.property hc hx)).below p hp)
      ((memberOutcome_scattered closed hc (hchecks m hm)).below q hq)

/-! ## Values

A plain value has at most one error of its own, or it is an object and its errors are those
of its parts.  For a union the findings of the accepted trial are no errors, and a union that
fails reports once, at its place. -/

theorem plainOutcome_scattered (n : SchemaNode) (v : Json) (checks : List (String × Checker))
    (hobject : ∀ ms, v = .object ms → (objectOutcome t place strict n v checks).Scattered place) :
    (plainOutcome t place strict n v checks).Scattered place := by
  unfold plainOutcome
  split
  · exact .pass
  · split
    case h_5 =>
      unfold dateOutcome
      split
      · exact .of_not_hasErrors rfl
      · exact .pass
      · exact .failWith strict rfl
    case h_6 =>
      unfold patternOutcome
      split
      · exact .pass
      · split
        · exact .of_not_hasErrors rfl
        · exact .failWith strict rfl
    case h_7 =>
      split
      · split
        · exact hobject _ rfl
        · exact .failWith strict rfl
      · split
        · exact .failWith strict rfl
        · exact .fail
    all_goals
      split
      · exact .pass
      · exact .failWith strict rfl

theorem shapeOutcome_scatters (closed : t.Closed) {v : Json} (items : List Checker)
    (checks : List (String × Checker)) (hitems : ∀ check ∈ items, Scatters t check)
    (hobject : ∀ ms, v = .object ms → ∀ place strict (c : NodeId), c.index < t.size →
      (objectOutcome t place strict (t.node c) v checks).Scattered place) :
    Scatters t (shapeOutcome t v items checks) := by
  intro place strict c hc
  unfold shapeOutcome
  dsimp only
  split
  · split
    · exact .pass
    · exact .failWith strict rfl
  · rename_i hitem
    exact itemOutcomes_scattered (closed.item hc hitem) hitems
  · exact .failWith strict rfl
  · exact .failWith strict rfl
  · exact plainOutcome_scattered _ _ checks fun ms hv => hobject ms hv place strict c hc

theorem scatters_of_shape (closed : t.Closed) {v : Json} {shape : Checker}
    (hcheck : checkValue t v = unionOutcome t v shape) (hshape : Scatters t shape) :
    Scatters t (checkValue t v) := by
  intro place strict id hid
  have htruthful : TruthfulWithin t (fun _ => False) (checkValue t v) :=
    checkValue_truthfulWithin closed (fun _ _ h => h.elim) v
  rw [hcheck] at htruthful ⊢
  cases hunion : (t.node id).unionOf with
  | nil =>
    unfold unionOutcome
    rw [hunion]
    exact hshape place strict id hid
  | cons branch branches =>
    have hreports := htruthful place strict id hid fun _ hnil => by
      rw [hunion] at hnil
      cases hnil
    unfold unionOutcome at hreports ⊢
    rw [hunion] at hreports ⊢
    dsimp only at hreports ⊢
    split
    · rename_i trial hfirst
      rw [hfirst] at hreports
      refine .of_not_hasErrors ?_
      rw [hreports, (firstAccepted?_eq_some hfirst).1, Bool.not_true, Bool.and_false]
    · exact .failWith strict rfl

/-- **The errors of every check are scattered.** -/
theorem checkValue_scatters (closed : t.Closed)
    (hproperties : ∀ id : NodeId, id.index < t.size → ((t.node id).properties.map (·.name)).Nodup) :
    ∀ v : Json, v.DistinctNames → Scatters t (checkValue t v)
  | .array items, hnames => by
    have hitems : ∀ check ∈ checkItems t items, Scatters t check := by
      rw [checkItems_eq_map, List.forall_mem_map]
      exact fun j hj =>
        checkValue_scatters closed hproperties j (Json.distinctNames_of_item hnames j hj)
    exact scatters_of_shape closed (by rw [checkValue])
      (shapeOutcome_scatters closed _ _ hitems (by simp))
  | .object members, hnames => by
    have hmembers : ∀ m ∈ members, Scatters t (checkValue t m.2) := fun m hm =>
      checkValue_scatters closed hproperties m.2 (Json.distinctNames_of_member hnames.2 m hm)
    refine scatters_of_shape closed (by rw [checkValue]) (shapeOutcome_scatters closed _ _ (by simp) ?_)
    rintro ms ⟨⟩ place strict c hc
    exact objectOutcome_scattered closed hc (hproperties c hc) hnames.1 hmembers _
  | .null, _ | .bool _, _ | .number _, _ | .string _, _ =>
    scatters_of_shape closed (by rw [checkValue])
      (shapeOutcome_scatters closed [] [] (by simp) (by simp))
termination_by v => sizeOf v
decreasing_by
  · exact Json.sizeOf_item_lt ‹_›
  · exact Json.sizeOf_value_lt ‹_›

end Check
theorem Report.apart_ofNode {t : NodeTable} (closed : t.Closed)
    (hproperties : ∀ id : NodeId, id.index < t.size → ((t.node id).properties.map (·.name)).Nodup)
    {id : NodeId} (hid : id.index < t.size) {v : Json} (hnames : v.DistinctNames) :
    (Report.ofNode t id v).errorPaths.Pairwise Apart :=
  (Check.checkValue_scatters closed hproperties v hnames [] true id hid).apart

namespace Schema

variable {s : Schema}

theorem nodup_properties_of_resolve? (hproperties : ∀ n ∈ s.nodes, (n.properties.map (·.name)).Nodup)
    {reference : String} {r : Resolved} (h : Reference.resolve? s reference = some r) (id : NodeId)
    (hid : id.index < r.size) : ((r.node id).properties.map (·.name)).Nodup := by
  have hbrings := Reference.resolve?_brings h
  rcases Resolved.node_of_lt hid with ⟨hschema, heq⟩ | hsynthetic
  · rw [heq]
    rw [hbrings.schema] at hschema ⊢
    exact hproperties _ (node_mem hschema)
  · rw [hbrings.properties _ hsynthetic]
    exact List.nodup_nil

/-- **Errors are not redundant**: in a report of a value by a reference, or against a node, no two
errors have the same path, and the path of none leads on from that of another. -/
theorem errors_apart (s : Schema) (closed : s.Closed)
    (hproperties : ∀ n ∈ s.nodes, (n.properties.map (·.name)).Nodup) (v : Json)
    (hnames : v.DistinctNames) :
    (∀ reference, (s.validate reference v).errorPaths.Pairwise Apart) ∧
      ∀ id report, s.validateNode? id v = some report → report.errorPaths.Pairwise Apart := by
  refine ⟨fun reference => ?_, fun id report h => ?_⟩
  · unfold validate
    split
    · rename_i r hr
      have hclosed := Reference.closed_of_resolve? closed hr
      exact Report.apart_ofNode hclosed.table (nodup_properties_of_resolve? hproperties hr)
        hclosed.root hnames
    · exact List.pairwise_singleton _ _
  · unfold validateNode? at h
    split at h
    · rename_i hid
      cases h
      exact Report.apart_ofNode closed.table (fun c hc => hproperties _ (node_mem hc)) hid hnames
    · cases h

/-- A record with two properties, one of them a union, and an index signature. -/
def parcelSchema : Schema where
  types := [⟨0⟩]
  nodes := #[
    { SchemaNode.plain "Parcel" with
      name := some "Parcel", properties := [⟨"to", false, ⟨1⟩⟩, ⟨"weight", false, ⟨2⟩⟩]
      indexes := [⟨⟨1⟩, ⟨3⟩⟩] },
    SchemaNode.plain "string",
    { SchemaNode.plain "number | Parcel" with unionOf := [⟨3⟩, ⟨0⟩] },
    SchemaNode.plain "number"]

def wrongParcel : Json :=
  .object [("weight", .object [("to", .null)]), ("height", .bool true), ("width", .bool false)]

/-- One error for each property and for each further member, and none for what the union tried. -/
theorem parcelSchema_errors : parcelSchema.Closed ∧
    (∀ n ∈ parcelSchema.nodes, (n.properties.map (·.name)).Nodup) ∧ wrongParcel.DistinctNames ∧
    (parcelSchema.validate "Parcel" wrongParcel).errorPaths =
      [[.key "to"], [.key "weight"], [.key "height"], [.key "width"]] ∧
    (parcelSchema.validate "Parcel" wrongParcel).errorPaths.Pairwise Apart := by
  have closed : parcelSchema.Closed := ⟨by decide, by decide⟩
  have hproperties : ∀ n ∈ parcelSchema.nodes, (n.properties.map (·.name)).Nodup := by decide
  have hnames : wrongParcel.DistinctNames :=
    ⟨by decide, ⟨List.nodup_singleton _, trivial, trivial⟩, trivial, trivial, trivial⟩
  exact ⟨closed, hproperties, hnames, by decide +kernel,
    (errors_apart parcelSchema closed hproperties wrongParcel hnames).1 "Parcel"⟩

end Schema
end TypedJson
