import TypedJson.Proofs.Verdict
/-!
# Where findings are

The place of a check is the way from the root to the value that is checked.  A finding shows the
value that its path leads to from the root, or, if it shows none, its path ends in the name of a
member that is missing from the object that the rest of the path leads to (`Json.Locates`).  Every
part of a check keeps this for the value of its own place (`Check.FindsWithin`), and a step into the
value lengthens the place and the path alike (`FindsWithin.step`).  The node that a finding shows is
one of the table.

The place is kept in reverse, so a step into the value is a `cons`, and the path of a
finding is the reverse of a place.  The condition that no name occurs twice in an object is
needed for the way back: with a repeated name the path would lead to the first member of the
name.
-/
namespace TypedJson

namespace Json

/-- One step into a value. -/
def step? : Json → Segment → Option Json
  | .array items, .index i => items[i]?
  | .object members, .key name => member? name members
  | _, _ => none

/-- The part of a value that a path leads to. -/
def at? (v : Json) (path : List Segment) : Option Json := path.foldlM step? v

/-- The path leads to the value; or there is no value, and the path leads to where a member is
missing from an object. -/
def Locates (v : Json) (path : List Segment) : Option Json → Prop
  | some j => v.at? path = some j
  | none => ∃ above name members, path = above ++ [.key name] ∧
      v.at? above = some (.object members) ∧ member? name members = none

variable {v j : Json}

theorem at?_cons (v : Json) (s : Segment) (path : List Segment) :
    v.at? (s :: path) = (v.step? s).bind fun j => j.at? path := by
  rw [at?, List.foldlM_cons]
  rfl

theorem at?_append (v : Json) (path rest : List Segment) :
    v.at? (path ++ rest) = (v.at? path).bind fun j => j.at? rest := by
  rw [at?, List.foldlM_append]
  rfl

theorem Locates.step {s : Segment} (hstep : v.step? s = some j) {path : List Segment}
    {value : Option Json} (h : j.Locates path value) : v.Locates (s :: path) value := by
  have hat : ∀ rest, v.at? (s :: rest) = j.at? rest := fun rest => by
    rw [at?_cons, hstep, Option.bind_some]
  cases value with
  | some x => exact (hat path).trans h
  | none =>
    obtain ⟨above, name, members, rfl, habove, hmissing⟩ := h
    exact ⟨s :: above, name, members, rfl, (hat above).trans habove, hmissing⟩

theorem member?_of_mem : ∀ {members : List (String × Json)} {m : String × Json},
    (members.map (·.1)).Nodup → m ∈ members → member? m.1 members = some m.2
  | first :: members, m, hnodup, hm => by
    rw [List.map_cons, List.nodup_cons] at hnodup
    unfold member?
    rw [List.find?_cons]
    rcases List.mem_cons.1 hm with rfl | hm
    · simp
    · have hne : (first.1 == m.1) = false := by
        rw [beq_eq_false_iff_ne]
        exact fun heq => hnodup.1 (heq ▸ List.mem_map_of_mem hm)
      rw [hne]
      exact member?_of_mem hnodup.2 hm

theorem forall_mem_of_cons {α : Type} {A : List α → Prop} {P : α → Prop}
    (hcons : ∀ {a as}, A (a :: as) → P a ∧ A as) : ∀ {as : List α}, A as → ∀ a ∈ as, P a
  | _ :: _, h, a, ha => by
    rcases List.mem_cons.1 ha with rfl | ha
    · exact (hcons h).1
    · exact forall_mem_of_cons hcons (hcons h).2 a ha

theorem distinctNames_of_item {items : List Json} (h : DistinctNamesAll items) :
    ∀ j ∈ items, j.DistinctNames :=
  forall_mem_of_cons (fun h => h) h

theorem distinctNames_of_member {members : List (String × Json)} (h : DistinctNamesMembers members) :
    ∀ m ∈ members, m.2.DistinctNames :=
  forall_mem_of_cons (fun h => h) h

end Json

namespace Check

/-! ## Findings within a value

`FoundWithin` is stated for any place, so that a part of a value can be checked as a value
of its own.  A step outwards changes neither the path nor the value shown, only what they are
counted from. -/

/-- The finding is at the place or below it, is located in the value of that place, and shows a
node of the table. -/
structure FoundWithin (t : NodeTable) (v : Json) (place : Place) (f : Finding) : Prop where
  located : ∃ path, f.path = place.reverse ++ path ∧ v.Locates path f.value
  shown : ∃ c, f.typeInfo = some (t.node c)

def FindsWithin (t : NodeTable) (v : Json) (place : Place) (o : Outcome) : Prop :=
  ∀ f ∈ o.findings, FoundWithin t v place f

namespace FindsWithin

variable {t : NodeTable} {v j : Json} {place : Place} {a b : Outcome}

theorem pass : FindsWithin t v place .pass := fun _ hf => absurd hf List.not_mem_nil

theorem fail : FindsWithin t v place .fail := fun _ hf => absurd hf List.not_mem_nil

theorem both (ha : FindsWithin t v place a) (hb : FindsWithin t v place b) :
    FindsWithin t v place (a.both b) := by
  intro f hf
  rcases List.mem_append.1 hf with hf | hf
  · exact ha f hf
  · exact hb f hf

theorem all : ∀ {os : List Outcome}, (∀ o ∈ os, FindsWithin t v place o) →
    FindsWithin t v place (Outcome.all os)
  | [], _ => pass
  | o :: _, h => (h o List.mem_cons_self).both (all fun x hx => h x (List.mem_cons_of_mem _ hx))

/-- What is found within a part of the value is found within the value. -/
theorem step {s : Segment} (hstep : v.step? s = some j) (h : FindsWithin t j (s :: place) a) :
    FindsWithin t v place a := by
  intro f hf
  obtain ⟨path, hpath, hlocates⟩ := (h f hf).located
  refine ⟨⟨s :: path, ?_, hlocates.step hstep⟩, (h f hf).shown⟩
  rw [hpath, List.reverse_cons, List.append_assoc]
  rfl

theorem failWith (strict : Bool) {f : Finding} (h : FoundWithin t v place f) :
    FindsWithin t v place (failWith strict f) := by
  cases strict with
  | false => exact fail
  | true =>
    intro g hg
    rw [List.mem_singleton.1 hg]
    exact h

theorem passWith {f : Finding} (h : FoundWithin t v place f) : FindsWithin t v place (passWith f) := by
  intro g hg
  rw [List.mem_singleton.1 hg]
  exact h

end FindsWithin

theorem found_here {t : NodeTable} {v : Json} {place : Place} {message : String} {kind : FindingKind}
    {c : NodeId} :
    FoundWithin t v place (finding place message kind (some v) (some (t.node c))) :=
  ⟨⟨[], (List.append_nil _).symm, rfl⟩, c, rfl⟩

section Parts

variable {t : NodeTable} {v : Json} {place : Place} {strict : Bool}

/-- The findings of the checker are located in the value, wherever it stands. -/
def FindsIn (t : NodeTable) (v : Json) (check : Checker) : Prop :=
  ∀ place strict id, FindsWithin t v place (check place strict id)

/-! A finding stands at the place of the check, or a step below it; the rest is inherited from
the checks of the parts.  That a property is absent is a finding one step below as well, at a
key that the object does not have. -/

theorem itemOutcomes_finds {item : NodeId} : ∀ {js : List Json} {i : Nat},
    (∀ k j, js[k]? = some j → v.step? (.index (i + k)) = some j) →
    (∀ j ∈ js, FindsIn t j (checkValue t j)) →
    ∀ o ∈ itemOutcomes place strict item i (checkItems t js), FindsWithin t v place o
  | [], _, _, _ => fun o ho => absurd ho List.not_mem_nil
  | j :: js, i, hstep, hfinds => by
    rw [checkItems, itemOutcomes, List.forall_mem_cons]
    refine ⟨.step (hstep 0 j rfl) (hfinds j List.mem_cons_self _ _ _), ?_⟩
    refine itemOutcomes_finds (fun k x hx => ?_) fun x hx => hfinds x (List.mem_cons_of_mem _ hx)
    rw [Nat.add_assoc, Nat.add_comm 1 k]
    exact hstep (k + 1) x hx

theorem checkAbsent_finds {members : List (String × Json)} {name : String}
    (hmissing : Json.member? name members = none) (optional : Bool) (id : NodeId) :
    FindsWithin t (.object members) place
      (checkAbsent t (.key name :: place) strict optional id) := by
  have hfound : ∀ {message : String} {kind : FindingKind}, FoundWithin t (.object members) place
      (finding (.key name :: place) message kind none (some (t.node id))) :=
    ⟨⟨[.key name], List.reverse_cons, [], name, members, rfl, rfl, hmissing⟩, id, rfl⟩
  unfold checkAbsent
  split
  · exact .pass
  · split
    · exact .failWith strict hfound
    · exact .failWith strict hfound

variable {members : List (String × Json)}

theorem propertyOutcome_finds (hfinds : ∀ m ∈ members, FindsIn t m.2 (checkValue t m.2))
    (p : Property) : FindsWithin t (.object members) place
      (propertyOutcome t place strict (checkMembers t members) p) := by
  unfold propertyOutcome
  rw [checkMembers_eq_map, member?_map]
  cases hm : Json.member? p.name members with
  | none => exact checkAbsent_finds hm p.isOptional p.type
  | some j =>
    have hstep : (Json.object members).step? (.key p.name) = some j := hm
    exact .step hstep (hfinds _ (Json.mem_of_member? hm) _ _ _)

theorem memberOutcome_finds (n : SchemaNode) {m : String × Json}
    (hstep : (Json.object members).step? (.key m.1) = some m.2)
    (hfinds : FindsIn t m.2 (checkValue t m.2)) : FindsWithin t (.object members) place
      (memberOutcome t n place strict (m.1, checkValue t m.2)) := by
  unfold memberOutcome
  split
  · exact .step hstep (hfinds _ _ _)
  · exact .pass

theorem objectOutcome_finds (hnodup : (members.map (·.1)).Nodup)
    (hfinds : ∀ m ∈ members, FindsIn t m.2 (checkValue t m.2)) (c : NodeId) :
    FindsWithin t (.object members) place
      (objectOutcome t place strict (t.node c) (.object members) (checkMembers t members)) := by
  have hproperties : FindsWithin t (.object members) place
      (.all ((t.node c).properties.map (propertyOutcome t place strict (checkMembers t members)))) :=
    .all (List.forall_mem_map.2 fun p _ => propertyOutcome_finds hfinds p)
  have hmembers : FindsWithin t (.object members) place
      (.all ((checkMembers t members).map (memberOutcome t (t.node c) place strict))) := by
    rw [checkMembers_eq_map, List.map_map]
    exact .all (List.forall_mem_map.2 fun m hm =>
      memberOutcome_finds _ (Json.member?_of_mem hnodup hm) (hfinds m hm))
  refine hproperties.both (hmembers.both ?_)
  unfold unknownOutcome
  split
  · exact .passWith found_here
  · exact .pass

/-! The outcomes of one value have at most one finding of their own, and it is at the value
itself. -/

theorem dateOutcome_finds (c : NodeId) :
    FindsWithin t v place (dateOutcome place strict (t.node c) v) := by
  unfold dateOutcome
  split
  · exact .passWith found_here
  · exact .pass
  · exact .failWith strict found_here

theorem patternOutcome_finds (c : NodeId) :
    FindsWithin t v place (patternOutcome place strict (t.node c) v) := by
  unfold patternOutcome
  split
  · exact .pass
  · split
    · exact .passWith found_here
    · exact .failWith strict found_here

theorem plainOutcome_finds (c : NodeId) (checks : List (String × Checker))
    (hobject : ∀ members, v = .object members →
      FindsWithin t v place (objectOutcome t place strict (t.node c) v checks)) :
    FindsWithin t v place (plainOutcome t place strict (t.node c) v checks) := by
  unfold plainOutcome
  split
  · exact .pass
  · split
    case h_5 => exact dateOutcome_finds c
    case h_6 => exact patternOutcome_finds c
    case h_7 =>
      split
      · split
        · exact hobject _ rfl
        · exact .failWith strict found_here
      · split
        · exact .failWith strict found_here
        · exact .fail
    all_goals
      split
      · exact .pass
      · exact .failWith strict found_here

theorem shapeOutcome_finds (items : List Checker) (checks : List (String × Checker))
    (hitems : ∀ js, v = .array js → ∀ place strict item,
      ∀ o ∈ itemOutcomes place strict item 0 items, FindsWithin t v place o)
    (hobject : ∀ members, v = .object members → ∀ place strict c,
      FindsWithin t v place (objectOutcome t place strict (t.node c) v checks)) :
    FindsIn t v (shapeOutcome t v items checks) := by
  intro place strict c
  unfold shapeOutcome
  dsimp only
  split
  · split
    · exact .pass
    · exact .failWith strict found_here
  · exact .all (hitems _ rfl place strict _)
  · exact .failWith strict found_here
  · exact .failWith strict found_here
  · exact plainOutcome_finds c checks fun members hv => hobject members hv place strict c

theorem unionOutcome_finds {shape : Checker} (hshape : FindsIn t v shape) :
    FindsIn t v (unionOutcome t v shape) := by
  intro place strict id
  unfold unionOutcome
  split
  · exact hshape place strict id
  · split
    · rename_i trial hfirst
      obtain ⟨-, c, -, rfl⟩ := firstAccepted?_eq_some hfirst
      exact hshape place false c
    · exact .failWith strict found_here

end Parts

/-- **Every finding of a check is located in the value.** -/
theorem checkValue_finds (t : NodeTable) : ∀ v : Json, v.DistinctNames → FindsIn t v (checkValue t v)
  | .array items, hnames => by
    have hfinds : ∀ j ∈ items, FindsIn t j (checkValue t j) := fun j hj =>
      checkValue_finds t j (Json.distinctNames_of_item hnames j hj)
    rw [checkValue]
    refine unionOutcome_finds (shapeOutcome_finds _ _ ?_ (by simp))
    rintro js ⟨⟩ place strict item
    refine itemOutcomes_finds (fun k j hj => ?_) hfinds
    rw [Nat.zero_add]
    exact hj
  | .object members, hnames => by
    have hfinds : ∀ m ∈ members, FindsIn t m.2 (checkValue t m.2) := fun m hm =>
      checkValue_finds t m.2 (Json.distinctNames_of_member hnames.2 m hm)
    rw [checkValue]
    refine unionOutcome_finds (shapeOutcome_finds _ _ (by simp) ?_)
    rintro ms ⟨⟩ place strict c
    exact objectOutcome_finds hnames.1 hfinds c
  | .null, _ | .bool _, _ | .number _, _ | .string _, _ => by
    rw [checkValue]
    exact unionOutcome_finds (shapeOutcome_finds [] [] (by simp) (by simp))
termination_by v => sizeOf v
decreasing_by
  · exact Json.sizeOf_item_lt ‹_›
  · exact Json.sizeOf_value_lt ‹_›

end Check

namespace Report

theorem locates_ofNode (t : NodeTable) (id : NodeId) {v : Json} (hnames : v.DistinctNames) :
    ∀ f ∈ (ofNode t id v).findings, v.Locates f.path f.value := by
  intro f hf
  obtain ⟨path, hpath, hlocates⟩ := (Check.checkValue_finds t v hnames [] true id f hf).located
  rw [hpath]
  exact hlocates

theorem locates_validate (s : Schema) (reference : String) {v : Json} (hnames : v.DistinctNames) :
    ∀ f ∈ (s.validate reference v).findings, v.Locates f.path f.value := by
  unfold Schema.validate
  split
  · exact locates_ofNode _ _ hnames
  · intro f hf
    rw [List.mem_singleton.1 hf]
    rfl

end Report

/-- **Findings are located**: the path of every finding leads to the value that the finding shows,
or, if it shows none, to where a member is missing from an object. -/
theorem Schema.validate_locates (s : Schema) (reference : String) (v : Json)
    (hnames : v.DistinctNames) : ∀ f ∈ (s.validate reference v).findings,
      (∀ j, f.value = some j → v.at? f.path = some j) ∧
      (f.value = none → ∃ above name members, f.path = above ++ [.key name] ∧
        v.at? above = some (.object members) ∧ Json.member? name members = none) := by
  intro f hf
  have hlocates := Report.locates_validate s reference hnames f hf
  refine ⟨fun j hj => ?_, fun hnone => ?_⟩
  · rw [hj] at hlocates
    exact hlocates
  · rw [hnone] at hlocates
    exact hlocates

/-- A type with a required property, which the value below lacks, and a list of texts. -/
def pageSchema : Schema where
  types := [⟨0⟩]
  nodes := #[
    { SchemaNode.plain "Page" with
      name := some "Page", properties := [⟨"title", false, ⟨1⟩⟩, ⟨"tags", false, ⟨2⟩⟩] },
    SchemaNode.plain "string",
    { SchemaNode.plain "string[]" with arrayOf := some ⟨1⟩ }]

def untitledPages : Json := .array [.object [("tags", .array [.string "a", .bool true])]]

/-- The first finding is where the title of the page is missing, the second at the second tag. -/
theorem pageSchema_locates : untitledPages.DistinctNames ∧
    (pageSchema.validate "Page[]" untitledPages).findings.map (fun f => (f.path, f.kind)) =
      [([.index 0, .key "title"], .missingProperty),
        ([.index 0, .key "tags", .index 1], .typeMismatch)] ∧
    ∀ f ∈ (pageSchema.validate "Page[]" untitledPages).findings,
      (∀ j, f.value = some j → untitledPages.at? f.path = some j) ∧
      (f.value = none → ∃ above name members, f.path = above ++ [.key name] ∧
        untitledPages.at? above = some (.object members) ∧ Json.member? name members = none) := by
  have hnames : untitledPages.DistinctNames :=
    ⟨⟨List.nodup_singleton _, ⟨trivial, trivial, trivial⟩, trivial⟩, trivial⟩
  exact ⟨hnames, by decide +kernel, pageSchema.validate_locates "Page[]" untitledPages hnames⟩

end TypedJson
