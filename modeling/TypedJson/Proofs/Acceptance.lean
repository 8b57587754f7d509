import TypedJson.Proofs.Guarded
import TypedJson.Schema.Format
/-!
# Which schema files are accepted

A schema is accepted if its fields can be read and every number in it is that of one of its
nodes (`Schema.decode_eq_ok_iff`).  Therefore a check against an accepted schema never looks
for a node that does not exist and always comes to an end (`Schema.accepted_iff_and_validates`).

The decoder reads the fields first and looks for a number out of range afterwards, in the
types list and in every node.  `InRange` is the same as a condition on the schema, field by
field, and `Schema.Closed` as one on the tables that a check walks through; the module
proves the three equivalent.
-/
namespace TypedJson
namespace Schema

/-- The decoder of the fields of a schema, whatever nodes they refer to. -/
def decodeFields : Decoder Schema := record.decode [1] ⟨[], #[]⟩

/-- Every number in the schema is that of one of its nodes. -/
structure InRange (s : Schema) : Prop where
  types : ∀ id ∈ s.types, id.index < s.size
  items : ∀ n ∈ s.nodes, ∀ id, n.arrayOf = some id → id.index < s.size
  branches : ∀ n ∈ s.nodes, ∀ id ∈ n.unionOf, id.index < s.size
  properties : ∀ n ∈ s.nodes, ∀ p ∈ n.properties, p.type.index < s.size
  indexes : ∀ n ∈ s.nodes, ∀ x ∈ n.indexes, x.keyType.index < s.size ∧ x.valueType.index < s.size

variable {s : Schema}

/-! The decoder looks through a list of pairs, each number with the node that refers to it, and
stops at the first one out of range.  That list has all numbers in it, so nothing out of
range means closed. -/

theorem mem_references_iff {owner target : NodeId} :
    (owner, target) ∈ s.references ↔ (target ∈ s.types ∧ owner = target) ∨
      ∃ n, s.nodes[owner.index]? = some n ∧ target ∈ n.references := by
  unfold references
  rw [List.mem_append, List.mem_map, List.mem_flatMap]
  refine or_congr ?_ ?_
  · constructor
    · rintro ⟨id, hid, heq⟩
      cases heq
      exact ⟨hid, rfl⟩
    · rintro ⟨htarget, rfl⟩
      exact ⟨owner, htarget, rfl⟩
  · constructor
    · rintro ⟨⟨n, i⟩, hn, hmem⟩
      obtain ⟨r, hr, heq⟩ := List.mem_map.1 hmem
      cases heq
      rw [List.mk_mem_zipIdx_iff_getElem?, Array.getElem?_toList] at hn
      exact ⟨n, hn, hr⟩
    · rintro ⟨n, hn, hr⟩
      refine ⟨(n, owner.index), ?_, List.mem_map.2 ⟨target, hr, rfl⟩⟩
      rw [List.mk_mem_zipIdx_iff_getElem?, Array.getElem?_toList]
      exact hn

theorem dangling?_eq_none_iff :
    s.dangling? = none ↔ ∀ owner target, (owner, target) ∈ s.references → target.index < s.size := by
  unfold dangling?
  rw [List.find?_eq_none]
  constructor
  · intro h owner target hmem
    have hnot := h (owner, target) hmem
    exact Nat.lt_of_not_le fun hle => hnot (decide_eq_true hle)
  · rintro h ⟨owner, target⟩ hmem hle
    exact Nat.not_le_of_lt (h owner target hmem) (of_decide_eq_true hle)

theorem node_of_getElem? {i : Nat} {n : SchemaNode} (h : s.nodes[i]? = some n) :
    s.table.node ⟨i⟩ = n := by
  show s.nodes.getD i _ = n
  rw [Array.getD_eq_getD_getElem?, h]
  rfl

theorem dangling?_eq_none_iff_closed : s.dangling? = none ↔ s.Closed := by
  rw [dangling?_eq_none_iff]
  constructor
  · intro h
    refine ⟨fun id hid => h id id (mem_references_iff.2 (.inl ⟨hid, rfl⟩)), ?_⟩
    intro id hid target htarget
    have hget : s.nodes[id.index]? = some s.nodes[id.index] := Array.getElem?_eq_getElem hid
    rw [node_of_getElem? hget] at htarget
    exact h id target (mem_references_iff.2 (.inr ⟨_, hget, htarget⟩))
  · intro h owner target hmem
    rcases mem_references_iff.1 hmem with ⟨htypes, -⟩ | ⟨n, hn, htarget⟩
    · exact h.types target htypes
    · have howner : owner.index < s.table.size := (Array.getElem?_eq_some_iff.1 hn).1
      refine h.table owner howner target ?_
      rw [node_of_getElem? hn]
      exact htarget

theorem closed_iff_inRange : s.Closed ↔ s.InRange := by
  constructor
  · intro h
    have refers : ∀ n ∈ s.nodes, ∀ r ∈ n.references, r.index < s.size := by
      intro n hn r hr
      obtain ⟨i, hi⟩ := Array.getElem?_of_mem hn
      have hlt : i < s.table.size := (Array.getElem?_eq_some_iff.1 hi).1
      exact h.table ⟨i⟩ hlt r ((node_of_getElem? hi).symm ▸ hr)
    refine ⟨h.types, fun n hn id hid => ?_, fun n hn id hid => ?_, fun n hn p hp => ?_,
      fun n hn x hx => ⟨?_, ?_⟩⟩
    all_goals
      -- the fields of a node in the order in which its references are listed
      refine refers n hn _ ?_
      simp only [SchemaNode.references, List.mem_append, List.mem_map, List.mem_flatMap,
        Option.mem_toList]
    · exact .inl (.inl (.inl hid))
    · exact .inl (.inl (.inr hid))
    · exact .inl (.inr ⟨p, hp, rfl⟩)
    · exact .inr ⟨x, hx, List.mem_cons_self⟩
    · exact .inr ⟨x, hx, List.mem_cons_of_mem _ List.mem_cons_self⟩
  · intro h
    refine ⟨h.types, fun id hid r hr => ?_⟩
    have hget : s.nodes[id.index]? = some s.nodes[id.index] := Array.getElem?_eq_getElem hid
    have hn := Array.mem_of_getElem? hget
    rw [node_of_getElem? hget] at hr
    simp only [SchemaNode.references, List.mem_append, List.mem_map, List.mem_flatMap,
      Option.mem_toList] at hr
    rcases hr with ((hitem | hbranch) | ⟨p, hp, rfl⟩) | ⟨x, hx, hpart⟩
    · exact h.items _ hn r hitem
    · exact h.branches _ hn r hbranch
    · exact h.properties _ hn p hp
    · rcases List.mem_cons.1 hpart with rfl | hpart
      · exact (h.indexes _ hn x hx).1
      · rw [List.mem_singleton.1 hpart]
        exact (h.indexes _ hn x hx).2

/-! The fields are read before any number is looked at, so what is accepted is what the
decoder of the fields reads, less the schemas with a number out of range. -/

theorem decode_eq_ok_iff {path : JsonPath} {d : Document} :
    decode path d = .ok s ↔ decodeFields path d = .ok s ∧ s.Closed := by
  unfold decode decodeFields
  rw [← dangling?_eq_none_iff_closed]
  cases record.decode [1] ⟨[], #[]⟩ path d with
  | error e =>
    constructor
    · rintro ⟨⟩
    · rintro ⟨⟨⟩, -⟩
  | ok raw =>
    dsimp only [bind, Except.bind]
    cases hdangling : raw.dangling? with
    | none =>
      constructor
      · rintro ⟨⟩
        exact ⟨rfl, hdangling⟩
      · exact fun h => h.1
    | some r =>
      constructor
      · rintro ⟨⟩
      · rintro ⟨⟨⟩, hnone⟩
        rw [hdangling] at hnone
        cases hnone

theorem loadText_eq_ok_iff {α : Type} {decode : Decoder α} {text : String} {a : α} :
    loadText decode text = .ok a ↔ decode [] (Document.ofSource (Source.ofString text)) = .ok a := by
  unfold loadText loadSource
  cases decode [] (Document.ofSource (Source.ofString text)) with
  | ok b => exact ⟨fun h => (by cases h; rfl), fun h => (by cases h; rfl)⟩
  | error e => exact ⟨fun h => (by cases h), fun h => (by cases h)⟩

theorem ofText_eq_ok_iff {text : String} :
    ofText text = .ok s ↔ loadText decodeFields text = .ok s ∧ s.Closed := by
  unfold ofText
  rw [loadText_eq_ok_iff, loadText_eq_ok_iff, decode_eq_ok_iff]

/-- **A file whose fields can be read is accepted exactly if every number in it is that of one of
its nodes; and whatever the reference and the value, a check against an accepted schema answers
without a lookup of a node that the schema, or the nodes of the reference, lack.** -/
theorem accepted_iff_and_validates (text : String) :
    (∀ raw, loadText decodeFields text = .ok raw →
      ((∃ s, ofText text = .ok s) ↔ raw.InRange)) ∧
    ∀ s, ofText text = .ok s → ∀ reference value,
      Guarded.validate s reference value = some (s.validate reference value) := by
  refine ⟨fun raw hraw => ?_, fun s hs reference value =>
    Guarded.validate_eq (ofText_eq_ok_iff.1 hs).2 reference value⟩
  rw [← closed_iff_inRange]
  constructor
  · rintro ⟨s, hs⟩
    obtain ⟨hfields, hclosed⟩ := ofText_eq_ok_iff.1 hs
    rw [hraw] at hfields
    cases hfields
    exact hclosed
  · exact fun h => ⟨raw, ofText_eq_ok_iff.2 ⟨hraw, h⟩⟩

/-- A union of itself and of an array of itself, which is the key type of its own index
signature. -/
def loopText : String :=
  "\x7b\"types\":[0],\"nodes\":[\x7b\"name\":\"Loop\",\"displayName\":\"Loop\",\"unionOf\":[0,1]\x7d," ++
    "\x7b\"displayName\":\"Loop[]\",\"arrayOf\":0,\"indexes\":[\x7b\"keyType\":0,\"valueType\":0\x7d]\x7d]\x7d"

/-- The description of the union goes round in the schema and comes to an end. -/
theorem loopText_validates : ∃ s, loadText decodeFields loopText = .ok s ∧ s.InRange ∧
    ofText loopText = .ok s ∧
    Guarded.validate s "Loop[][]" (.array [.bool true]) =
      some (s.validate "Loop[][]" (.array [.bool true])) ∧
    (s.validate "Loop[][]" (.array [.array [.bool true]])).hasErrors = true := by
  obtain ⟨haccepts, hvalidates⟩ := accepted_iff_and_validates loopText
  have hsome : (ofText loopText).toOption.isSome = true := by decide +kernel
  have herrors : (ofText loopText).toOption.map (fun s =>
      (s.validate "Loop[][]" (.array [.array [.bool true]])).hasErrors) = some true := by
    decide +kernel
  cases hload : ofText loopText with
  | error e =>
    rw [hload] at hsome
    cases hsome
  | ok s =>
    rw [hload] at herrors
    have hfields := (ofText_eq_ok_iff.1 hload).1
    exact ⟨s, hfields, (haccepts s hfields).1 ⟨s, hload⟩, rfl, hvalidates s hload _ _,
      Option.some.inj herrors⟩

end Schema
end TypedJson
