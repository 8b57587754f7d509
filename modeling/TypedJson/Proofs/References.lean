import TypedJson.Proofs.Guarded
/-!
# What a reference resolves to

A reference names a type, or it stands for an array over what is left of it without its last pair of
brackets (`Reference.resolveChars?_induction`).  So it resolves to a node of the schema or to one of a few
further nodes: primitives and arrays, which have no properties, and no more of them than the reference
has characters.

The recursion that resolves a reference drops brackets from the end, so it is not
structural; the principle above is proved once and used for every statement on resolved
references.
-/
namespace TypedJson

namespace Reference

variable {s : Schema}

/-- Induction along the brackets at the end of a reference. -/
theorem resolveChars?_induction {P : List Char → Resolved → Prop}
    (direct : ∀ cs r, direct? s (String.ofList cs) = some r → P cs r)
    (wrap : ∀ cs base r, dropBrackets? cs = some base → P base r → P cs r.wrap) (cs : List Char)
    (r : Resolved) (h : resolveChars? s cs = some r) : P cs r := by
  rw [Guarded.unguarded_resolveChars?] at h
  split at h
  · rename_i found hfound
    cases h
    exact direct cs r hfound
  · split at h
    · rename_i base hbase
      have hshorter := length_dropBrackets? hbase
      obtain ⟨inner, hinner, rfl⟩ := Option.map_eq_some_iff.1 h
      exact wrap cs base inner hbase (resolveChars?_induction direct wrap base inner hinner)
    · cases h
termination_by cs.length

/-- The nodes that a resolved reference has beyond those of the schema. -/
structure Brings (s : Schema) (cs : List Char) (r : Resolved) : Prop where
  schema : r.schema = s
  length : r.synthetic.length ≤ cs.length
  properties : ∀ n ∈ r.synthetic, n.properties = []

theorem direct?_brings (cs : List Char) (r : Resolved) (h : direct? s (String.ofList cs) = some r) :
    Brings s cs r := by
  unfold direct? at h
  dsimp only at h
  split at h
  · rename_i hprimitive
    cases h
    refine ⟨rfl, ?_, fun n hn => by rw [List.mem_singleton.1 hn]; rfl⟩
    -- the empty reference is no primitive
    match cs, hprimitive with
    | [], hprimitive => exact absurd hprimitive (by decide)
    | c :: cs, _ => exact Nat.succ_le_succ (Nat.zero_le _)
  · obtain ⟨id, -, rfl⟩ := Option.map_eq_some_iff.1 h
    exact ⟨rfl, Nat.zero_le _, fun n hn => absurd hn List.not_mem_nil⟩

theorem wrap_brings (cs base : List Char) (r : Resolved) (hbase : dropBrackets? cs = some base)
    (h : Brings s base r) : Brings s cs r.wrap := by
  refine ⟨h.schema, ?_, ?_⟩
  · have hlength : r.wrap.synthetic.length = r.synthetic.length + 1 := List.length_append
    rw [hlength]
    exact Nat.succ_le_of_lt (Nat.lt_of_le_of_lt h.length (length_dropBrackets? hbase))
  · intro n hn
    rcases List.mem_append.1 hn with hn | hn
    · exact h.properties n hn
    · rw [List.mem_singleton.1 hn]
      rfl

theorem resolve?_brings {reference : String} {r : Resolved} (h : resolve? s reference = some r) :
    Brings s reference.toList r :=
  resolveChars?_induction direct?_brings wrap_brings reference.toList r h

theorem closed_of_resolve? (hclosed : s.Closed) {reference : String} {r : Resolved}
    (h : resolve? s reference = some r) : r.Closed :=
  (Guarded.resolveChars?_eq hclosed reference.toList).2 r h

end Reference

namespace Resolved

variable {r : Resolved}

theorem node_of_lt {id : NodeId} (h : id.index < r.size) :
    (id.index < r.schema.size ∧ r.node id = r.schema.node id) ∨ r.node id ∈ r.synthetic := by
  unfold node
  by_cases hschema : id.index < r.schema.size
  · rw [if_pos hschema]
    exact .inl ⟨hschema, rfl⟩
  · rw [if_neg hschema, List.getD_eq_getElem?_getD]
    have hsynthetic : id.index - r.schema.size < r.synthetic.length := by
      unfold size at h
      omega
    rw [List.getElem?_eq_getElem hsynthetic]
    exact .inr (List.getElem_mem hsynthetic)

end Resolved

theorem Schema.node_mem {s : Schema} {id : NodeId} (h : id.index < s.size) : s.node id ∈ s.nodes := by
  show s.nodes.getD id.index _ ∈ s.nodes
  rw [Array.getD_eq_getD_getElem?, Array.getElem?_eq_getElem h]
  exact Array.getElem_mem h

end TypedJson
