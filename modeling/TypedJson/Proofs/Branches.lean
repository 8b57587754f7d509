import TypedJson.Proofs.Verdict
/-!
# Unions and their branches

A value that passes a branch passes the union: the union accepts what one of its branches
accepts on trial (`NodeTable.conforms_of_branch`), and a node with a union never fails
without a finding (`hasErrors_eq_false_iff_of_union`).  The branch itself is checked
strictly, and there a value can fail without one: a node that says nothing of its values
fails them in silence.  So the branch, and whatever its check goes on to, has to have a shape
(`hasErrors_union_of_branch`).

The asymmetry comes from the modes.  In a union the candidates are tried, without findings,
and if none of them accepts the union says so itself.  A branch that is checked by itself is
checked strictly, and what it says is what its own shape says.  `GoesOnTo` follows a strict
check from node to node as long as it stays strict, that is, up to the next union.
-/
namespace TypedJson

namespace NodeTable

variable {t : NodeTable}

/-- A strict check of the first node goes on to a strict check of the second. -/
def GoesOnTo (t : NodeTable) (a b : NodeId) : Prop :=
  b ∈ (t.node a).checkedParts ∧ (t.node b).unionOf = []

theorem shapedWithin_reachable {b : NodeId}
    (shaped : ∀ r, Relation.ReflTransGen t.GoesOnTo b r → (t.node r).HasShape) :
    Check.ShapedWithin t (Relation.ReflTransGen t.GoesOnTo b) :=
  fun c _ hc => ⟨shaped c hc, fun _ hr hleaf => hc.tail ⟨hr, hleaf⟩⟩

theorem conforms_of_branch {v : Json} {id b : NodeId} (hb : b ∈ (t.node id).unionOf)
    (hleaf : (t.node b).unionOf = []) (h : t.Conforms v b) : t.Conforms v id := by
  obtain ⟨c, hc, hfits⟩ := (conforms_iff_fits t v b).1 h
  rw [candidates, hleaf, List.mem_singleton] at hc
  subst hc
  exact (conforms_iff_fits t v id).2 ⟨c, List.mem_cons_of_mem _ hb, hfits⟩

end NodeTable

variable {t : NodeTable}

theorem hasErrors_eq_false_iff_of_shapedWithin (closed : t.Closed) {S : NodeId → Prop}
    (shaped : Check.ShapedWithin t S) {id : NodeId} (hid : id.index < t.size)
    (hS : (t.node id).unionOf = [] → S id) (v : Json) :
    (Report.ofNode t id v).hasErrors = false ↔ t.Conforms v id := by
  rw [← Check.ok_checkValue_iff closed v [] true id hid]
  have h : (Report.ofNode t id v).hasErrors = (true && !(Check.checkValue t v [] true id).ok) :=
    Check.checkValue_truthfulWithin closed shaped v [] true id hid fun _ => hS
  rw [h, Bool.true_and, Bool.not_eq_false']

/-- **A node with a union says of every value whether it conforms**, whatever the nodes of its
branches are like. -/
theorem hasErrors_eq_false_iff_of_union (closed : t.Closed) {id : NodeId} (hid : id.index < t.size)
    (hunion : (t.node id).unionOf ≠ []) (v : Json) :
    (Report.ofNode t id v).hasErrors = false ↔ t.Conforms v id := by
  have hnone : Check.ShapedWithin t fun _ => False := fun _ _ h => h.elim
  exact hasErrors_eq_false_iff_of_shapedWithin closed hnone hid (fun h => hunion h) v

/-- **A union is never stricter than its branches**, if a check of the branch goes on to nodes
with a shape only. -/
theorem hasErrors_union_of_branch (t : NodeTable) (closed : t.Closed) {id b : NodeId}
    (hid : id.index < t.size) (hb : b ∈ (t.node id).unionOf) (hleaf : (t.node b).unionOf = [])
    (shaped : ∀ r, Relation.ReflTransGen t.GoesOnTo b r → (t.node r).HasShape) (v : Json)
    (h : (Report.ofNode t b v).hasErrors = false) : (Report.ofNode t id v).hasErrors = false := by
  have hbranch : t.Conforms v b :=
    (hasErrors_eq_false_iff_of_shapedWithin closed (NodeTable.shapedWithin_reachable shaped)
      (closed.branch hid hb) (fun _ => .refl) v).1 h
  have hunion : (t.node id).unionOf ≠ [] := List.ne_nil_of_mem hb
  exact (hasErrors_eq_false_iff_of_union closed hid hunion v).2
    (NodeTable.conforms_of_branch hb hleaf hbranch)

/-- A union of a structure and of a type of which nothing is known. -/
def looseTable : NodeTable := .ofArray #[
  { SchemaNode.plain "Point | any" with unionOf := [⟨1⟩, ⟨2⟩] },
  { SchemaNode.plain "Point" with properties := [⟨"x", false, ⟨3⟩⟩] },
  SchemaNode.plain "any",
  SchemaNode.plain "number"]

/-- What passes the structure passes the union. -/
theorem looseTable_union_of_structure :
    looseTable.Closed ∧ (⟨1⟩ : NodeId) ∈ (looseTable.node ⟨0⟩).unionOf ∧
      (∀ r, Relation.ReflTransGen looseTable.GoesOnTo ⟨1⟩ r → (looseTable.node r).HasShape) ∧
      (Report.ofNode looseTable ⟨1⟩ (.object [("x", .number (.int 3))])).hasErrors = false ∧
      (Report.ofNode looseTable ⟨0⟩ (.object [("x", .number (.int 3))])).hasErrors = false := by
  have closed : looseTable.Closed := by decide
  have hb : (⟨1⟩ : NodeId) ∈ (looseTable.node ⟨0⟩).unionOf := by decide
  have hparts : ∀ r, Relation.ReflTransGen looseTable.GoesOnTo ⟨1⟩ r → r = ⟨1⟩ ∨ r = ⟨3⟩ := by
    intro r hr
    induction hr with
    | refl => exact .inl rfl
    | tail _ hstep ih =>
      obtain ⟨hmem, -⟩ := hstep
      rcases ih with rfl | rfl
      · exact .inr (List.mem_singleton.1 hmem)
      · cases hmem
  have shaped : ∀ r, Relation.ReflTransGen looseTable.GoesOnTo ⟨1⟩ r →
      (looseTable.node r).HasShape := by
    intro r hr
    rcases hparts r hr with rfl | rfl
    · decide
    · decide
  have hbranch : (Report.ofNode looseTable ⟨1⟩ (.object [("x", .number (.int 3))])).hasErrors = false := by
    decide
  exact ⟨closed, hb, shaped, hbranch,
    hasErrors_union_of_branch looseTable closed (by decide) hb (by decide) shaped _ hbranch⟩

/-- **Where nothing is known of a branch, the union is stricter**: the branch fails the value in
silence, the union with an error. -/
theorem looseTable_stricter :
    looseTable.Closed ∧ (⟨2⟩ : NodeId) ∈ (looseTable.node ⟨0⟩).unionOf ∧
      (looseTable.node ⟨2⟩).unionOf = [] ∧
      (Report.ofNode looseTable ⟨2⟩ (.bool true)).hasErrors = false ∧
      (Report.ofNode looseTable ⟨0⟩ (.bool true)).hasErrors = true := by
  decide

end TypedJson
