import TypedJson.Proofs.Conformance
/-!
# Checks with guarded lookups

A check follows node numbers from table to table: from the reference to its node, from a node to
its items, properties, signatures and branches, and along the branches in the search for `null`,
in the search for a key and in the description of a node.  Here every one of these steps is
guarded: a computation ends without a result as soon as it looks up a node that the table lacks,
or as soon as one of the three walks along the nodes goes deeper than the table is large.

The main statement is that this never happens.  In a closed table the guarded check of any value
against any node answers, and it answers what the check answers (`Guarded.checkValue_eq`); and the
table behind every reference that a closed schema resolves is closed (`Guarded.resolve_eq`).

The check that runs takes a default node for a number that is out of range, and cuts a walk
off where its fuel ends.  Both would hide a mistake.  The guarded version has `Option` where
the check has a default, and is otherwise the same program, function by function; so to
prove that it always answers is to prove that the defaults are never taken.
-/
namespace TypedJson
namespace Guarded

/-- The node of that number, if the table has it. -/
def node (t : NodeTable) (id : NodeId) : Option SchemaNode :=
  if id.index < t.size then some (t.node id) else none

theorem node_eq {t : NodeTable} {id : NodeId} (hid : id.index < t.size) :
    node t id = some (t.node id) := if_pos hid

/-! ## Walks along the nodes

Two walks go along branches and one along the parts that a description mentions.  All keep a
list of distinct nodes of the table that they have been to, so the list is no longer than
the table, and the fuel is one more than that. -/

/-- The search along union branches.  It has no result if its fuel does not last. -/
def anyBranchWithin (t : NodeTable) (p : SchemaNode → Bool) :
    Nat → NodeId → List NodeId → Option (Bool × List NodeId)
  | 0, _, _ => none
  | fuel + 1, id, seen =>
    if seen.contains id then some (false, seen)
    else do
      let n ← node t id
      if p n then some (true, id :: seen)
      else
        n.unionOf.foldlM
          (fun (found, seen) b =>
            if found then some (found, seen) else anyBranchWithin t p fuel b seen)
          (false, id :: seen)

def anyBranch (t : NodeTable) (p : SchemaNode → Bool) (id : NodeId) : Option Bool :=
  (anyBranchWithin t p (t.size + 1) id []).map (·.1)

/-- The description of a node; `stack` holds the nodes around it. -/
def describeWithin (t : NodeTable) : Nat → List NodeId → NodeId → Option String
  | 0, _, _ => none
  | fuel + 1, stack, id => do
    let n ← node t id
    if stack.contains id then some n.displayName
    else
      match n.arrayOf, n.unionOf with
      | some item, _ => do
        some (NodeTable.arrayText (← describeWithin t fuel (id :: stack) item))
      | none, [] => some n.displayName
      | none, branches => do
        let texts ← branches.mapM (describeWithin t fuel (id :: stack))
        some (" | ".intercalate (texts ++ n.allowedValues.values.map (·.text)
          ++ (if n.isNullable then ["null"] else [])))

def describe (t : NodeTable) (id : NodeId) : Option String := describeWithin t (t.size + 1) [] id

section Walks

variable {t : NodeTable}

/-- What a search has looked at, and what it may look at next, is in the table. -/
structure Visited (t : NodeTable) (fuel : Nat) (seen : List NodeId) : Prop where
  nodup : seen.Nodup
  lt : ∀ x ∈ seen, x.index < t.size
  enough : t.size + 1 ≤ fuel + seen.length

theorem Visited.start (t : NodeTable) : Visited t (t.size + 1) [] :=
  ⟨List.nodup_nil, fun _ h => (by cases h), Nat.le_refl _⟩

theorem Visited.fuel_pos {fuel : Nat} {seen : List NodeId} (h : Visited t fuel seen) :
    0 < fuel := by
  have hlen := length_le_of_nodup_of_lt NodeId.index NodeId.index_injective seen t.size h.nodup h.lt
  have henough := h.enough
  omega

theorem Visited.cons {fuel : Nat} {seen : List NodeId} {id : NodeId} (h : Visited t (fuel + 1) seen)
    (hid : id.index < t.size) (hnew : id ∉ seen) : Visited t fuel (id :: seen) where
  nodup := List.nodup_cons.2 ⟨hnew, h.nodup⟩
  lt := by
    intro x hx
    rcases List.mem_cons.1 hx with rfl | hx
    · exact hid
    · exact h.lt x hx
  enough := by
    have henough := h.enough
    rw [List.length_cons]
    omega

theorem Visited.explored {fuel : Nat} {seen seen' : List NodeId} {g : Search.Graph NodeId}
    {p : NodeId → Bool} (hg : g.size = t.size) (hindex : g.index = NodeId.index)
    (h : Visited t fuel seen) (hexplored : Search.Explored g p seen seen') :
    Visited t fuel seen' where
  nodup := hexplored.nodup
  lt := by
    intro x hx
    have hlt := hexplored.lt x hx
    rwa [hg, hindex] at hlt
  enough := by
    have hle := h.nodup.length_le_of_subset hexplored.subset
    have henough := h.enough
    omega

/-- **A search along the branches looks up nodes of the table only, and its fuel lasts.** -/
theorem anyBranchWithin_eq (closed : t.Closed) (p : SchemaNode → Bool) :
    ∀ (fuel : Nat) (id : NodeId) (seen : List NodeId), id.index < t.size → Visited t fuel seen →
      anyBranchWithin t p fuel id seen =
        some (search (fun a => (t.node a).unionOf) (fun a => p (t.node a)) fuel id seen)
  | 0, _, _, _, visited => absurd visited.fuel_pos (Nat.lt_irrefl 0)
  | fuel + 1, id, seen, hid, visited => by
    -- the branches one after the other, as long as the search goes on
    have branches : ∀ (bs seen : List NodeId), (∀ b ∈ bs, b.index < t.size) →
        Visited t fuel seen →
        bs.foldlM
          (fun (found, seen) b =>
            if found then some (found, seen) else anyBranchWithin t p fuel b seen) (false, seen) =
        some (bs.foldl
          (fun (found, seen) b => if found then (found, seen) else
            search (fun a => (t.node a).unionOf) (fun a => p (t.node a)) fuel b seen)
          (false, seen)) := by
      intro bs
      induction bs with
      | nil => exact fun _ _ _ => rfl
      | cons b bs ih =>
        intro seen hbs visited
        have hb := hbs b List.mem_cons_self
        have hans := Search.search_answers (t.branchGraph closed) (fun a => p (t.node a)) fuel b
          seen hb visited.nodup visited.lt visited.enough
        rw [List.foldlM_cons, List.foldl_cons]
        simp only [Bool.false_eq_true, if_false]
        rw [anyBranchWithin_eq closed p fuel b seen hb visited]
        change Search.Answers _ _ _ _
          (search (fun a => (t.node a).unionOf) (fun a => p (t.node a)) fuel b seen) at hans
        cases hs : search (fun a => (t.node a).unionOf) (fun a => p (t.node a)) fuel b seen with
        | mk found seen' =>
          rw [hs] at hans
          cases found with
          | true =>
            -- what is found stops the search
            rw [Search.foldl_search_found, Option.bind_eq_bind, Option.bind_some]
            clear ih hans hs hbs hb
            induction bs with
            | nil => rfl
            | cons b bs ih => rw [List.foldlM_cons, if_pos rfl]; exact ih
          | false =>
            exact ih seen' (fun x hx => hbs x (List.mem_cons_of_mem b hx))
              (visited.explored rfl rfl hans.1)
    rw [anyBranchWithin, search]
    by_cases hseen : seen.contains id = true
    · rw [if_pos hseen, if_pos hseen]
    · have hnew : id ∉ seen := fun h => hseen (List.contains_iff_mem.2 h)
      rw [if_neg hseen, if_neg hseen, node_eq hid, Option.bind_eq_bind, Option.bind_some]
      by_cases hp : p (t.node id) = true
      · rw [if_pos hp, if_pos hp]
      · rw [if_neg hp, if_neg hp]
        exact branches _ _ (fun b hb => closed.branch hid hb) (visited.cons hid hnew)

theorem anyBranch_eq (closed : t.Closed) (p : SchemaNode → Bool) {id : NodeId}
    (hid : id.index < t.size) : anyBranch t p id = some (t.anyBranch p id) := by
  unfold anyBranch
  rw [anyBranchWithin_eq closed p _ id [] hid (.start t)]
  rfl

theorem mapM_eq_some {α β : Type} {f : α → Option β} {g : α → β} :
    ∀ {as : List α}, (∀ a ∈ as, f a = some (g a)) → as.mapM f = some (as.map g)
  | [], _ => rfl
  | a :: as, h => by
    rw [List.mapM_cons, h a List.mem_cons_self,
      mapM_eq_some fun x hx => h x (List.mem_cons_of_mem a hx)]
    rfl

/-- **A description looks up nodes of the table only, and its fuel lasts.** -/
theorem describeWithin_eq (closed : t.Closed) :
    ∀ (fuel : Nat) (stack : List NodeId) (id : NodeId), id.index < t.size → Visited t fuel stack →
      describeWithin t fuel stack id = some (t.describeWithin fuel stack id)
  | 0, _, _, _, visited => absurd visited.fuel_pos (Nat.lt_irrefl 0)
  | fuel + 1, stack, id, hid, visited => by
    rw [describeWithin, NodeTable.describeWithin, node_eq hid, Option.bind_eq_bind,
      Option.bind_some]
    dsimp only
    by_cases hstack : stack.contains id = true
    · rw [if_pos hstack, if_pos hstack]
    · have hnew : id ∉ stack := fun h => hstack (List.contains_iff_mem.2 h)
      have inner : ∀ b : NodeId, b.index < t.size → describeWithin t fuel (id :: stack) b =
          some (t.describeWithin fuel (id :: stack) b) := fun b hb =>
        describeWithin_eq closed fuel (id :: stack) b hb (visited.cons hid hnew)
      rw [if_neg hstack, if_neg hstack]
      cases hitem : (t.node id).arrayOf with
      | some item =>
        dsimp only
        rw [inner item (closed.item hid hitem)]
        rfl
      | none =>
        cases hbranches : (t.node id).unionOf with
        | nil => rfl
        | cons b bs =>
          dsimp only
          rw [mapM_eq_some fun x hx => inner x (closed.branch hid (hbranches ▸ hx))]
          rfl

theorem describe_eq (closed : t.Closed) {id : NodeId} (hid : id.index < t.size) :
    describe t id = some (t.describe id) :=
  describeWithin_eq closed _ [] id hid (.start t)

end Walks

/-! ## The check

The functions stand in the order of the check, and after them one lemma for each: with a
closed table and a node of it, the guarded function answers what the other one does.  What a
function goes on to are nodes that the table refers to, so the assumption is handed on by
closedness. -/

open Check

/-- A guarded check of one value. -/
abbrev Checker := Place → Bool → NodeId → Option Outcome

/-- The value fails; a strict check says why, and only then looks for the words. -/
def failWith (strict : Bool) (f : Option Finding) : Option Outcome :=
  if strict then f.map fun f => ⟨false, [f]⟩ else some .fail

def admitsKey (t : NodeTable) (id : NodeId) (key : String) : Option Bool :=
  anyBranch t (fun n => nodeAdmits n key) id

/-- The first index signature whose key type admits the key. -/
def signatureFor? (t : NodeTable) (key : String) : List IndexSignature → Option (Option IndexSignature)
  | [] => some none
  | x :: rest => do if ← admitsKey t x.keyType key then some (some x) else signatureFor? t key rest

def itemOutcomes (place : Place) (strict : Bool) (item : NodeId) :
    Nat → List Checker → Option (List Outcome)
  | _, [] => some []
  | i, check :: rest => do
    let first ← check (.index i :: place) strict item
    let others ← itemOutcomes place strict item (i + 1) rest
    some (first :: others)

def describedMismatch (t : NodeTable) (place : Place) (id : NodeId) (value : Option Json) :
    Option Finding := do
  let text ← describe t id
  let n ← node t id
  some (finding place
    ("Expected a value matching `" ++ text ++ "`, encountered " ++ Json.typeName value)
    .typeMismatch value (some n))

/-- The check of a value that is not there looks at the node and at its branches. -/
def checkAbsent (t : NodeTable) (place : Place) (strict optional : Bool) (id : NodeId) :
    Option Outcome := do
  let n ← node t id
  if optional then some .pass
  else
    let _ ← n.unionOf.mapM (node t)
    if n.unionOf.isEmpty then failWith strict (some (required place n none))
    else failWith strict (describedMismatch t place id none)

def propertyOutcome (t : NodeTable) (place : Place) (strict : Bool)
    (members : List (String × Checker)) (p : Property) : Option Outcome :=
  let inner := Segment.key p.name :: place
  match Json.member? p.name members with
  | some check => check inner strict p.type
  | none => checkAbsent t inner strict p.isOptional p.type

def roleOf (t : NodeTable) (n : SchemaNode) (key : String) : Option KeyRole :=
  if (n.property? key).isSome then some .declared
  else do
    match ← signatureFor? t key n.indexes with
    | some x => some (.signature x)
    | none => some .unknown

def memberOutcome (t : NodeTable) (n : SchemaNode) (place : Place) (strict : Bool)
    (member : String × Checker) : Option Outcome := do
  match ← roleOf t n member.1 with
  | .signature x => member.2 (.key member.1 :: place) strict x.valueType
  | _ => some .pass

/-- The keys that the node knows nothing of, in the order of the data. -/
def unknownKeys (t : NodeTable) (n : SchemaNode) : List String → Option (List String)
  | [] => some []
  | key :: rest => do
    let role ← roleOf t n key
    let others ← unknownKeys t n rest
    match role with
    | .unknown => some (key :: others)
    | _ => some others

def objectOutcome (t : NodeTable) (place : Place) (strict : Bool) (n : SchemaNode) (value : Json)
    (members : List (String × Checker)) : Option Outcome := do
  let declared ← n.properties.mapM (propertyOutcome t place strict members)
  let others ← members.mapM (memberOutcome t n place strict)
  let unknown ← unknownKeys t n (members.map (·.1))
  some ((Outcome.all declared).both
    ((Outcome.all others).both (unknownOutcome place strict n value unknown)))

def plainOutcome (t : NodeTable) (place : Place) (strict : Bool) (n : SchemaNode) (value : Json)
    (members : List (String × Checker)) : Option Outcome :=
  if n.allowedValues.values.any (·.matchesValue value) then some .pass
  else
    match n.displayName with
    | "boolean" | "string" | "number" | "bigint" =>
      if Scalar.matchesPrimitive n.displayName value then some .pass
      else failWith strict (some (mismatch place n value (Json.typeName (some value))))
    | "Date" => some (dateOutcome place strict n value)
    | "RegExp" => some (patternOutcome place strict n value)
    | _ =>
      if !n.properties.isEmpty || !n.indexes.isEmpty then
        match value with
        | .object _ => objectOutcome t place strict n value members
        | _ =>
          failWith strict (some (finding place
            ("Expected object, got " ++ Json.typeName (some value))
            .objectExpected (some value) (some n)))
      else if n.isLiteralOnly then failWith strict (some (mismatch place n value value.plainText))
      else some .fail

def shapeOutcome (t : NodeTable) (value : Json) (items : List Checker)
    (members : List (String × Checker)) : Checker := fun place strict id => do
  let n ← node t id
  match value, n.arrayOf with
  | .null, _ => do
    if ← anyBranch t (·.isNullable) id then some .pass
    else failWith strict (some (required place n (some value)))
  | .array _, some item => do some (.all (← itemOutcomes place strict item 0 items))
  | .array _, none =>
    failWith strict (some (finding place
      ("A scalar " ++ n.displayName ++ " expected, encountered an array")
      .objectExpected (some value) (some n)))
  | _, some item =>
    failWith strict do
      let m ← node t item
      some (finding place
        ("Array of " ++ m.displayName ++ " expected, encountered scalar " ++
          Json.typeName (some value))
        .arrayExpected (some value) (some n))
  | _, none => plainOutcome t place strict n value members

def firstAccepted? (shape : Checker) (place : Place) : List NodeId → Option (Option Outcome)
  | [] => some none
  | c :: rest => do
    let trial ← shape place false c
    if trial.ok then some (some trial) else firstAccepted? shape place rest

def unionOutcome (t : NodeTable) (value : Json) (shape : Checker) : Checker :=
  fun place strict id => do
    let n ← node t id
    match n.unionOf with
    | [] => shape place strict id
    | branches =>
      match ← firstAccepted? shape place (id :: branches) with
      | some trial => some trial
      | none => failWith strict (describedMismatch t place id (some value))

mutual

/-- The guarded check of a value. -/
def checkValue (t : NodeTable) : Json → Checker
  | .array items =>
    unionOutcome t (.array items) (shapeOutcome t (.array items) (checkItems t items) [])
  | .object members =>
    unionOutcome t (.object members) (shapeOutcome t (.object members) [] (checkMembers t members))
  | .null => unionOutcome t .null (shapeOutcome t .null [] [])
  | .bool b => unionOutcome t (.bool b) (shapeOutcome t (.bool b) [] [])
  | .number n => unionOutcome t (.number n) (shapeOutcome t (.number n) [] [])
  | .string s => unionOutcome t (.string s) (shapeOutcome t (.string s) [] [])

def checkItems (t : NodeTable) : List Json → List Checker
  | [] => []
  | j :: rest => checkValue t j :: checkItems t rest

def checkMembers (t : NodeTable) : List (String × Json) → List (String × Checker)
  | [] => []
  | (key, j) :: rest => (key, checkValue t j) :: checkMembers t rest

end

/-! ## No lookup of a check fails

The parts of a value are given to these functions as checkers, and it is assumed that the
guarded checker of each part agrees with the other one.  The recursion over the value
supplies that. -/

/-- Against every node of the table the guarded check answers what the other one answers. -/
def Agrees (t : NodeTable) (guarded : Checker) (check : TypedJson.Checker) : Prop :=
  ∀ place strict (id : NodeId), id.index < t.size →
    guarded place strict id = some (check place strict id)

/-- The same key with checks that agree. -/
def AgreesAt (t : NodeTable) (guarded : String × Checker) (member : String × TypedJson.Checker) :
    Prop := guarded.1 = member.1 ∧ Agrees t guarded.2 member.2

section Check

variable {t : NodeTable} {place : Place} {strict : Bool}

theorem failWith_eq {f : Option Finding} {f' : Finding} (h : f = some f') :
    failWith strict f = some (Check.failWith strict f') := by
  subst h
  cases strict with
  | true => rfl
  | false => rfl

/-! A guarded lookup fails at a number out of range only.  Each number that is looked up below
comes out of a node of a closed table, so the hypothesis on ranges goes from a node to its
parts, and with it every lookup has an answer. -/

theorem signatureFor?_eq (closed : t.Closed) (key : String) : ∀ {xs : List IndexSignature},
    (∀ x ∈ xs, x.keyType.index < t.size) →
    signatureFor? t key xs = some (xs.find? fun x => Check.admitsKey t x.keyType key)
  | [], _ => rfl
  | x :: xs, h => by
    have hx : admitsKey t x.keyType key = some (Check.admitsKey t x.keyType key) :=
      anyBranch_eq closed _ (h x List.mem_cons_self)
    rw [signatureFor?, hx, Option.bind_eq_bind, Option.bind_some, List.find?_cons]
    cases Check.admitsKey t x.keyType key with
    | true => rfl
    | false => exact signatureFor?_eq closed key fun y hy => h y (List.mem_cons_of_mem x hy)

theorem roleOf_eq (closed : t.Closed) {id : NodeId} (hid : id.index < t.size) (key : String) :
    roleOf t (t.node id) key = some (Check.roleOf t (t.node id) key) := by
  unfold roleOf Check.roleOf Check.signatureFor?
  by_cases hdeclared : ((t.node id).property? key).isSome = true
  · rw [if_pos hdeclared, if_pos hdeclared]
  · rw [if_neg hdeclared, if_neg hdeclared,
      signatureFor?_eq closed key fun x hx => (closed.signature hid hx).1]
    dsimp only [Option.bind_eq_bind, Option.bind_some]
    cases (t.node id).indexes.find? fun x => Check.admitsKey t x.keyType key with
    | some x => rfl
    | none => rfl

theorem roleOf_signature {id : NodeId} {key : String} {x : IndexSignature}
    (h : Check.roleOf t (t.node id) key = .signature x) : x ∈ (t.node id).indexes := by
  unfold Check.roleOf Check.signatureFor? at h
  split at h
  · cases h
  · split at h
    · rename_i hfind
      cases h
      exact List.mem_of_find?_eq_some hfind
    · cases h

theorem describedMismatch_eq (closed : t.Closed) {id : NodeId} (hid : id.index < t.size)
    (value : Option Json) :
    describedMismatch t place id value = some (Check.describedMismatch t place id value) := by
  unfold describedMismatch Check.describedMismatch
  rw [describe_eq closed hid, node_eq hid]
  rfl

theorem itemOutcomes_eq {item : NodeId} (hitem : item.index < t.size) :
    ∀ {i : Nat} {guarded : List Checker} {checks : List TypedJson.Checker},
      List.Forall₂ (Agrees t) guarded checks →
      itemOutcomes place strict item i guarded = some (Check.itemOutcomes place strict item i checks)
  | _, _, _, .nil => rfl
  | i, _, _, .cons h hs => by
    rw [itemOutcomes, h _ strict item hitem, itemOutcomes_eq hitem hs]
    rfl

theorem checkAbsent_eq (closed : t.Closed) {id : NodeId} (hid : id.index < t.size)
    (optional : Bool) :
    checkAbsent t place strict optional id =
      some (Check.checkAbsent t place strict optional id) := by
  unfold checkAbsent Check.checkAbsent
  rw [node_eq hid, Option.bind_eq_bind, Option.bind_some]
  cases optional with
  | true => rfl
  | false =>
    -- every branch is looked up, as each of them is tried
    have hbranches : (t.node id).unionOf.mapM (node t) = some ((t.node id).unionOf.map t.node) :=
      mapM_eq_some fun b hb => node_eq (closed.branch hid hb)
    simp only [Bool.false_eq_true, if_false]
    rw [hbranches, Option.bind_eq_bind, Option.bind_some]
    by_cases hempty : (t.node id).unionOf.isEmpty = true
    · rw [if_pos hempty, if_pos hempty]
      exact failWith_eq rfl
    · rw [if_neg hempty, if_neg hempty]
      exact failWith_eq (describedMismatch_eq closed hid none)

theorem member?_agrees {guarded : List (String × Checker)}
    {members : List (String × TypedJson.Checker)} (h : List.Forall₂ (AgreesAt t) guarded members)
    (name : String) : Option.Rel (Agrees t) (Json.member? name guarded) (Json.member? name members) := by
  induction h with
  | nil => exact .none
  | @cons g m gs ms hgm _ ih =>
    unfold Json.member? at ih ⊢
    rw [List.find?_cons, List.find?_cons, ← hgm.1]
    cases g.1 == name with
    | true => exact .some hgm.2
    | false => exact ih

theorem propertyOutcome_eq (closed : t.Closed) {guarded : List (String × Checker)}
    {members : List (String × TypedJson.Checker)} (h : List.Forall₂ (AgreesAt t) guarded members)
    {p : Property} (hp : p.type.index < t.size) :
    propertyOutcome t place strict guarded p =
      some (Check.propertyOutcome t place strict members p) := by
  unfold propertyOutcome Check.propertyOutcome
  have hmember := member?_agrees h p.name
  cases hg : Json.member? p.name guarded with
  | some check =>
    cases hm : Json.member? p.name members with
    | some check' =>
      rw [hg, hm] at hmember
      cases hmember with
      | some hagrees => exact hagrees _ strict p.type hp
    | none => rw [hg, hm] at hmember; cases hmember
  | none =>
    cases hm : Json.member? p.name members with
    | some check' => rw [hg, hm] at hmember; cases hmember
    | none => exact checkAbsent_eq closed hp p.isOptional

theorem memberOutcome_eq (closed : t.Closed) {id : NodeId} (hid : id.index < t.size)
    {g : String × Checker} {m : String × TypedJson.Checker} (h : AgreesAt t g m) :
    memberOutcome t (t.node id) place strict g =
      some (Check.memberOutcome t (t.node id) place strict m) := by
  unfold memberOutcome Check.memberOutcome
  rw [h.1, roleOf_eq closed hid, Option.bind_eq_bind, Option.bind_some]
  cases hrole : Check.roleOf t (t.node id) m.1 with
  | declared => rfl
  | unknown => rfl
  | signature x =>
    exact h.2 _ strict x.valueType (closed.signature hid (roleOf_signature hrole)).2

theorem memberOutcomes_eq (closed : t.Closed) {id : NodeId} (hid : id.index < t.size)
    {guarded : List (String × Checker)} {members : List (String × TypedJson.Checker)}
    (h : List.Forall₂ (AgreesAt t) guarded members) :
    guarded.mapM (memberOutcome t (t.node id) place strict) =
      some (members.map (Check.memberOutcome t (t.node id) place strict)) := by
  induction h with
  | nil => rfl
  | cons hgm _ ih =>
    rw [List.mapM_cons, memberOutcome_eq closed hid hgm, ih]
    rfl

theorem unknownKeys_eq (closed : t.Closed) {id : NodeId} (hid : id.index < t.size) :
    ∀ keys : List String, unknownKeys t (t.node id) keys = some (keys.filter fun key =>
      match Check.roleOf t (t.node id) key with
      | .unknown => true
      | _ => false)
  | [] => rfl
  | key :: keys => by
    rw [unknownKeys, roleOf_eq closed hid, unknownKeys_eq closed hid keys, List.filter_cons]
    dsimp only [Option.bind_eq_bind, Option.bind_some]
    cases Check.roleOf t (t.node id) key with
    | declared => rfl
    | unknown => rfl
    | signature x => rfl

theorem keys_eq {guarded : List (String × Checker)} {members : List (String × TypedJson.Checker)}
    (h : List.Forall₂ (AgreesAt t) guarded members) :
    guarded.map (·.1) = members.map (·.1) := by
  induction h with
  | nil => rfl
  | cons hgm _ ih => rw [List.map_cons, List.map_cons, hgm.1, ih]

theorem objectOutcome_eq (closed : t.Closed) {id : NodeId} (hid : id.index < t.size) (value : Json)
    {guarded : List (String × Checker)} {members : List (String × TypedJson.Checker)}
    (h : List.Forall₂ (AgreesAt t) guarded members) :
    objectOutcome t place strict (t.node id) value guarded =
      some (Check.objectOutcome t place strict (t.node id) value members) := by
  unfold objectOutcome Check.objectOutcome Check.unknownKeys
  rw [mapM_eq_some fun p hp => propertyOutcome_eq closed h (closed.property hid hp),
    memberOutcomes_eq closed hid h, unknownKeys_eq closed hid, keys_eq h]
  rfl

theorem plainOutcome_eq (closed : t.Closed) {id : NodeId} (hid : id.index < t.size) (value : Json)
    {guarded : List (String × Checker)} {members : List (String × TypedJson.Checker)}
    (h : List.Forall₂ (AgreesAt t) guarded members) :
    plainOutcome t place strict (t.node id) value guarded =
      some (Check.plainOutcome t place strict (t.node id) value members) := by
  unfold plainOutcome Check.plainOutcome
  by_cases hallowed : (t.node id).allowedValues.values.any (·.matchesValue value) = true
  · rw [if_pos hallowed, if_pos hallowed]
  rw [if_neg hallowed, if_neg hallowed]
  -- both sides go by the name, each in a match of its own
  rcases Scalar.displayName_cases (t.node id).displayName with
    hname | hname | hname | ⟨h₁, h₂, h₃, h₄, h₅, h₆⟩
  · rcases hname with hname | hname | hname | hname
    all_goals
      simp only [hname]
      split
      · rfl
      · exact failWith_eq rfl
  · simp only [hname]
  · simp only [hname]
  · simp only
    by_cases hstructure : (!(t.node id).properties.isEmpty || !(t.node id).indexes.isEmpty) = true
    · rw [if_pos hstructure, if_pos hstructure]
      cases value with
      | object _ => exact objectOutcome_eq closed hid _ h
      | null | bool _ | number _ | string _ | array _ => exact failWith_eq rfl
    · rw [if_neg hstructure, if_neg hstructure]
      by_cases hliteral : (t.node id).isLiteralOnly = true
      · rw [if_pos hliteral, if_pos hliteral]
        exact failWith_eq rfl
      · rw [if_neg hliteral, if_neg hliteral]

theorem shapeOutcome_agrees (closed : t.Closed) (value : Json) {gi : List Checker}
    {items : List TypedJson.Checker} (hitems : List.Forall₂ (Agrees t) gi items)
    {gm : List (String × Checker)} {members : List (String × TypedJson.Checker)}
    (hmembers : List.Forall₂ (AgreesAt t) gm members) :
    Agrees t (shapeOutcome t value gi gm) (Check.shapeOutcome t value items members) := by
  intro place strict id hid
  unfold shapeOutcome Check.shapeOutcome
  rw [node_eq hid, Option.bind_eq_bind, Option.bind_some]
  dsimp only
  have expected : ∀ item, (t.node id).arrayOf = some item →
      (do
        let m ← node t item
        some (finding place
          ("Array of " ++ m.displayName ++ " expected, encountered scalar " ++
            Json.typeName (some value))
          .arrayExpected (some value) (some (t.node id)))) =
      some (finding place
        ("Array of " ++ (t.node item).displayName ++ " expected, encountered scalar " ++
          Json.typeName (some value))
        .arrayExpected (some value) (some (t.node id))) := by
    intro item hitem
    rw [node_eq (closed.item hid hitem)]
    rfl
  cases value with
  | null =>
    dsimp only
    rw [anyBranch_eq closed _ hid, Option.bind_eq_bind, Option.bind_some]
    show (if t.isNullable id = true then _ else _) = _
    by_cases hnullable : t.isNullable id = true
    · rw [if_pos hnullable, if_pos hnullable]
    · rw [if_neg hnullable, if_neg hnullable]
      exact failWith_eq rfl
  | array vs =>
    cases hitem : (t.node id).arrayOf with
    | some item =>
      dsimp only
      rw [itemOutcomes_eq (closed.item hid hitem) hitems]
      rfl
    | none => exact failWith_eq rfl
  | bool _ | number _ | string _ | object _ =>
    cases hitem : (t.node id).arrayOf with
    | some item => exact failWith_eq (expected item hitem)
    | none => exact plainOutcome_eq closed hid _ hmembers

theorem firstAccepted?_eq {shape : Checker} {shape' : TypedJson.Checker} (h : Agrees t shape shape') :
    ∀ {cs : List NodeId}, (∀ c ∈ cs, c.index < t.size) →
      firstAccepted? shape place cs = some (Check.firstAccepted? shape' place cs)
  | [], _ => rfl
  | c :: cs, hcs => by
    rw [firstAccepted?, Check.firstAccepted?, h place false c (hcs c List.mem_cons_self),
      Option.bind_eq_bind, Option.bind_some]
    by_cases hok : (shape' place false c).ok = true
    · rw [if_pos hok, if_pos hok]
    · rw [if_neg hok, if_neg hok]
      exact firstAccepted?_eq h fun x hx => hcs x (List.mem_cons_of_mem c hx)

theorem unionOutcome_agrees (closed : t.Closed) (value : Json) {shape : Checker}
    {shape' : TypedJson.Checker} (h : Agrees t shape shape') :
    Agrees t (unionOutcome t value shape) (Check.unionOutcome t value shape') := by
  intro place strict id hid
  unfold unionOutcome Check.unionOutcome
  rw [node_eq hid, Option.bind_eq_bind, Option.bind_some]
  cases hbranches : (t.node id).unionOf with
  | nil => exact h place strict id hid
  | cons b bs =>
    have hcandidates : ∀ c ∈ id :: b :: bs, c.index < t.size := by
      intro c hc
      rcases List.mem_cons.1 hc with rfl | hc
      · exact hid
      · exact closed.branch hid (hbranches ▸ hc)
    dsimp only
    rw [firstAccepted?_eq h hcandidates, Option.bind_eq_bind, Option.bind_some]
    cases Check.firstAccepted? shape' place (id :: b :: bs) with
    | some trial => rfl
    | none => exact failWith_eq (describedMismatch_eq closed hid (some value))

mutual

/-- **In a closed table no lookup of a check fails.** -/
theorem checkValue_agrees (closed : t.Closed) : ∀ v : Json,
    Agrees t (checkValue t v) (Check.checkValue t v)
  | .array items =>
    unionOutcome_agrees closed _ (shapeOutcome_agrees closed _ (checkItems_agree closed items) .nil)
  | .object members =>
    unionOutcome_agrees closed _
      (shapeOutcome_agrees closed _ .nil (checkMembers_agree closed members))
  | .null => unionOutcome_agrees closed _ (shapeOutcome_agrees closed _ .nil .nil)
  | .bool _ => unionOutcome_agrees closed _ (shapeOutcome_agrees closed _ .nil .nil)
  | .number _ => unionOutcome_agrees closed _ (shapeOutcome_agrees closed _ .nil .nil)
  | .string _ => unionOutcome_agrees closed _ (shapeOutcome_agrees closed _ .nil .nil)

theorem checkItems_agree (closed : t.Closed) : ∀ vs : List Json,
    List.Forall₂ (Agrees t) (checkItems t vs) (Check.checkItems t vs)
  | [] => .nil
  | v :: vs => .cons (checkValue_agrees closed v) (checkItems_agree closed vs)

theorem checkMembers_agree (closed : t.Closed) : ∀ ms : List (String × Json),
    List.Forall₂ (AgreesAt t) (checkMembers t ms) (Check.checkMembers t ms)
  | [] => .nil
  | (_, v) :: ms => .cons ⟨rfl, checkValue_agrees closed v⟩ (checkMembers_agree closed ms)

end

end Check

/-! ## References

A reference with brackets brings along nodes that the schema does not have: one array node
for each pair of brackets, put behind the nodes of the schema.  The resolved reference is
closed because each of them refers to the one before, and the innermost to a node of the
schema or to that of a primitive. -/

/-- The first named node of that name at that place. -/
def find? (s : Schema) (name : String) (qualifier : Option String) :
    List NodeId → Option (Option NodeId)
  | [] => some none
  | id :: rest => do
    let n ← node s.table id
    if n.name == some name && Schema.isAt qualifier n then some (some id)
    else find? s name qualifier rest

/-- The node that the reference names without array brackets. -/
def direct? (s : Schema) (reference : String) : Option (Option Resolved) :=
  let (qualifier, name) := Reference.parts reference
  if Reference.primitives.contains name then
    some (some (Resolved.push ⟨s, [], ⟨0⟩⟩
      { SchemaNode.plain name with isNullable := name == "null" }))
  else (find? s name qualifier s.types).map fun found => found.map fun id => ⟨s, [], id⟩

/-- The array type over the root. -/
def wrap (r : Resolved) : Option Resolved := do
  let root ← node r.table r.root
  some (r.push { SchemaNode.plain (root.displayName ++ "[]") with arrayOf := some r.root })

def resolveChars? (s : Schema) (cs : List Char) : Option (Option Resolved) := do
  match ← direct? s (String.ofList cs) with
  | some r => some (some r)
  | none =>
    match _h : Reference.dropBrackets? cs with
    | some base => do
      match ← resolveChars? s base with
      | some r => (wrap r).map some
      | none => some none
    | none => some none
termination_by cs.length
decreasing_by exact Reference.length_dropBrackets? _h

/-- The guarded check of a value against the type that a reference stands for. -/
def validate (s : Schema) (reference : String) (value : Json) : Option Report := do
  match ← resolveChars? s reference.toList with
  | some r => do
    let outcome ← checkValue r.table value [] true r.root
    some ⟨outcome.findings⟩
  | none => some (.ofUnknownType reference value)

end Guarded

/-- A resolved reference in which every number is that of a node: of the schema, or of the nodes
that the reference brings along. -/
structure Resolved.Closed (r : Resolved) : Prop where
  table : r.table.Closed
  root : r.root.index < r.size

/-- The schema refers to its own nodes only. -/
structure Schema.Closed (s : Schema) : Prop where
  types : ∀ id ∈ s.types, id.index < s.size
  table : s.table.Closed

namespace Resolved

variable {r : Resolved}

/-! A reference may bring nodes along: one for a primitive, or one for each pair of brackets.
Each is put behind the others and refers to those before it, so the table stays closed. -/

theorem node_push_of_lt (n : SchemaNode) {id : NodeId} (hid : id.index < r.size) :
    (r.push n).node id = r.node id := by
  unfold node push
  dsimp only
  by_cases hschema : id.index < r.schema.size
  · rw [if_pos hschema, if_pos hschema]
  · rw [if_neg hschema, if_neg hschema]
    unfold size at hid
    rw [List.getD_eq_getElem?_getD, List.getD_eq_getElem?_getD, List.getElem?_append_left (by omega)]

theorem node_push_last (n : SchemaNode) : (r.push n).node ⟨r.size⟩ = n := by
  unfold node push size
  dsimp only
  rw [if_neg (by omega), Nat.add_sub_cancel_left, List.getD_eq_getElem?_getD,
    List.getElem?_concat_length]
  rfl

theorem Closed.push (h : r.table.Closed) {n : SchemaNode}
    (hn : ∀ id ∈ n.references, id.index < r.size) : (r.push n).Closed := by
  have hsize : (r.push n).size = r.size + 1 := by
    show r.schema.size + (r.synthetic ++ [n]).length = _
    rw [List.length_append]
    exact (Nat.add_assoc _ _ _).symm
  refine ⟨?_, by rw [hsize]; exact Nat.lt_succ_self _⟩
  intro id hid target htarget
  have hid : id.index < r.size + 1 := hsize ▸ hid
  show target.index < (r.push n).size
  rw [hsize]
  by_cases hold : id.index < r.size
  · have hnode : (r.push n).table.node id = r.table.node id := node_push_of_lt n hold
    rw [hnode] at htarget
    exact Nat.lt_succ_of_lt (h id hold target htarget)
  · obtain rfl : id = ⟨r.size⟩ := NodeId.index_injective (by show id.index = r.size; omega)
    have hnode : (r.push n).table.node ⟨r.size⟩ = n := node_push_last n
    rw [hnode] at htarget
    exact Nat.lt_succ_of_lt (hn target htarget)

end Resolved

namespace Guarded

variable {s : Schema}

theorem table_closed (h : s.Closed) : (Resolved.table ⟨s, [], ⟨0⟩⟩).Closed := by
  intro id hid target htarget
  have hid : id.index < s.size := hid
  have hnode : (Resolved.table ⟨s, [], ⟨0⟩⟩).node id = s.node id := if_pos hid
  rw [hnode] at htarget
  exact h.table id hid target htarget

theorem find?_eq (name : String) (qualifier : Option String) : ∀ {ids : List NodeId},
    (∀ id ∈ ids, id.index < s.size) → find? s name qualifier ids = some
      (ids.find? fun id => (s.node id).name == some name && Schema.isAt qualifier (s.node id))
  | [], _ => rfl
  | id :: ids, h => by
    have hid : id.index < s.table.size := h id List.mem_cons_self
    have hnode : s.table.node id = s.node id := rfl
    rw [find?, node_eq hid, Option.bind_eq_bind, Option.bind_some, List.find?_cons, hnode]
    cases (s.node id).name == some name && Schema.isAt qualifier (s.node id) with
    | true => rfl
    | false => exact find?_eq name qualifier fun x hx => h x (List.mem_cons_of_mem id hx)

theorem direct?_eq (h : s.Closed) (reference : String) :
    direct? s reference = some (Reference.direct? s reference) ∧
      ∀ r, Reference.direct? s reference = some r → r.Closed := by
  unfold direct? Reference.direct? Schema.find?
  dsimp only
  rw [find?_eq _ _ h.types]
  by_cases hprimitive : Reference.primitives.contains (Reference.parts reference).2 = true
  · rw [if_pos hprimitive, if_pos hprimitive]
    refine ⟨rfl, ?_⟩
    rintro r hr
    cases hr
    exact Resolved.Closed.push (table_closed h) fun id hid => by cases hid
  · rw [if_neg hprimitive, if_neg hprimitive]
    refine ⟨rfl, ?_⟩
    intro r hr
    obtain ⟨id, hfind, rfl⟩ := Option.map_eq_some_iff.1 hr
    exact ⟨table_closed h, h.types id (List.mem_of_find?_eq_some hfind)⟩

theorem wrap_eq {r : Resolved} (h : r.Closed) : wrap r = some r.wrap ∧ r.wrap.Closed := by
  refine ⟨?_, Resolved.Closed.push h.table ?_⟩
  · unfold wrap
    rw [node_eq h.root]
    rfl
  · intro id hid
    rw [List.mem_singleton.1 hid]
    exact h.root

theorem resolveChars?_of_brackets {cs base : List Char}
    (hdirect : direct? s (String.ofList cs) = some none)
    (hbase : Reference.dropBrackets? cs = some base) {found : Option Resolved}
    (hfound : resolveChars? s base = some found) (hwrap : ∀ r ∈ found, wrap r = some r.wrap) :
    resolveChars? s cs = some (found.map (·.wrap)) := by
  rw [resolveChars?, hdirect, Option.bind_eq_bind, Option.bind_some]
  dsimp only
  split
  · rename_i base' hbase'
    obtain rfl : base = base' := Option.some.inj (hbase.symm.trans hbase')
    rw [hfound, Option.bind_some]
    cases found with
    | none => rfl
    | some r =>
      dsimp only
      rw [hwrap r rfl]
      rfl
  · rename_i hnone
    rw [hbase] at hnone
    cases hnone

theorem resolveChars?_of_no_brackets {cs : List Char}
    (hdirect : direct? s (String.ofList cs) = some none)
    (hbase : Reference.dropBrackets? cs = none) : resolveChars? s cs = some none := by
  rw [resolveChars?, hdirect, Option.bind_eq_bind, Option.bind_some]
  dsimp only
  split
  · rename_i hsome
    rw [hbase] at hsome
    cases hsome
  · rfl

theorem unguarded_resolveChars? (s : Schema) (cs : List Char) :
    Reference.resolveChars? s cs =
      match Reference.direct? s (String.ofList cs) with
      | some r => some r
      | none =>
        match Reference.dropBrackets? cs with
        | some base => (Reference.resolveChars? s base).map (·.wrap)
        | none => none := by
  rw [Reference.resolveChars?]
  cases Reference.direct? s (String.ofList cs) with
  | some r => rfl
  | none =>
    dsimp only
    split
    · rename_i hbase
      rw [hbase]
    · rename_i hbase
      rw [hbase]

/-- **What a reference resolves to has all the nodes that it refers to**, those of the schema and
those that it brings along. -/
theorem resolveChars?_eq (h : s.Closed) (cs : List Char) :
    resolveChars? s cs = some (Reference.resolveChars? s cs) ∧
      ∀ r, Reference.resolveChars? s cs = some r → r.Closed := by
  obtain ⟨hdirect, hclosed⟩ := direct?_eq h (String.ofList cs)
  rw [unguarded_resolveChars?]
  cases hfound : Reference.direct? s (String.ofList cs) with
  | some r =>
    refine ⟨by rw [resolveChars?, hdirect, hfound]; rfl, ?_⟩
    rintro _ hsome
    cases hsome
    exact hclosed r hfound
  | none =>
    rw [hfound] at hdirect
    cases hbase : Reference.dropBrackets? cs with
    | none => exact ⟨resolveChars?_of_no_brackets hdirect hbase, fun _ hnone => by cases hnone⟩
    | some base =>
      have hshorter := Reference.length_dropBrackets? hbase
      obtain ⟨hinner, hinnerClosed⟩ := resolveChars?_eq h base
      refine ⟨resolveChars?_of_brackets hdirect hbase hinner fun r hr =>
        (wrap_eq (hinnerClosed r hr)).1, ?_⟩
      intro r hr
      obtain ⟨inner, hinnerFound, rfl⟩ := Option.map_eq_some_iff.1 hr
      exact (wrap_eq (hinnerClosed inner hinnerFound)).2
termination_by cs.length

/-- **Every check of a closed schema answers**, whatever the reference and the value. -/
theorem validate_eq (h : s.Closed) (reference : String) (value : Json) :
    validate s reference value = some (s.validate reference value) := by
  obtain ⟨hresolve, hclosed⟩ := resolveChars?_eq h reference.toList
  unfold validate Schema.validate Reference.resolve?
  rw [hresolve, Option.bind_eq_bind, Option.bind_some]
  cases hr : Reference.resolveChars? s reference.toList with
  | none => rfl
  | some r =>
    have hr := hclosed r hr
    dsimp only
    rw [checkValue_agrees hr.table value [] true r.root hr.root]
    rfl

end Guarded
end TypedJson
