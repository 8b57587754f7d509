import TypedJson.Proofs.Denotation
import TypedJson.Proofs.Lasting
/-!
# What a type lists

The members of a type and its index signatures are made from texts, from parts, or from the keys
of a record (`Contents`), both in the same way (`compute_eq`).  They are its own ones and those
that it takes over from its bases or parts (`Universe.Assembled`).  Like what an expression
denotes, that is a statement about a table alone, and it holds of every larger table as well
(`Assembled.extends`).

Members and index signatures are kept and computed in the same way, with other items, so
there is one `Listing` of two kinds, and everything below is for either kind.  While a list
is computed an empty one is kept for the type: a type that takes over from itself would find
it.  Where nothing is cyclic that never shows, and the lists are the ones of `Assembled`,
which does not know of it.
-/
namespace TypedJson

inductive Listing
  | members
  | indexes
  deriving DecidableEq

abbrev Listing.Item : Listing → Type
  | .members => TypeMember
  | .indexes => TypeIndex

/-- What the lists of a type are made from; types are handles or names. -/
inductive Contents (α : Type)
  | text (unit : Nat) (params : List (String × α)) (bases : List TypeExpr)
      (members : List Member) (indexes : List Index)
  | parts (xs : List α)
  | record (key value : α)
  | nothing

/-- What is taken over, joined to what is there. -/
def Listing.join : (k : Listing) → List (List k.Item) → List k.Item → List k.Item
  | .members => Universe.mergeAll
  | .indexes => fun lists own => own ++ lists.flatten

namespace Interner

def kept? (s : Interner) : (k : Listing) → TypeId → Option (List k.Item)
  | .members => s.members?
  | .indexes => s.indexes?

def keep (s : Interner) : (k : Listing) → TypeId → List k.Item → Interner
  | .members => s.setMembers
  | .indexes => s.setIndexes

variable {s : Interner} {k : Listing} {t : TypeId} {l : List k.Item}

/-! To keep a list changes one slot, and of it only the list.  A list that is kept for a handle
out of range is lost. -/

theorem data_keep (x : TypeId) : (s.keep k t l).data x = s.data x := by
  cases k with
  | members => exact data_setMembers s t l x
  | indexes => exact data_setIndexes s t l x

theorem has_keep {x : TypeId} : (s.keep k t l).Has x ↔ s.Has x := by
  cases k with
  | members => exact has_modifySlot s t _
  | indexes => exact has_modifySlot s t _

theorem instances_keep : (s.keep k t l).instances = s.instances := by
  cases k with
  | members => rfl
  | indexes => rfl

theorem expanding_keep : (s.keep k t l).expanding = s.expanding := by
  cases k with
  | members => rfl
  | indexes => rfl

theorem kept?_keep (ht : s.Has t) : (s.keep k t l).kept? k t = some l := by
  cases k with
  | members => exact (members?_setMembers ht l t).trans (if_pos rfl)
  | indexes => exact (indexes?_setIndexes ht l t).trans (if_pos rfl)

theorem kept?_keep_of_ne (ht : s.Has t) {k' : Listing} {x : TypeId} (hne : (k', x) ≠ (k, t)) :
    (s.keep k t l).kept? k' x = s.kept? k' x := by
  cases k with
  | members =>
    cases k' with
    | members =>
      exact (members?_setMembers ht l x).trans (if_neg fun h => hne (by rw [h]))
    | indexes => exact indexes?_setMembers s t l x
  | indexes =>
    cases k' with
    | members => exact members?_setIndexes s t l x
    | indexes =>
      exact (indexes?_setIndexes ht l x).trans (if_neg fun h => hne (by rw [h]))

theorem extends_keep : s.Extends (s.keep k t l) :=
  ⟨fun x _ => data_keep x, by rw [instances_keep]; exact List.Subset.refl _⟩

theorem Grows.kept? {s' : Interner} (h : s.Grows s') (hl : s.kept? k t = some l) :
    s'.kept? k t = some l := by
  cases k with
  | members => exact h.members t l hl
  | indexes => exact h.indexes t l hl

theorem keep_of_not_has (h : ¬ s.Has t) : s.keep k t l = s := by
  have hmodify : ∀ f : Slot → Slot, s.modifySlot t f = s := by
    intro f
    have hslots : s.slots.modify t.index f = s.slots := by
      refine Array.ext (by simp) fun i hi hi' => ?_
      have hne : t.index ≠ i := fun heq => h (by rw [Has, heq]; exact hi')
      rw [Array.getElem_modify, if_neg hne]
    rw [modifySlot, hslots]
  cases k with
  | members => exact hmodify _
  | indexes => exact hmodify _

theorem kept?_of_not_has (h : ¬ s.Has t) : s.kept? k t = none := by
  have hnone : s.slots[t.index]? = none := Array.getElem?_eq_none (Nat.le_of_not_lt h)
  cases k with
  | members => simp [kept?, members?, hnone]
  | indexes => simp [kept?, indexes?, hnone]

theorem has_of_kept? (h : s.kept? k t = some l) : s.Has t := by
  by_contra hnot
  rw [kept?_of_not_has hnot] at h
  cases h

end Interner

namespace Universe

def list (u : Universe) (fuel : Nat) : (k : Listing) → TypeId → Session (List k.Item)
  | .members => u.members fuel
  | .indexes => u.indexes fuel

def compute (u : Universe) (self : Resolver) :
    (k : Listing) → (TypeId → Session (List k.Item)) → TypeId → Session (List k.Item)
  | .members => u.computeMembers self
  | .indexes => u.computeIndexes self

variable {u : Universe} {s s' : Interner}

theorem list_zero (u : Universe) : ∀ (k : Listing) (t : TypeId), u.list 0 k t = Session.outOfFuel
  | .members, _ => rfl
  | .indexes, _ => rfl

theorem list_succ (u : Universe) (fuel : Nat) (k : Listing) (t : TypeId) :
    u.list (fuel + 1) k t = (do
      match ← Session.query (·.kept? k t) with
      | some l => pure l
      | none =>
        Session.update (·.keep k t [])
        let l ← u.compute (u.resolve fuel) k (u.list fuel k) t
        Session.update (·.keep k t l)
        pure l) := by
  cases k with
  | members =>
    show u.members (fuel + 1) t = _
    rw [members]
    refine bind_congr fun found => ?_
    cases found with
    | some l => rfl
    | none => rfl
  | indexes =>
    show u.indexes (fuel + 1) t = _
    rw [indexes]
    refine bind_congr fun found => ?_
    cases found with
    | some l => rfl
    | none => rfl

/-- What a type lists is kept for it, or it is computed while an empty list is kept. -/
theorem list_succ_cases {fuel : Nat} {k : Listing} {t : TypeId} {l : List k.Item}
    (hrun : u.list (fuel + 1) k t s = some (l, s')) :
    (s.kept? k t = some l ∧ s' = s) ∨ (s.kept? k t = none ∧ ∃ s₁,
      u.compute (u.resolve fuel) k (u.list fuel k) t (s.keep k t []) = some (l, s₁) ∧
      s' = s₁.keep k t l) := by
  rw [list_succ, Session.query_bind] at hrun
  cases hkept : s.kept? k t with
  | some l' =>
    rw [hkept] at hrun
    cases hrun
    exact .inl ⟨rfl, rfl⟩
  | none =>
    rw [hkept] at hrun
    obtain ⟨_, s₁, hopen, hrun⟩ := bind_eq_some.1 hrun
    cases hopen
    obtain ⟨l', s₂, hcompute, hrun⟩ := bind_eq_some.1 hrun
    cases hrun
    exact .inr ⟨rfl, s₂, hcompute, rfl⟩

/-! ## Lists from contents

The data of a type is put in one of four forms, which is all that the lists depend on.
`compute_eq` gives the program in terms of them; later proofs split on the contents and
never on the data. -/

section Contents

variable {k : Listing} {t : TypeId}

/-- What the lists of a type are made from. -/
def contents (u : Universe) (d : TypeData) : Contents TypeId :=
  match u.interface? d with
  | some (scope, bases, members, indexes) => .text scope.unit scope.params bases members indexes
  | none =>
    match d with
    | .object _ (.literal members indexes scope) => .text scope.unit scope.params [] members indexes
    | .object _ (.intersection parts) => .parts parts
    | .object _ (.record key value) => .record key value
    | _ => .nothing

theorem contents_text {d : TypeData} {unit : Nat} {params : List (String × TypeId)}
    {bases : List TypeExpr} {members : List Member} {indexes : List Index}
    (h : u.contents d = .text unit params bases members indexes) :
    u.interface? d = some (⟨unit, params⟩, bases, members, indexes) ∨
      bases = [] ∧ ∃ origin, d = .object origin (.literal members indexes ⟨unit, params⟩) := by
  unfold contents at h
  split at h
  · rename_i hinterface
    cases h
    exact .inl hinterface
  · split at h
    · cases h
      exact .inr ⟨rfl, _, rfl⟩
    · cases h
    · cases h
    · cases h

theorem contents_parts {d : TypeData} {xs : List TypeId} (h : u.contents d = .parts xs) :
    ∃ origin, d = .object origin (.intersection xs) := by
  unfold contents at h
  split at h
  · cases h
  · split at h
    · cases h
    · cases h
      exact ⟨_, rfl⟩
    · cases h
    · cases h

theorem contents_record {d : TypeData} {key value : TypeId} (h : u.contents d = .record key value) :
    ∃ origin, d = .object origin (.record key value) := by
  unfold contents at h
  split at h
  · cases h
  · split at h
    · cases h
    · cases h
    · cases h
      exact ⟨_, rfl⟩
    · cases h

theorem contents_scope_in (hs : u.Sound s) {unit : Nat} {params : List (String × TypeId)}
    {bases : List TypeExpr} {members : List Member} {indexes : List Index}
    (h : u.contents (s.data t) = .text unit params bases members indexes) :
    Scope.In ⟨unit, params⟩ s := by
  rcases contents_text h with hinterface | ⟨-, origin, hdata⟩
  · exact interface?_scope_in hs hinterface
  · exact fun p hp => shape_parts_has hs hdata p.2 (List.mem_map_of_mem hp)

def resolveOwn (self : Resolver) (scope : Scope) (members : List Member) (indexes : List Index) :
    (k : Listing) → Session (List k.Item)
  | .members => resolveMembers self scope members
  | .indexes => resolveIndexes self scope indexes

/-- What a record lists. -/
def recordItems (s : Interner) (key value : TypeId) : (k : Listing) → List k.Item
  | .members => ((literalKeys? s key).getD []).map fun name => ⟨name, false, some value⟩
  | .indexes =>
    match literalKeys? s key with
    | some _ => []
    | none => [⟨key, value⟩]

/-- The list of a type with these contents. -/
def computeFrom (self : Resolver) (k : Listing) (listOf : TypeId → Session (List k.Item))
    (s : Interner) : Contents TypeId → Session (List k.Item)
  | .text unit params bases members indexes => do
    let own ← resolveOwn self ⟨unit, params⟩ members indexes k
    let inherited ← bases.mapM fun base => do listOf (← self ⟨unit, params⟩ base)
    pure (k.join inherited own)
  | .parts xs => do pure (k.join (← xs.mapM listOf) [])
  | .record key value => pure (recordItems s key value k)
  | .nothing => pure []

theorem join_nil (own : List k.Item) : k.join [] own = own := by
  cases k with
  | members => rfl
  | indexes => exact List.append_nil own

theorem computeFrom_own (self : Resolver) (listOf : TypeId → Session (List k.Item)) (s : Interner)
    (scope : Scope) (members : List Member) (indexes : List Index) :
    computeFrom self k listOf s (.text scope.unit scope.params [] members indexes) =
      resolveOwn self scope members indexes k := by
  show (do
    let own ← resolveOwn self scope members indexes k
    let inherited ← [].mapM fun base => do listOf (← self scope base)
    pure (k.join inherited own)) = _
  simp only [List.mapM_nil, pure_bind, join_nil, bind_pure]

theorem compute_eq (self : Resolver) (listOf : TypeId → Session (List k.Item)) (t : TypeId)
    (s : Interner) : u.compute self k listOf t s =
      computeFrom self k listOf s (u.contents (s.data t)) s := by
  unfold contents
  cases k with
  | members =>
    show computeMembers u self listOf t s = _
    rw [computeMembers, Session.query_bind]
    cases u.interface? (s.data t) with
    | some found => rfl
    | none =>
      cases s.data t with
      | object origin shape =>
        cases shape with
        | literal members indexes scope => rw [computeFrom_own]; rfl
        | intersection | record => rfl
      | form | namedUnion | reserved => rfl
  | indexes =>
    show computeIndexes u self listOf t s = _
    rw [computeIndexes, Session.query_bind]
    cases u.interface? (s.data t) with
    | some found => rfl
    | none =>
      cases s.data t with
      | object origin shape =>
        cases shape with
        | literal members indexes scope => rw [computeFrom_own]; rfl
        | intersection => rfl
        | record key value =>
          dsimp only
          rw [Session.query_bind]
          show _ = (pure (recordItems s key value .indexes) : Session (List TypeIndex)) s
          unfold recordItems
          cases literalKeys? s key with
          | some names => rfl
          | none => rfl
      | form | namedUnion | reserved => rfl

end Contents

/-! ## What is listed

`Assembled` is the specification of a list: the own items, and those of the bases joined in
their order.  It is inductive, so it holds of nothing that takes over from itself.  Cycles are
spoken of in two ways.  No type of the table may be on one (`Cyclic`), or none of those below
a given type (`CyclicFrom`); the second is all that a statement on one type needs, and it is
inherited by what the type takes over from. -/

/-- The type takes over what the other one lists, as a base of it or a part. -/
inductive Inherits (u : Universe) (s : Interner) (t b : TypeId) : Prop
  | base {scope : Scope} {bases : List TypeExpr} {members : List Member} {indexes : List Index}
      {e : TypeExpr} (h : u.interface? (s.data t) = some (scope, bases, members, indexes))
      (he : e ∈ bases) (hb : u.Denotes s (.expr scope e) b)
  | part {origin : Option Instance} {parts : List TypeId}
      (h : s.data t = .object origin (.intersection parts)) (hb : b ∈ parts)

/-- Some type takes over from itself. -/
def Cyclic (u : Universe) (s : Interner) : Prop := ∃ t, Relation.TransGen (u.Inherits s) t t

/-- The type, or one that it takes over from, takes over from itself. -/
def CyclicFrom (u : Universe) (s : Interner) (t : TypeId) : Prop :=
  ∃ b, Relation.ReflTransGen (u.Inherits s) t b ∧ Relation.TransGen (u.Inherits s) b b

theorem CyclicFrom.cyclic {t : TypeId} (h : u.CyclicFrom s t) : u.Cyclic s := by
  obtain ⟨b, -, hcycle⟩ := h
  exact ⟨b, hcycle⟩

theorem CyclicFrom.of_inherits {t b : TypeId} (h : u.CyclicFrom s b) (hb : u.Inherits s t b) :
    u.CyclicFrom s t := by
  obtain ⟨c, hto, hcycle⟩ := h
  exact ⟨c, .head hb hto, hcycle⟩

theorem CyclicFrom.exists_inherits {t : TypeId} (h : u.CyclicFrom s t) :
    ∃ b, u.Inherits s t b ∧ u.CyclicFrom s b := by
  obtain ⟨c, hto, hcycle⟩ := h
  rcases hto.cases_head with rfl | ⟨b, hb, hrest⟩
  · obtain ⟨b, hb, hrest⟩ := Relation.TransGen.head'_iff.1 hcycle
    exact ⟨b, hb, t, hrest, hcycle⟩
  · exact ⟨b, hb, c, hrest, hcycle⟩

/-- No type takes over from itself if it always takes over from types of a lower rank. -/
theorem not_cyclic_of_rank (rank : TypeId → Nat) (h : ∀ t b, u.Inherits s t b → rank b < rank t) :
    ¬ u.Cyclic s := by
  rintro ⟨t, hcycle⟩
  have hlt : ∀ {b}, Relation.TransGen (u.Inherits s) t b → rank b < rank t := by
    intro b hchain
    induction hchain with
    | single hb => exact h _ _ hb
    | tail _ hb ih => exact Nat.lt_trans (h _ _ hb) ih
  exact Nat.lt_irrefl _ (hlt hcycle)

/-- All that the type takes over from, in order. -/
def Bases (u : Universe) (s : Interner) (t : TypeId) (ts : List TypeId) : Prop :=
  match u.interface? (s.data t) with
  | some (scope, bases, _, _) => u.DenoteAll s scope bases ts
  | none =>
    match s.data t with
    | .object _ (.intersection parts) => ts = parts
    | _ => ts = []

theorem Bases.inherits {t b : TypeId} {bases : List TypeId} (h : u.Bases s t bases) (hb : b ∈ bases) :
    u.Inherits s t b := by
  unfold Bases at h
  split at h
  · rename_i scope es members indexes hinterface
    obtain ⟨e, he, hdenotes⟩ := forall₂_mem_right h hb
    exact .base hinterface he hdenotes
  · split at h
    · rename_i hdata
      exact .part hdata (h ▸ hb)
    · rw [h] at hb
      cases hb

/-- The member is that of the text. -/
structure MemberDenotes (u : Universe) (s : Interner) (scope : Scope) (m : Member)
    (x : TypeMember) : Prop where
  name : x.name = m.name
  optional : x.optional = m.optional
  type : match m.method, m.type with
    | false, some e => ∃ t, x.type = some t ∧ u.Denotes s (.expr scope e) t
    | _, _ => x.type = none

structure IndexDenotes (u : Universe) (s : Interner) (scope : Scope) (m : Index)
    (x : TypeIndex) : Prop where
  key : u.Denotes s (.expr scope m.key) x.key
  value : u.Denotes s (.expr scope m.value) x.value

def OwnMembers (u : Universe) (s : Interner) (t : TypeId) (ms : List TypeMember) : Prop :=
  match u.interface? (s.data t) with
  | some (scope, _, members, _) => List.Forall₂ (u.MemberDenotes s scope) members ms
  | none =>
    match s.data t with
    | .object _ (.literal members _ scope) => List.Forall₂ (u.MemberDenotes s scope) members ms
    | .object _ (.record key value) =>
      ms = ((literalKeys? s key).getD []).map fun name => ⟨name, false, some value⟩
    | _ => ms = []

def OwnIndexes (u : Universe) (s : Interner) (t : TypeId) (is : List TypeIndex) : Prop :=
  match u.interface? (s.data t) with
  | some (scope, _, _, indexes) => List.Forall₂ (u.IndexDenotes s scope) indexes is
  | none =>
    match s.data t with
    | .object _ (.literal _ indexes scope) => List.Forall₂ (u.IndexDenotes s scope) indexes is
    | .object _ (.record key value) =>
      is = match literalKeys? s key with
        | some _ => []
        | none => [⟨key, value⟩]
    | _ => is = []

def Own (u : Universe) (s : Interner) : (k : Listing) → TypeId → List k.Item → Prop
  | .members => u.OwnMembers s
  | .indexes => u.OwnIndexes s

/-- The list is that of the type. -/
inductive Assembled (u : Universe) (s : Interner) (k : Listing) : TypeId → List k.Item → Prop
  | intro {t : TypeId} {own : List k.Item} {bases : List TypeId} {lists : List (List k.Item)}
      (hopen : s.data t ≠ .reserved) (hown : u.Own s k t own) (hbases : u.Bases s t bases)
      (hlen : bases.length = lists.length)
      (h : ∀ {b l}, (b, l) ∈ bases.zip lists → Assembled u s k b l) :
      Assembled u s k t (k.join lists own)

/-! ## What the contents say

Own items and bases are defined by the kind of type; here they are read off the contents,
which is how the proofs about the program get at them. -/

section Contents

variable {k : Listing} {t : TypeId}

/-- The list is that of the texts. -/
def TextDenotes (u : Universe) (s : Interner) (scope : Scope) (members : List Member)
    (indexes : List Index) : (k : Listing) → List k.Item → Prop
  | .members => List.Forall₂ (u.MemberDenotes s scope) members
  | .indexes => List.Forall₂ (u.IndexDenotes s scope) indexes

/-- What a type lists itself is said by its contents. -/
theorem own_iff_contents {own : List k.Item} :
    u.Own s k t own ↔ match u.contents (s.data t) with
      | .text unit params _ members indexes => u.TextDenotes s ⟨unit, params⟩ members indexes k own
      | .record key value => own = recordItems s key value k
      | _ => own = [] := by
  unfold contents
  cases k with
  | members =>
    show u.OwnMembers s t own ↔ _
    unfold OwnMembers
    cases hinterface : u.interface? (s.data t) with
    | some found => rfl
    | none =>
      cases s.data t with
      | object origin shape => cases shape <;> rfl
      | form | namedUnion | reserved => rfl
  | indexes =>
    show u.OwnIndexes s t own ↔ _
    unfold OwnIndexes
    cases hinterface : u.interface? (s.data t) with
    | some found => rfl
    | none =>
      cases s.data t with
      | object origin shape => cases shape <;> rfl
      | form | namedUnion | reserved => rfl

theorem bases_iff_contents {ts : List TypeId} : u.Bases s t ts ↔ match u.contents (s.data t) with
    | .text unit params bases _ _ => u.DenoteAll s ⟨unit, params⟩ bases ts
    | .parts parts => ts = parts
    | _ => ts = [] := by
  unfold contents Bases
  cases hinterface : u.interface? (s.data t) with
  | some found => rfl
  | none =>
    cases s.data t with
    | object origin shape =>
      cases shape with
      | literal => exact List.forall₂_nil_left_iff.symm
      | intersection | record => rfl
    | form | namedUnion | reserved => rfl

theorem inherits_iff_contents {b : TypeId} : u.Inherits s t b ↔ match u.contents (s.data t) with
    | .text unit params bases _ _ => ∃ e ∈ bases, u.Denotes s (.expr ⟨unit, params⟩ e) b
    | .parts parts => b ∈ parts
    | _ => False := by
  constructor
  · intro h
    unfold contents
    cases h with
    | base hinterface he hb =>
      rw [hinterface]
      exact ⟨_, he, hb⟩
    | part hdata hb =>
      rw [hdata]
      exact hb
  · intro h
    split at h
    · rename_i hcontents
      obtain ⟨e, he, hb⟩ := h
      rcases contents_text hcontents with hinterface | ⟨rfl, -⟩
      · exact .base hinterface he hb
      · cases he
    · rename_i hcontents
      obtain ⟨origin, hdata⟩ := contents_parts hcontents
      exact .part hdata h
    · exact h.elim

theorem own_of_text {unit : Nat} {params : List (String × TypeId)} {bases : List TypeExpr}
    {members : List Member} {indexes : List Index} {own : List k.Item}
    (h : u.contents (s.data t) = .text unit params bases members indexes)
    (hown : u.TextDenotes s ⟨unit, params⟩ members indexes k own) : u.Own s k t own := by
  rw [own_iff_contents, h]
  exact hown

theorem bases_of_text {unit : Nat} {params : List (String × TypeId)} {bases : List TypeExpr}
    {members : List Member} {indexes : List Index} {ts : List TypeId}
    (h : u.contents (s.data t) = .text unit params bases members indexes)
    (hts : u.DenoteAll s ⟨unit, params⟩ bases ts) : u.Bases s t ts := by
  rw [bases_iff_contents, h]
  exact hts

theorem inherits_of_text {unit : Nat} {params : List (String × TypeId)} {bases : List TypeExpr}
    {members : List Member} {indexes : List Index} {e : TypeExpr} {b : TypeId}
    (h : u.contents (s.data t) = .text unit params bases members indexes) (he : e ∈ bases)
    (hb : u.Denotes s (.expr ⟨unit, params⟩ e) b) : u.Inherits s t b := by
  rw [inherits_iff_contents, h]
  exact ⟨e, he, hb⟩

theorem own_bases_of_parts {xs : List TypeId} (h : u.contents (s.data t) = .parts xs) :
    u.Own s k t [] ∧ u.Bases s t xs := by
  rw [own_iff_contents, bases_iff_contents, h]
  exact ⟨rfl, rfl⟩

theorem own_bases_of_record {key value : TypeId} (h : u.contents (s.data t) = .record key value) :
    u.Own s k t (recordItems s key value k) ∧ u.Bases s t [] := by
  rw [own_iff_contents, bases_iff_contents, h]
  exact ⟨rfl, rfl⟩

theorem own_bases_of_nothing (h : u.contents (s.data t) = .nothing) :
    u.Own s k t [] ∧ u.Bases s t [] := by
  rw [own_iff_contents, bases_iff_contents, h]
  exact ⟨rfl, rfl⟩

end Contents

/-! ## Larger tables

A list that was assembled stays assembled as the table grows, provided that no handle of it
is still reserved: what a reserved handle stands for may become the base of something. -/

theorem interface?_extends (h : s.Extends s') {t : TypeId}
    {found : Scope × List TypeExpr × List Member × List Index}
    (ht : u.interface? (s.data t) = some found) : s'.data t = s.data t := by
  refine h.data t fun hopen => ?_
  rw [hopen] at ht
  cases ht

theorem Inherits.extends {t b : TypeId} (ht : u.Inherits s t b) (h : s.Extends s') :
    u.Inherits s' t b := by
  cases ht with
  | base hinterface he hb =>
    exact .base (by rw [interface?_extends h hinterface]; exact hinterface) he (hb.extends h)
  | part hdata hb => exact .part (h.data_eq hdata fun he => by cases he) hb

theorem inherits_extends (h : s.Extends s') {t b : TypeId}
    (ht : Relation.TransGen (u.Inherits s) t b) : Relation.TransGen (u.Inherits s') t b :=
  Relation.TransGen.mono (fun _ _ hstep => Inherits.extends hstep h) t b ht

theorem Cyclic.extends (hs : u.Cyclic s) (h : s.Extends s') : u.Cyclic s' :=
  hs.imp fun _ ht => inherits_extends h ht

theorem CyclicFrom.extends {t : TypeId} (hs : u.CyclicFrom s t) (h : s.Extends s') :
    u.CyclicFrom s' t := by
  obtain ⟨b, hto, hcycle⟩ := hs
  exact ⟨b, Relation.ReflTransGen.mono (fun _ _ hstep => Inherits.extends hstep h) t b hto,
    inherits_extends h hcycle⟩

theorem Bases.extends {t : TypeId} {ts : List TypeId} (hopen : s.data t ≠ .reserved)
    (ht : u.Bases s t ts) (h : s.Extends s') : u.Bases s' t ts := by
  unfold Bases at ht ⊢
  rw [h.data t hopen]
  split
  · rename_i heq
    rw [heq] at ht
    exact DenoteAll.extends ht h
  · rename_i heq
    rw [heq] at ht
    exact ht

theorem MemberDenotes.extends {scope : Scope} {m : Member} {x : TypeMember}
    (hx : u.MemberDenotes s scope m x) (h : s.Extends s') : u.MemberDenotes s' scope m x := by
  refine ⟨hx.name, hx.optional, ?_⟩
  have htype := hx.type
  split at htype
  · exact htype.imp fun t ht => ht.imp_right fun ht => ht.extends h
  · exact htype

theorem IndexDenotes.extends {scope : Scope} {m : Index} {x : TypeIndex}
    (hx : u.IndexDenotes s scope m x) (h : s.Extends s') : u.IndexDenotes s' scope m x :=
  ⟨hx.key.extends h, hx.value.extends h⟩

/-- Between questions every type has its meaning. -/
def Closed (s : Interner) : Prop := ∀ t, s.Has t → s.data t ≠ .reserved

theorem literalKeys?_extends (hs : u.Sound s) (hclosed : Closed s) (h : s.Extends s') {key : TypeId}
    (hkey : s.Has key) : literalKeys? s' key = literalKeys? s key := by
  have hdata : ∀ t, s.Has t → s'.data t = s.data t := fun t ht => h.data t (hclosed t ht)
  have hunion : s'.union? key = s.union? key := by
    unfold Interner.union?
    rw [hdata key hkey]
  have hbranches : ∀ b ∈ (s.union? key).getD [key], s.Has b := by
    intro b hb
    cases hbs : s.union? key with
    | none =>
      rw [hbs] at hb
      rw [List.mem_singleton.1 hb]
      exact hkey
    | some bs =>
      rw [hbs] at hb
      exact hs.parts key b (TypeData.union?_parts hbs hb)
  unfold literalKeys?
  rw [hunion]
  generalize (s.union? key).getD [key] = bs at hbranches
  induction bs with
  | nil => rfl
  | cons b bs ih =>
    obtain ⟨hb, hbs⟩ := List.forall_mem_cons.1 hbranches
    rw [List.mapM_cons, List.mapM_cons, ih hbs, Interner.literal?, Interner.literal?, hdata b hb]

theorem OwnMembers.extends (hs : u.Sound s) (hclosed : Closed s) {t : TypeId} {ms : List TypeMember}
    (hopen : s.data t ≠ .reserved) (ht : u.OwnMembers s t ms) (h : s.Extends s') :
    u.OwnMembers s' t ms := by
  unfold OwnMembers at ht ⊢
  rw [h.data t hopen]
  split
  · rename_i heq
    rw [heq] at ht
    exact ht.imp fun _ _ hx => hx.extends h
  · rename_i heq
    rw [heq] at ht
    generalize hdata : s.data t = data at ht
    cases data with
    | object origin shape =>
      cases shape with
      | literal members indexes scope => exact List.Forall₂.imp (fun _ _ hx => hx.extends h) ht
      | intersection parts => exact ht
      | record key value =>
        have hkey := shape_parts_has hs hdata key List.mem_cons_self
        simp only [literalKeys?_extends hs hclosed h hkey]
        exact ht
    | form | namedUnion | reserved => exact ht

theorem OwnIndexes.extends (hs : u.Sound s) (hclosed : Closed s) {t : TypeId} {is : List TypeIndex}
    (hopen : s.data t ≠ .reserved) (ht : u.OwnIndexes s t is) (h : s.Extends s') :
    u.OwnIndexes s' t is := by
  unfold OwnIndexes at ht ⊢
  rw [h.data t hopen]
  split
  · rename_i heq
    rw [heq] at ht
    exact ht.imp fun _ _ hx => hx.extends h
  · rename_i heq
    rw [heq] at ht
    generalize hdata : s.data t = data at ht
    cases data with
    | object origin shape =>
      cases shape with
      | literal members indexes scope => exact List.Forall₂.imp (fun _ _ hx => hx.extends h) ht
      | intersection parts => exact ht
      | record key value =>
        have hkey := shape_parts_has hs hdata key List.mem_cons_self
        simp only [literalKeys?_extends hs hclosed h hkey]
        exact ht
    | form | namedUnion | reserved => exact ht

theorem Own.extends (hs : u.Sound s) (hclosed : Closed s) {k : Listing} {t : TypeId}
    {l : List k.Item} (hopen : s.data t ≠ .reserved) (ht : u.Own s k t l) (h : s.Extends s') :
    u.Own s' k t l := by
  cases k with
  | members => exact OwnMembers.extends hs hclosed hopen ht h
  | indexes => exact OwnIndexes.extends hs hclosed hopen ht h

theorem Assembled.extends (hs : u.Sound s) (hclosed : Closed s) {k : Listing} {t : TypeId}
    {l : List k.Item} (ht : u.Assembled s k t l) (h : s.Extends s') : u.Assembled s' k t l := by
  induction ht with
  | intro hopen hown hbases hlen _ ih =>
    exact .intro (by rw [h.data _ hopen]; exact hopen) (hown.extends hs hclosed hopen h)
      (hbases.extends hopen h) hlen ih

end Universe
end TypedJson
