import TypedJson.Proofs.Agreement
import TypedJson.Proofs.OwnItems
import TypedJson.Proofs.Leaves
/-!
# Records over literal keys

A record whose keys are string literals is to have a member for each of them, and one with any
other key an index signature (`RecordLaw`).  What the keys are is said by the leaves of the key
type, but the lists of a record are made from its branches.  So the law holds where no branch is a
union itself and no literal stands twice among them (`PlainKeys`), and only there
(`record_lists`).

The law speaks of leaves and the program of branches.  Both agree where the branches are
leaves, all of them different.  A branch that is a union itself makes the program give up on
the names altogether; a literal that stands twice makes it list a member twice.  So each of
the two conditions is needed, and together they are enough.
-/
namespace TypedJson

namespace Interner

/-- The branches of the type, or the type itself. -/
def branchesOf (s : Interner) (t : TypeId) : List TypeId := (s.union? t).getD [t]

/-- The name that the type is limited to. -/
def keyName? (s : Interner) (t : TypeId) : Option String :=
  match s.literal? t with
  | some (.str name) => some name
  | _ => none

variable {s : Interner} {t : TypeId}

theorem union?_of_keyName? {n : String} (h : s.keyName? t = some n) : s.union? t = none := by
  unfold keyName? at h
  split at h
  · rename_i hliteral
    rw [union?, TypeData.literal?_eq_some_iff.1 hliteral]
    rfl
  · cases h

end Interner

namespace Universe

variable {u : Universe} {s : Interner} {k : Listing} {t key value : TypeId}
  {origin : Option Instance}

theorem literalKeys?_eq : literalKeys? s key = (s.branchesOf key).mapM s.keyName? := rfl

/-- The names that the leaves of the key type are, if each of them is a string literal. -/
def leafNames? (u : Universe) (s : Interner) (key : TypeId) : Option (List String) :=
  (u.leaves s key).mapM s.keyName?

/-- The required members of these names, the first one of each name. -/
def requiredMembers (value : TypeId) (names : List String) : List TypeMember :=
  firstWins (names.map fun name => ⟨name, false, some value⟩)

/-- If the leaves of the key type are string literals only, the record has a required member for
each of them and no index signature; if one is something else, it has no members and one index
signature. -/
structure RecordLaw (u : Universe) (s : Interner) (key value : TypeId) (ms : List TypeMember)
    (is : List TypeIndex) : Prop where
  spelled : ∀ names, u.leafNames? s key = some names → names ≠ [] →
    ms = requiredMembers value names ∧ is = []
  other : u.leafNames? s key = none → ms = [] ∧ is = [⟨key, value⟩]

/-- No branch of the key type is a union itself, and no literal stands twice among them. -/
structure PlainKeys (s : Interner) (key : TypeId) : Prop where
  flat : ∀ b ∈ s.branchesOf key, s.union? b = none
  once : ((s.branchesOf key).map s.keyName?).Nodup

/-! ## What a record lists

A record takes over from nothing, so its lists can be written down. -/

theorem contents_of_record (ht : s.data t = .object origin (.record key value)) :
    u.contents (s.data t) = .record key value := by
  rw [ht]
  rfl

theorem eq_recordItems_of_kept? (h : u.Reaches u.start s)
    (ht : s.data t = .object origin (.record key value)) {l : List k.Item}
    (hl : s.kept? k t = some l) : l = recordItems s key value k := by
  have hown : u.Own s k t l := (fronted_of_reaches h hl).own_of_no_bases fun bases hbases => by
    rw [bases_iff_contents, contents_of_record ht] at hbases
    exact hbases
  rw [own_iff_contents, contents_of_record ht] at hown
  exact hown

/-- A record answers at once, with what its key type leads to. -/
theorem list_record (h : u.Reaches u.start s) (ht : s.data t = .object origin (.record key value))
    (fuel : Nat) (k : Listing) :
    ∃ s', u.list (fuel + 1) k t s = some (recordItems s key value k, s') := by
  rw [list_succ, Session.query_bind]
  cases hkept : s.kept? k t with
  | some l =>
    rw [eq_recordItems_of_kept? h ht hkept]
    exact ⟨s, rfl⟩
  | none =>
    -- that the list is under way changes neither the record nor its key type
    have hdata : ∀ x, (s.keep k t []).data x = s.data x := Interner.data_keep
    have hitems : recordItems (s.keep k t []) key value k = recordItems s key value k := by
      have hkeys : literalKeys? (s.keep k t []) key = literalKeys? s key := by
        simp only [literalKeys?, Interner.union?, Interner.literal?, hdata]
      cases k with
      | members => simp only [recordItems, hkeys]
      | indexes => simp only [recordItems, hkeys]
    have hcompute : u.compute (u.resolve fuel) k (u.list fuel k) t (s.keep k t []) =
        some (recordItems s key value k, s.keep k t []) := by
      rw [compute_eq, hdata, contents_of_record ht, ← hitems]
      rfl
    refine ⟨(s.keep k t []).keep k t (recordItems s key value k), bind_eq_some.2 ?_⟩
    exact ⟨(), s.keep k t [], rfl, bind_eq_some.2 ⟨_, _, hcompute, rfl⟩⟩

/-! ## Leaves and branches

With branches that are no unions the walk is a pass through the list, and drops what it has
met. -/

theorem Collects.of_distinct (hs : u.Sound s) : ∀ (ts leaves unions : List TypeId),
    (∀ t ∈ ts, s.union? t = none) → (ts.reverse ++ leaves).Nodup →
    Collects u s ts (leaves, unions) (ts.reverse ++ leaves, unions)
  | [], _, _, _, _ => .done _
  | t :: ts, leaves, unions, hflat, hnodup => by
    obtain ⟨ht, hts⟩ := List.forall_mem_cons.1 hflat
    rw [List.reverse_cons, List.append_assoc, List.singleton_append] at hnodup ⊢
    have hnew : t ∉ leaves := (List.nodup_cons.1 (List.nodup_append.1 hnodup).2.1).1
    refine .leaf (by rw [branches?_eq hs, ht]) ?_
    rw [addLeaf, if_neg fun h => hnew (List.contains_iff_mem.1 h)]
    exact of_distinct hs ts (t :: leaves) unions hts hnodup

theorem PlainKeys.leaves (hs : u.Sound s) (hkey : s.Has key) (h : PlainKeys s key) :
    u.leaves s key = s.branchesOf key := by
  have hflat := h.flat
  have hnodup : (s.branchesOf key).Nodup := List.Nodup.of_map s.keyName? h.once
  unfold Interner.branchesOf at hflat hnodup ⊢
  cases hunion : s.union? key with
  | none => exact leaves_of_not_union hs hkey hunion
  | some bs =>
    rw [hunion] at hflat hnodup
    obtain ⟨out, hout, hleaves⟩ := leaves_collects (u := u) hs hkey
    have hown : Collects u s [key] ([], []) (bs.reverse ++ [], [key]) := by
      refine .enter (by rw [branches?_eq hs, hunion]) List.not_mem_nil ?_
      rw [List.append_nil]
      refine .of_distinct hs bs [] [key] hflat ?_
      rw [List.append_nil]
      exact List.nodup_reverse.2 hnodup
    rw [hleaves, hout.unique hown, List.append_nil, List.reverse_reverse]
    rfl

theorem isSome_leafNames? (hs : u.Sound s) (hkey : s.Has key) {names : List String}
    (h : literalKeys? s key = some names) : u.leafNames? s key ≠ none := by
  have hbranches : ∀ b ∈ s.branchesOf key, ∃ n, s.keyName? b = some n := by
    intro b hb
    obtain ⟨n, -, hn⟩ := forall₂_mem_left (mapM_eq_some_iff.1 (literalKeys?_eq.symm.trans h)) hb
    exact ⟨n, hn⟩
  have hleaves : ∀ r ∈ u.leaves s key, ∃ n, s.keyName? r = some n := by
    intro r hr
    obtain ⟨hleads, hnone⟩ := (mem_leaves_iff hs hkey r).1 hr
    refine hbranches r ?_
    rcases Relation.ReflTransGen.cases_head hleads with rfl | ⟨b, hb, hrest⟩
    · rw [Interner.branchesOf, hnone]
      exact List.mem_singleton_self _
    · cases hunion : s.union? key with
      | none => rw [hunion] at hb; cases hb
      | some bs =>
        rw [hunion] at hb
        have hb : b ∈ s.branchesOf key := by rw [Interner.branchesOf, hunion]; exact hb
        -- a literal has no branches, so the way ends there
        obtain ⟨n, hn⟩ := hbranches b hb
        rcases Relation.ReflTransGen.cases_head hrest with rfl | ⟨c, hc, -⟩
        · exact hb
        · rw [Interner.union?_of_keyName? hn] at hc
          cases hc
  obtain ⟨found, hfound⟩ := forall₂_of_forall hleaves
  rw [leafNames?, mapM_eq_some_iff.2 hfound]
  exact Option.some_ne_none found

theorem distinct_requiredMembers (value : TypeId) (names : List String) :
    DistinctMembers (requiredMembers value names) := by
  rw [requiredMembers, firstWins_eq]
  exact DistinctMembers.merge List.nodup_nil

theorem requiredMembers_of_nodup {names : List String} (h : names.Nodup) :
    requiredMembers value names = names.map fun name => ⟨name, false, some value⟩ := by
  refine firstWins_of_distinct ?_
  rw [DistinctMembers, List.map_map]
  exact (List.map_id names).symm ▸ h

/-! ## The law

The two directions are lemmas of their own: from plain keys to the law, and from the law
back, for a key type whose leaves are literals. -/

section Law

variable {names : List String}

theorem recordItems_of_keys (h : literalKeys? s key = some names) :
    recordItems s key value .members = (names.map fun name => ⟨name, false, some value⟩) ∧
      recordItems s key value .indexes = [] := by
  unfold recordItems
  rw [h]
  exact ⟨rfl, rfl⟩

theorem recordItems_of_no_keys (h : literalKeys? s key = none) :
    recordItems s key value .members = [] ∧ recordItems s key value .indexes = [⟨key, value⟩] := by
  unfold recordItems
  rw [h]
  exact ⟨rfl, rfl⟩

theorem map_keyName? (h : literalKeys? s key = some names) :
    (s.branchesOf key).map s.keyName? = names.map some := by
  have hall : List.Forall₂ (fun b n => s.keyName? b = some n) (s.branchesOf key) names :=
    mapM_eq_some_iff.1 (literalKeys?_eq.symm.trans h)
  generalize s.branchesOf key = bs at hall ⊢
  clear h
  induction hall with
  | nil => rfl
  | cons hb _ ih => rw [List.map_cons, List.map_cons, hb, ih]

theorem literalKeys?_of_nested {b : TypeId} (hb : b ∈ s.branchesOf key)
    (hunion : s.union? b ≠ none) : literalKeys? s key = none := by
  cases hkeys : literalKeys? s key with
  | none => rfl
  | some names =>
    obtain ⟨n, -, hn⟩ := forall₂_mem_left (mapM_eq_some_iff.1 (literalKeys?_eq.symm.trans hkeys)) hb
    exact absurd (Interner.union?_of_keyName? hn) hunion

theorem PlainKeys.recordLaw (hs : u.Sound s) (hkey : s.Has key) (h : PlainKeys s key) :
    u.RecordLaw s key value (recordItems s key value .members)
      (recordItems s key value .indexes) := by
  have hsame : u.leafNames? s key = literalKeys? s key := by
    rw [leafNames?, h.leaves hs hkey, literalKeys?_eq]
  refine ⟨fun names hnames _ => ?_, fun hnone => recordItems_of_no_keys (hsame.symm.trans hnone)⟩
  have hkeys := hsame.symm.trans hnames
  have hnodup : names.Nodup := by
    have honce := h.once
    rw [map_keyName? hkeys] at honce
    exact honce.of_map
  rw [requiredMembers_of_nodup hnodup]
  exact recordItems_of_keys hkeys

theorem RecordLaw.plainKeys (h : u.RecordLaw s key value (recordItems s key value .members)
    (recordItems s key value .indexes)) (hnames : u.leafNames? s key = some names)
    (hne : names ≠ []) : PlainKeys s key := by
  obtain ⟨hmembers, hindexes⟩ := h.spelled names hnames hne
  cases hkeys : literalKeys? s key with
  | none =>
    rw [(recordItems_of_no_keys hkeys).2] at hindexes
    cases hindexes
  | some direct =>
    refine ⟨fun b hb => ?_, ?_⟩
    · by_contra hunion
      rw [literalKeys?_of_nested hb hunion] at hkeys
      cases hkeys
    · rw [(recordItems_of_keys hkeys).1] at hmembers
      have hdistinct := distinct_requiredMembers value names
      rw [← hmembers, DistinctMembers, List.map_map] at hdistinct
      rw [map_keyName? hkeys]
      exact List.Nodup.map (Option.some_injective _) ((List.map_id direct) ▸ hdistinct)

end Law

/-- **A record answers when it is asked, and by the law of its key type exactly if this has only
plain keys or a leaf that is no string literal.**  If a branch is a union itself, it has no
members but one index signature. -/
theorem record_lists (h : u.Reaches u.start s) (ht : s.data t = .object origin (.record key value))
    (fuel : Nat) : ∃ ms s₁ is s₂, u.members (fuel + 1) t s = some (ms, s₁) ∧
      u.indexes (fuel + 1) t s = some (is, s₂) ∧
      (u.RecordLaw s key value ms is ↔
        ∀ names, u.leafNames? s key = some names → names ≠ [] → PlainKeys s key) ∧
      ((∃ b ∈ s.branchesOf key, s.union? b ≠ none) → ms = [] ∧ is = [⟨key, value⟩]) := by
  have hs := (kept_of_reaches h).sound
  have hkey : s.Has key := shape_parts_has hs ht key List.mem_cons_self
  obtain ⟨s₁, hmembers⟩ := list_record h ht fuel .members
  obtain ⟨s₂, hindexes⟩ := list_record h ht fuel .indexes
  refine ⟨_, s₁, _, s₂, hmembers, hindexes, ⟨fun hlaw names hnames hne => hlaw.plainKeys hnames hne,
    fun hplain => ?_⟩, fun ⟨b, hb, hunion⟩ =>
    recordItems_of_no_keys (literalKeys?_of_nested hb hunion)⟩
  cases hnames : u.leafNames? s key with
  | none =>
    refine ⟨fun names h => (by rw [hnames] at h; cases h), fun _ => recordItems_of_no_keys ?_⟩
    cases hkeys : literalKeys? s key with
    | none => rfl
    | some direct => exact absurd hnames (isSome_leafNames? hs hkey hkeys)
  | some names =>
    by_cases hne : names = []
    · refine ⟨fun names' h hne' => ?_, fun h => (by rw [hnames] at h; cases h)⟩
      rw [hnames] at h
      cases h
      exact absurd hne hne'
    · exact (hplain names hnames hne).recordLaw hs hkey

/-- One unit: a table of two records, one over the branches of an alias and one over that alias
and a literal more. -/
def sidesUniverse : Universe where
  units := [⟨"sides.ts", [
    { name := "Side", exported := false, line := none, typeParams := []
      body := .typeAlias (.union [.literal (.str "left"), .literal (.str "right")]) },
    { name := "Sides", exported := true, line := none, typeParams := []
      body := .interface []
        [⟨"plain", false, false, some (.generic "Record" [.name "Side", .name "number"])⟩,
          ⟨"nested", false, false, some (.generic "Record"
            [.union [.name "Side", .literal (.str "top")], .name "number"])⟩] [] }]⟩]
  distinct := by decide

/-- The members of the interface are asked for. -/
def sidesRun : Option Interner := do
  let (_, s) ← sidesUniverse.exportedTypes 9 sidesUniverse.start
  let (_, s) ← sidesUniverse.members 9 ⟨0⟩ s
  pure s

theorem sidesRun_reaches (h : sidesRun = some s) : sidesUniverse.Reaches sidesUniverse.start s := by
  unfold sidesRun at h
  obtain ⟨⟨ts, s₀⟩, hexported, h⟩ := Option.bind_eq_some_iff.1 h
  obtain ⟨⟨ms, s₁⟩, hmembers, h⟩ := Option.bind_eq_some_iff.1 h
  cases h
  have hsize : (sidesUniverse.exportedTypes 9 sidesUniverse.start).map (·.2.slots.size) =
      some 1 := by decide +kernel
  rw [hexported] at hsize
  have hhas : 0 < s₀.slots.size := by
    have hsize : s₀.slots.size = 1 := Option.some.inj hsize
    omega
  exact (Relation.ReflTransGen.single (.exported hexported)).tail (.members hhas hmembers)

/-- A record of the table, and the names that the leaves of its key type are. -/
def sidesRecord? (s : Interner) (t : TypeId) : Option ((TypeId × TypeId) × Option (List String)) :=
  match s.data t with
  | .object _ (.record key value) => some ((key, value), sidesUniverse.leafNames? s key)
  | _ => none

theorem of_sidesRecord? {names : Option (List String)}
    (h : sidesRecord? s t = some ((key, value), names)) :
    (∃ origin, s.data t = .object origin (.record key value)) ∧
      sidesUniverse.leafNames? s key = names := by
  unfold sidesRecord? at h
  split at h
  · rename_i hdata
    cases h
    exact ⟨⟨_, hdata⟩, rfl⟩
  · cases h

/-- The record over the branches of the alias has a member for each of them. -/
theorem sidesUniverse_plain : ∃ s ms s₁ is s₂, sidesRun = some s ∧
    sidesUniverse.members 9 ⟨5⟩ s = some (ms, s₁) ∧ sidesUniverse.indexes 9 ⟨5⟩ s = some (is, s₂) ∧
    sidesUniverse.RecordLaw s ⟨1⟩ ⟨4⟩ ms is ∧
    ms = [⟨"left", false, some ⟨4⟩⟩, ⟨"right", false, some ⟨4⟩⟩] ∧ is = [] := by
  have hrun : (do
      let s ← sidesRun
      pure (sidesRecord? s ⟨5⟩, literalKeys? s ⟨1⟩,
        (s.branchesOf ⟨1⟩).all fun b => (s.union? b).isNone) :
        Option (Option _ × Option (List String) × Bool)) =
      some (some ((⟨1⟩, ⟨4⟩), some ["left", "right"]), some ["left", "right"], true) := by
    decide +kernel
  obtain ⟨s, hs, hrun⟩ := Option.bind_eq_some_iff.1 hrun
  obtain ⟨hrecord, hrun⟩ := Prod.mk.inj (Option.some.inj hrun)
  obtain ⟨hkeys, hflat⟩ := Prod.mk.inj hrun
  obtain ⟨⟨origin, hdata⟩, hnames⟩ := of_sidesRecord? hrecord
  obtain ⟨ms, s₁, is, s₂, hmembers, hindexes, hlaw, -⟩ := record_lists (sidesRun_reaches hs) hdata 8
  have hplain : PlainKeys s ⟨1⟩ := by
    refine ⟨fun b hb => Option.isNone_iff_eq_none.1 (List.all_eq_true.1 hflat b hb), ?_⟩
    rw [map_keyName? hkeys]
    decide
  have hlaw := hlaw.2 fun _ _ _ => hplain
  obtain ⟨rfl, rfl⟩ := hlaw.spelled _ hnames (List.cons_ne_nil _ _)
  exact ⟨s, _, s₁, _, s₂, hs, hmembers, hindexes, hlaw, by decide, rfl⟩

/-- The record over the alias and a literal more has no member for any of its three keys. -/
theorem sidesUniverse_nested : ∃ s s₁ s₂, sidesUniverse.Reaches sidesUniverse.start s ∧
    (∃ origin, s.data ⟨8⟩ = .object origin (.record ⟨7⟩ ⟨4⟩)) ∧
    sidesUniverse.leafNames? s ⟨7⟩ = some ["left", "right", "top"] ∧
    sidesUniverse.members 9 ⟨8⟩ s = some ([], s₁) ∧
    sidesUniverse.indexes 9 ⟨8⟩ s = some ([⟨⟨7⟩, ⟨4⟩⟩], s₂) ∧
    ¬ sidesUniverse.RecordLaw s ⟨7⟩ ⟨4⟩ [] [⟨⟨7⟩, ⟨4⟩⟩] := by
  have hrecord : (sidesRun.map fun s => sidesRecord? s ⟨8⟩) =
      some (some ((⟨7⟩, ⟨4⟩), some ["left", "right", "top"])) := by decide +kernel
  have hlists : (sidesRun.map fun s => ((sidesUniverse.members 9 ⟨8⟩ s).map (·.1),
      (sidesUniverse.indexes 9 ⟨8⟩ s).map (·.1))) = some (some [], some [⟨⟨7⟩, ⟨4⟩⟩]) := by
    decide +kernel
  obtain ⟨s, hs, hrecord⟩ := Option.map_eq_some_iff.1 hrecord
  rw [hs] at hlists
  obtain ⟨hmembers, hindexes⟩ := Prod.mk.inj (Option.some.inj hlists)
  obtain ⟨⟨_, s₁⟩, hmembers, rfl⟩ := Option.map_eq_some_iff.1 hmembers
  obtain ⟨⟨_, s₂⟩, hindexes, rfl⟩ := Option.map_eq_some_iff.1 hindexes
  obtain ⟨hdata, hnames⟩ := of_sidesRecord? hrecord
  refine ⟨s, s₁, s₂, sidesRun_reaches hs, hdata, hnames, hmembers, hindexes, fun hlaw => ?_⟩
  cases (hlaw.spelled _ hnames (List.cons_ne_nil _ _)).2

end Universe
end TypedJson
