import TypedJson.Proofs.Derivation
import TypedJson.Proofs.Merging
import TypedJson.Proofs.Refinement
/-!
# What types that are alike list

Types that are alike list the same (`assembled_like`): members of the same names, of types that
are alike, and index signatures of such types.  Only the names of a record may come in another
order, as they are the branches of a union.  So lists of members are compared as sets
(`MembersAlike`), and where members are merged also by the first one of each name, which is the
one that counts there.

Merging looks at names only, so it takes related members to related members as long as the
same names come first; that is the second field of `MembersAlike`, and it is what an order
of record keys could spoil.  Record keys are distinct, so for them any order will do
(`membersAlike_of_names`).
-/
namespace TypedJson

variable {R : TypeId → TypeId → Prop}

namespace Alike

variable {d d' : TypeData}

theorem union? (h : Alike R d d') {bs : List TypeId} (hd : d.union? = some bs) :
    ∃ bs', d'.union? = some bs' ∧ Setwise R bs bs' := by
  cases h with
  | @plain f hf =>
    refine ⟨bs, hd, ?_⟩
    rcases TypeData.union?_eq_some_iff.1 hd with hform | ⟨origin, hform⟩
    · cases hform
      obtain rfl : bs = [] := hf
      exact .of_forall₂ .nil
    · cases hform
  | union hd₁ hd' h =>
    rw [hd] at hd₁
    cases hd₁
    exact ⟨_, hd', h⟩
  | _ => cases hd

theorem union?_eq_none (h : Alike R d d') (hd : d.union? = none) : d'.union? = none := by
  cases hd' : d'.union? with
  | none => rfl
  | some bs =>
    obtain ⟨bs', hbs', -⟩ := h.flip.union? hd'
    rw [hd] at hbs'
    cases hbs'

theorem of_reference {symbol : Symbol} {args : List TypeId}
    (h : Alike R (.form (.reference ⟨symbol, args⟩)) d') :
    ∃ args', d' = .form (.reference ⟨symbol, args'⟩) ∧ List.Forall₂ R args args' := by
  cases h with
  | plain hf =>
    obtain rfl : args = [] := hf
    exact ⟨[], rfl, .nil⟩
  | reference h => exact ⟨_, rfl, h⟩
  | union hd => cases hd

theorem of_array {x : TypeId} (h : Alike R (.form (.array x)) d') :
    ∃ x', d' = .form (.array x') ∧ R x x' := by
  cases h with
  | plain hf => cases hf
  | array h => exact ⟨_, rfl, h⟩
  | union hd => cases hd

theorem of_intrinsic {i : Intrinsic} (h : Alike R (.form (.intrinsic i)) d') :
    d' = .form (.intrinsic i) := by
  cases h with
  | plain => rfl
  | union hd => cases hd

theorem of_literal {value : Literal} (h : Alike R (.form (.literal value)) d') :
    d' = .form (.literal value) := by
  cases h with
  | plain => rfl
  | union hd => cases hd

end Alike

/-! ## Members -/

/-- The members have the same name and related types. -/
structure MemberAlike (R : TypeId → TypeId → Prop) (m m' : TypeMember) : Prop where
  name : m.name = m'.name
  optional : m.optional = m'.optional
  type : Option.Rel R m.type m'.type

theorem MemberAlike.flip {m m' : TypeMember} (h : MemberAlike R m m') : MemberAlike (flip R) m' m := by
  refine ⟨h.name.symm, h.optional.symm, ?_⟩
  have htype := h.type
  generalize m.type = type at htype
  generalize m'.type = type' at htype
  cases htype with
  | some ht => exact .some ht
  | none => exact .none

structure IndexAlike (R : TypeId → TypeId → Prop) (x x' : TypeIndex) : Prop where
  key : R x.key x'.key
  value : R x.value x'.value

/-- The members are alike whatever their order, and so are the first ones of each name. -/
structure MembersAlike (R : TypeId → TypeId → Prop) (ms ms' : List TypeMember) : Prop where
  members : Setwise (MemberAlike R) ms ms'
  first : ∀ n, Option.Rel (MemberAlike R) (firstNamed? ms n) (firstNamed? ms' n)

theorem MembersAlike.of_forall₂ {ms ms' : List TypeMember} (h : List.Forall₂ (MemberAlike R) ms ms') :
    MembersAlike R ms ms' := by
  refine ⟨.of_forall₂ h, fun n => ?_⟩
  induction h with
  | nil => exact .none
  | @cons m m' ms ms' hm _ ih =>
    unfold firstNamed? at ih ⊢
    rw [List.find?_cons, List.find?_cons, ← hm.name]
    cases m.name == n with
    | true => exact .some hm
    | false => exact ih

namespace MembersAlike

variable {ms ms' more more' : List TypeMember}

theorem flip (h : MembersAlike R ms ms') : MembersAlike (flip R) ms' ms := by
  refine ⟨h.members.flip.mono fun _ _ hm => hm.flip, fun n => ?_⟩
  have hfirst := h.first n
  generalize firstNamed? ms n = found at hfirst
  generalize firstNamed? ms' n = found' at hfirst
  cases hfirst with
  | some hm => exact .some hm.flip
  | none => exact .none

theorem mem_merge (h : MembersAlike R ms ms') (hmore : MembersAlike R more more') {m : TypeMember}
    (hm : m ∈ Universe.mergeMembers ms more) :
    ∃ m' ∈ Universe.mergeMembers ms' more', MemberAlike R m m' := by
  rcases (mem_mergeMembers_iff m more ms).1 hm with hm | ⟨hnone, hfound⟩
  · obtain ⟨m', hm', halike⟩ := h.members.1 m hm
    exact ⟨m', (mem_mergeMembers_iff m' more' ms').2 (.inl hm'), halike⟩
  · have hfirst := h.first m.name
    have hfirst' := hmore.first m.name
    rw [hnone] at hfirst
    rw [hfound] at hfirst'
    generalize hnone' : firstNamed? ms' m.name = found at hfirst
    generalize hfound' : firstNamed? more' m.name = found' at hfirst'
    cases hfirst
    cases hfirst' with
    | @some _ m' halike =>
      rw [halike.name] at hnone' hfound'
      exact ⟨m', (mem_mergeMembers_iff m' more' ms').2 (.inr ⟨hnone', hfound'⟩), halike⟩

theorem merge (h : MembersAlike R ms ms') (hmore : MembersAlike R more more') :
    MembersAlike R (Universe.mergeMembers ms more) (Universe.mergeMembers ms' more') := by
  refine ⟨⟨fun m hm => h.mem_merge hmore hm, fun m' hm' => ?_⟩, fun n => ?_⟩
  · obtain ⟨m, hm, halike⟩ := h.flip.mem_merge hmore.flip hm'
    exact ⟨m, hm, halike.flip⟩
  · rw [firstNamed?_mergeMembers, firstNamed?_mergeMembers]
    have hfirst := h.first n
    generalize firstNamed? ms n = found at hfirst
    generalize firstNamed? ms' n = found' at hfirst
    cases hfirst with
    | some halike => exact .some halike
    | none => exact hmore.first n

theorem mergeAll {lists lists' : List (List TypeMember)}
    (hlists : List.Forall₂ (MembersAlike R) lists lists') : ∀ {ms ms' : List TypeMember},
      MembersAlike R ms ms' →
      MembersAlike R (Universe.mergeAll lists ms) (Universe.mergeAll lists' ms') := by
  induction hlists with
  | nil => exact fun h => h
  | cons hlist _ ih => exact fun h => ih (h.merge hlist)

end MembersAlike

namespace Listing

/-- The lists are alike. -/
def ItemsAlike (R : TypeId → TypeId → Prop) : (k : Listing) → List k.Item → List k.Item → Prop
  | .members => MembersAlike R
  | .indexes => List.Forall₂ (IndexAlike R)

theorem ItemsAlike.join : ∀ {k : Listing} {lists lists' : List (List k.Item)}
    {own own' : List k.Item}, List.Forall₂ (k.ItemsAlike R) lists lists' → k.ItemsAlike R own own' →
    k.ItemsAlike R (k.join lists own) (k.join lists' own')
  | .members, _, _, _, _, hlists, hown => MembersAlike.mergeAll hlists hown
  | .indexes, _, _, _, _, hlists, hown => List.rel_append hown (List.rel_flatten hlists)

end Listing

theorem mapM_eq_some_iff {α β : Type} {f : α → Option β} : ∀ {as : List α} {bs : List β},
    as.mapM f = some bs ↔ List.Forall₂ (fun a b => f a = some b) as bs
  | [], bs => by
    rw [List.mapM_nil, List.forall₂_nil_left_iff, eq_comm]
    exact ⟨fun h => by cases h; rfl, fun h => by rw [h]; rfl⟩
  | a :: as, bs => by
    rw [List.mapM_cons, List.forall₂_cons_left_iff]
    constructor
    · intro h
      obtain ⟨b, hb, h⟩ := Option.bind_eq_some_iff.1 h
      obtain ⟨rest, hrest, h⟩ := Option.bind_eq_some_iff.1 h
      cases h
      exact ⟨b, rest, hb, mapM_eq_some_iff.1 hrest, rfl⟩
    · rintro ⟨b, rest, hb, hrest, rfl⟩
      rw [hb, mapM_eq_some_iff.2 hrest]
      rfl

namespace Universe

variable {u : Universe} {s s' : Interner} {t t' : TypeId}

/-! ## The names of a record

The keys of a record are listed if they are all texts.  Whether they are depends on the
leaves of the key type, which are related as sets. -/

theorem literalKeys?_eq_some_iff {key : TypeId} {names : List String} :
    literalKeys? s key = some names ↔
      List.Forall₂ (fun b n => s.literal? b = some (.str n)) ((s.union? key).getD [key]) names := by
  rw [literalKeys?, mapM_eq_some_iff]
  refine ⟨fun h => h.imp fun b n hn => ?_, fun h => h.imp fun b n hn => by rw [hn]⟩
  split at hn
  · rename_i name hname
    cases hn
    exact hname
  · cases hn

theorem Like.literal? (h : Like s s' t t') {value : Literal} (ht : s.literal? t = some value) :
    s'.literal? t' = some value := by
  have halike := h.alike
  rw [TypeData.literal?_eq_some_iff.1 ht] at halike
  rw [Interner.literal?, halike.of_literal]
  rfl

theorem Like.branches (h : Like s s' t t') :
    Setwise (Like s s') ((s.union? t).getD [t]) ((s'.union? t').getD [t']) := by
  cases ht : s.union? t with
  | some bs =>
    obtain ⟨bs', hbs', hset⟩ := h.alike.union? ht
    rw [Interner.union?, hbs']
    exact hset
  | none =>
    rw [Interner.union?, h.alike.union?_eq_none ht]
    exact .of_forall₂ (.cons h .nil)

theorem literalKeys?_like {key key' : TypeId} (h : Like s s' key key') {names : List String}
    (hnames : literalKeys? s key = some names) :
    ∃ names', literalKeys? s' key' = some names' ∧ ∀ n, n ∈ names ↔ n ∈ names' := by
  have hall := literalKeys?_eq_some_iff.1 hnames
  have hset := h.branches
  have hnamed : ∀ b' ∈ (s'.union? key').getD [key'], ∃ n, s'.literal? b' = some (.str n) := by
    intro b' hb'
    obtain ⟨b, hb, hlike⟩ := hset.2 b' hb'
    obtain ⟨n, -, hn⟩ := forall₂_mem_left hall hb
    exact ⟨n, hlike.literal? hn⟩
  obtain ⟨names', hall'⟩ := forall₂_of_forall hnamed
  refine ⟨names', literalKeys?_eq_some_iff.2 hall', fun n => ⟨fun hn => ?_, fun hn => ?_⟩⟩
  · obtain ⟨b, hb, hname⟩ := forall₂_mem_right hall hn
    obtain ⟨b', hb', hlike⟩ := hset.1 b hb
    obtain ⟨n', hn', hname'⟩ := forall₂_mem_left hall' hb'
    rw [hlike.literal? hname] at hname'
    cases hname'
    exact hn'
  · obtain ⟨b', hb', hname'⟩ := forall₂_mem_right hall' hn
    obtain ⟨b, hb, hlike⟩ := hset.2 b' hb'
    obtain ⟨n', hn', hname⟩ := forall₂_mem_left hall hb
    rw [hlike.literal? hname] at hname'
    cases hname'
    exact hn'

theorem literalKeys?_eq_none {key key' : TypeId} (h : Like s s' key key')
    (hnone : literalKeys? s key = none) : literalKeys? s' key' = none := by
  cases hnames' : literalKeys? s' key' with
  | none => rfl
  | some names' =>
    obtain ⟨names, hnames, -⟩ := literalKeys?_like h.symm hnames'
    rw [hnone] at hnames
    cases hnames

theorem membersAlike_of_names {names names' : List String} (h : ∀ n, n ∈ names ↔ n ∈ names')
    {value value' : TypeId} (hvalue : R value value') :
    MembersAlike R (names.map fun n => ⟨n, false, some value⟩)
      (names'.map fun n => ⟨n, false, some value'⟩) := by
  have hmember : ∀ n, MemberAlike R ⟨n, false, some value⟩ ⟨n, false, some value'⟩ :=
    fun n => ⟨rfl, rfl, .some hvalue⟩
  have hfirst : ∀ (ns : List String) (x : TypeId) (n : String),
      firstNamed? (ns.map fun n => ⟨n, false, some x⟩) n =
        if n ∈ ns then some ⟨n, false, some x⟩ else none := by
    intro ns x n
    unfold firstNamed?
    induction ns with
    | nil => rfl
    | cons m ns ih =>
      rw [List.map_cons, List.find?_cons]
      by_cases hm : m = n
      · subst hm
        simp
      · rw [beq_false_of_ne hm]
        simp only [ih, List.mem_cons, Ne.symm hm, false_or]
  refine ⟨⟨?_, ?_⟩, fun n => ?_⟩
  · simp only [List.forall_mem_map]
    exact fun n hn => ⟨_, List.mem_map_of_mem ((h n).1 hn), hmember n⟩
  · simp only [List.forall_mem_map]
    exact fun n hn => ⟨_, List.mem_map_of_mem ((h n).2 hn), hmember n⟩
  · rw [hfirst, hfirst]
    by_cases hn : n ∈ names
    · rw [if_pos hn, if_pos ((h n).1 hn)]
      exact .some (hmember n)
    · rw [if_neg hn, if_neg fun hn' => hn ((h n).2 hn')]
      exact .none

/-! ## What is listed

The lists are compared along `Assembled`: own items from the same texts in related scopes,
and bases that are related in their order.  The induction is on the first derivation; the
second list is analysed by inversion at each step. -/

theorem Like.interface? (h : Like s s' t t') {scope : Scope} {bases : List TypeExpr}
    {members : List Member} {indexes : List Index}
    (ht : u.interface? (s.data t) = some (scope, bases, members, indexes)) :
    ∃ scope', u.interface? (s'.data t') = some (scope', bases, members, indexes) ∧
      ScopesAlike (Like s s') scope scope' := by
  have halike := h.alike
  obtain ⟨id, ⟨n, exported, line, typeParams, body⟩, args, hdata, hd, hbody, rfl⟩ :=
    Universe.exists_interface ht
  obtain rfl : body = .interface bases members indexes := hbody
  rw [hdata] at halike
  obtain ⟨args', hdata', hargs⟩ := halike.of_reference
  refine ⟨_, ?_, .zip hargs _⟩
  rw [hdata', Universe.interface?, hd]

theorem Like.interface?_eq_none (h : Like s s' t t') (ht : u.interface? (s.data t) = none) :
    u.interface? (s'.data t') = none := by
  cases ht' : u.interface? (s'.data t') with
  | none => rfl
  | some found =>
    obtain ⟨scope, hfound, -⟩ := h.symm.interface? ht'
    rw [ht] at hfound
    cases hfound

/-! An interface lists from its text in a scope, an inline object likewise, and a record by the
names that its key stands for; nothing else has items of its own.  So each comparison asks
for an interface first, and where there is none it goes by the form of the data, which is
the same on both sides. -/

theorem memberDenotes_like (hs : u.Settled s) (hs' : u.Settled s') {scope scope' : Scope}
    (hscope : ScopesAlike (Like s s') scope scope') {m : Member} {x x' : TypeMember}
    (hx : u.MemberDenotes s scope m x) (hx' : u.MemberDenotes s' scope' m x') :
    MemberAlike (Like s s') x x' := by
  refine ⟨hx.name.trans hx'.name.symm, hx.optional.trans hx'.optional.symm, ?_⟩
  have htype := hx.type
  have htype' := hx'.type
  split at htype
  · rename_i hmethod hexpr
    rw [hmethod, hexpr] at htype'
    obtain ⟨t, ht, hdenotes⟩ := htype
    obtain ⟨t', ht', hdenotes'⟩ := htype'
    rw [ht, ht']
    exact .some (.of_denotes hs hs' hscope hdenotes hdenotes')
  · rename_i hnone
    split at htype'
    · rename_i hmethod hexpr
      exact absurd hexpr (hnone _ hmethod)
    · rw [htype, htype']
      exact .none

theorem indexDenotes_like (hs : u.Settled s) (hs' : u.Settled s') {scope scope' : Scope}
    (hscope : ScopesAlike (Like s s') scope scope') {m : Index} {x x' : TypeIndex}
    (hx : u.IndexDenotes s scope m x) (hx' : u.IndexDenotes s' scope' m x') :
    IndexAlike (Like s s') x x' :=
  ⟨.of_denotes hs hs' hscope hx.key hx'.key, .of_denotes hs hs' hscope hx.value hx'.value⟩

theorem ownMembers_like (hs : u.Settled s) (hs' : u.Settled s') (h : Like s s' t t')
    {ms ms' : List TypeMember} (hms : u.OwnMembers s t ms) (hms' : u.OwnMembers s' t' ms') :
    MembersAlike (Like s s') ms ms' := by
  have hdenoted : ∀ {scope scope' members}, ScopesAlike (Like s s') scope scope' →
      List.Forall₂ (u.MemberDenotes s scope) members ms →
      List.Forall₂ (u.MemberDenotes s' scope') members ms' → MembersAlike (Like s s') ms ms' :=
    fun hscope hms hms' => .of_forall₂
      (forall₂_of_left hms hms' fun _ _ _ => memberDenotes_like hs hs' hscope)
  unfold OwnMembers at hms hms'
  cases hinterface : u.interface? (s.data t) with
  | some found =>
    obtain ⟨scope, bases, members, indexes⟩ := found
    obtain ⟨scope', hinterface', hscope⟩ := h.interface? hinterface
    rw [hinterface] at hms
    rw [hinterface'] at hms'
    exact hdenoted hscope hms hms'
  | none =>
    rw [hinterface] at hms
    rw [h.interface?_eq_none hinterface] at hms'
    have halike := h.alike
    generalize s.data t = d at halike hms
    generalize s'.data t' = d' at halike hms'
    cases halike with
    | plain | array | reference =>
      cases hms
      cases hms'
      exact .of_forall₂ .nil
    -- a union lists nothing, whether it has a handle of its own or not
    | union hd hd' =>
      rcases TypeData.union?_eq_some_iff.1 hd with rfl | ⟨_, rfl⟩ <;>
        rcases TypeData.union?_eq_some_iff.1 hd' with rfl | ⟨_, rfl⟩ <;>
        cases hms <;> cases hms' <;> exact .of_forall₂ .nil
    | literal _ hscope => exact hdenoted hscope hms hms'
    | intersection =>
      cases hms
      cases hms'
      exact .of_forall₂ .nil
    -- what the names are is read off the key, and keys that are alike have the same names
    | @record _ _ key value key' value' _ hkey hvalue =>
      cases hms
      cases hms'
      cases hnames : literalKeys? s key with
      | some names =>
        obtain ⟨names', hnames', hiff⟩ := literalKeys?_like hkey hnames
        rw [hnames']
        exact membersAlike_of_names hiff hvalue
      | none =>
        rw [literalKeys?_eq_none hkey hnames]
        exact .of_forall₂ .nil

theorem ownIndexes_like (hs : u.Settled s) (hs' : u.Settled s') (h : Like s s' t t')
    {is is' : List TypeIndex} (his : u.OwnIndexes s t is) (his' : u.OwnIndexes s' t' is') :
    List.Forall₂ (IndexAlike (Like s s')) is is' := by
  have hdenoted : ∀ {scope scope' indexes}, ScopesAlike (Like s s') scope scope' →
      List.Forall₂ (u.IndexDenotes s scope) indexes is →
      List.Forall₂ (u.IndexDenotes s' scope') indexes is' →
      List.Forall₂ (IndexAlike (Like s s')) is is' :=
    fun hscope his his' => forall₂_of_left his his' fun _ _ _ => indexDenotes_like hs hs' hscope
  unfold OwnIndexes at his his'
  cases hinterface : u.interface? (s.data t) with
  | some found =>
    obtain ⟨scope, bases, members, indexes⟩ := found
    obtain ⟨scope', hinterface', hscope⟩ := h.interface? hinterface
    rw [hinterface] at his
    rw [hinterface'] at his'
    exact hdenoted hscope his his'
  | none =>
    rw [hinterface] at his
    rw [h.interface?_eq_none hinterface] at his'
    have halike := h.alike
    generalize s.data t = d at halike his
    generalize s'.data t' = d' at halike his'
    cases halike with
    | plain | array | reference =>
      cases his
      cases his'
      exact .nil
    | union hd hd' =>
      rcases TypeData.union?_eq_some_iff.1 hd with rfl | ⟨_, rfl⟩ <;>
        rcases TypeData.union?_eq_some_iff.1 hd' with rfl | ⟨_, rfl⟩ <;>
        cases his <;> cases his' <;> exact .nil
    | literal _ hscope => exact hdenoted hscope his his'
    | intersection =>
      cases his
      cases his'
      exact .nil
    | @record _ _ key value key' value' _ hkey hvalue =>
      cases hnames : literalKeys? s key with
      | some names =>
        obtain ⟨names', hnames', -⟩ := literalKeys?_like hkey hnames
        simp only [hnames] at his
        simp only [hnames'] at his'
        rw [his, his']
        exact .nil
      | none =>
        simp only [hnames] at his
        simp only [literalKeys?_eq_none hkey hnames] at his'
        rw [his, his']
        exact .cons ⟨hkey, hvalue⟩ .nil

theorem own_like (hs : u.Settled s) (hs' : u.Settled s') (h : Like s s' t t') :
    ∀ {k : Listing} {l l' : List k.Item}, u.Own s k t l → u.Own s' k t' l' →
      k.ItemsAlike (Like s s') l l'
  | .members, _, _, hl, hl' => ownMembers_like hs hs' h hl hl'
  | .indexes, _, _, hl, hl' => ownIndexes_like hs hs' h hl hl'

theorem bases_like (hs : u.Settled s) (hs' : u.Settled s') (h : Like s s' t t')
    {ts ts' : List TypeId} (hts : u.Bases s t ts) (hts' : u.Bases s' t' ts') :
    List.Forall₂ (Like s s') ts ts' := by
  unfold Bases at hts hts'
  cases hinterface : u.interface? (s.data t) with
  | some found =>
    obtain ⟨scope, bases, members, indexes⟩ := found
    obtain ⟨scope', hinterface', hscope⟩ := h.interface? hinterface
    rw [hinterface] at hts
    rw [hinterface'] at hts'
    exact Like.of_denoteAll hs hs' hscope hts hts'
  | none =>
    rw [hinterface] at hts
    rw [h.interface?_eq_none hinterface] at hts'
    have halike := h.alike
    generalize s.data t = d at halike hts
    generalize s'.data t' = d' at halike hts'
    cases halike with
    | plain | array | reference =>
      cases hts
      cases hts'
      exact .nil
    | union hd hd' =>
      rcases TypeData.union?_eq_some_iff.1 hd with rfl | ⟨_, rfl⟩ <;>
        rcases TypeData.union?_eq_some_iff.1 hd' with rfl | ⟨_, rfl⟩ <;>
        cases hts <;> cases hts' <;> exact .nil
    | literal =>
      cases hts
      cases hts'
      exact .nil
    | intersection _ hparts =>
      cases hts
      cases hts'
      exact hparts
    | record =>
      cases hts
      cases hts'
      exact .nil

/-- **What types list that are alike is alike.** -/
theorem assembled_like (hs : u.Settled s) (hs' : u.Settled s') {k : Listing} {l : List k.Item}
    (hl : u.Assembled s k t l) : ∀ {t' : TypeId} {l' : List k.Item}, Like s s' t t' →
      u.Assembled s' k t' l' → k.ItemsAlike (Like s s') l l' := by
  induction hl with
  | @intro t own bases lists _ hown hbases hlen _ ih =>
    intro t' l' h hl'
    cases hl' with
    | @intro _ own' bases' lists' _ hown' hbases' hlen' hlists' =>
      have hboth := bases_like hs hs' h hbases hbases'
      refine .join (List.forall₂_iff_zip.2 ⟨?_, fun {l l'} hll => ?_⟩) (own_like hs hs' h hown hown')
      · rw [← hlen, ← hlen', hboth.length_eq]
      -- the lists at one place are those of the bases at that place
      · obtain ⟨b, hb, hb'⟩ := mem_zip_of_zip hlen hll
        obtain ⟨b', hbb', hb'⟩ := mem_zip_of_zip hboth.length_eq.symm hb'
        exact ih hb ((List.forall₂_iff_zip.1 hboth.flip).2 hbb') (hlists' hb')

end Universe
end TypedJson
