import TypedJson.Proofs.Designation
import TypedJson.Proofs.Assembly
/-!
# What a type lists, by names

What the members and index signatures of a type are made from (`Contents`) is decided by the name
of the type (`Universe.HasContents`).  So what is listed has names that the name of the type
decides as well (`Universe.Enumerates`, `Enumerates.unique`): an expression in the text of an
interface is called after the place where it stands there.

These relations mirror `Contents` and `Assembled` with names in place of handles.  They do
not mention a table; that a table keeps to them is shown afterwards.  So two tables can be
compared without being brought together: both list what the name says, and the name says one
thing.
-/
namespace TypedJson

def Contents.map {α β : Type} (f : α → β) : Contents α → Contents β
  | .text unit params bases members indexes =>
    .text unit (params.map fun p => (p.1, f p.2)) bases members indexes
  | .parts xs => .parts (xs.map f)
  | .record key value => .record (f key) (f value)
  | .nothing => .nothing

structure NamedMember where
  name : String
  optional : Bool
  type : Option TypeName

structure NamedIndex where
  key : TypeName
  value : TypeName

namespace Listing

abbrev NamedItem : Listing → Type
  | .members => NamedMember
  | .indexes => NamedIndex

/-- The types of an item. -/
def types : (k : Listing) → k.Item → List TypeId
  | .members => fun m => m.type.toList
  | .indexes => fun x => [x.key, x.value]

/-- An item with the names of its types. -/
def nameBy (name : TypeId → TypeName) : (k : Listing) → k.Item → k.NamedItem
  | .members => fun m => ⟨m.name, m.optional, m.type.map name⟩
  | .indexes => fun x => ⟨name x.key, name x.value⟩

theorem nameBy_congr {name name' : TypeId → TypeName} (k : Listing) {x : k.Item}
    (h : ∀ t ∈ k.types x, name' t = name t) : k.nameBy name' x = k.nameBy name x := by
  cases k with
  | members =>
    obtain ⟨n, optional, type⟩ := x
    cases type with
    | none => rfl
    | some t => exact congrArg (fun N => NamedMember.mk n optional (some N)) (h t List.mem_cons_self)
  | indexes =>
    show NamedIndex.mk _ _ = NamedIndex.mk _ _
    rw [h x.key List.mem_cons_self, h x.value (List.mem_cons_of_mem _ List.mem_cons_self)]

/-- Adds the elements whose names are not there yet. -/
def mergeBy {α : Type} (name : α → String) (xs more : List α) : List α :=
  more.foldl (fun out x => if out.any (name · == name x) then out else out ++ [x]) xs

theorem map_mergeBy {α β : Type} {name : α → String} {n : β → String} {f : α → β}
    (hname : ∀ a, n (f a) = name a) : ∀ more xs : List α,
    (mergeBy name xs more).map f = mergeBy n (xs.map f) (more.map f)
  | [], _ => rfl
  | x :: more, xs => by
    have hany : (xs.map f).any (n · == n (f x)) = xs.any (name · == name x) := by
      rw [List.any_map]
      exact congrArg xs.any (funext fun a => by simp only [Function.comp_apply, hname])
    show (mergeBy name (if _ then _ else _) more).map f = mergeBy n (if _ then _ else _) _
    rw [map_mergeBy hname more, hany]
    split
    · rfl
    · rw [List.map_append]
      rfl

def joinNames : (k : Listing) → List (List k.NamedItem) → List k.NamedItem → List k.NamedItem
  | .members => fun lists own => lists.foldl (mergeBy NamedMember.name) own
  | .indexes => fun lists own => own ++ lists.flatten

theorem map_join (name : TypeId → TypeName) (k : Listing) (lists : List (List k.Item))
    (own : List k.Item) : (k.join lists own).map (k.nameBy name) =
      k.joinNames (lists.map (List.map (k.nameBy name))) (own.map (k.nameBy name)) := by
  cases k with
  | members =>
    show (lists.foldl (mergeBy TypeMember.name) own).map _ = List.foldl _ _ _
    induction lists generalizing own with
    | nil => rfl
    | cons list lists ih =>
      rw [List.foldl_cons, List.map_cons, List.foldl_cons, ih]
      exact congrArg (List.foldl _ · _)
        (map_mergeBy (n := NamedMember.name) (f := nameBy name .members) (fun _ => rfl) list own)
  | indexes =>
    show (own ++ lists.flatten).map _ = _ ++ _
    rw [List.map_append, List.map_flatten]

end Listing

namespace NamedTable

variable {V V' : NamedTable}

abbrev items (V : NamedTable) (k : Listing) (l : List k.Item) : List k.NamedItem :=
  l.map (k.nameBy V.name)

/-- The types of the items are in the table. -/
def HasItems (V : NamedTable) (k : Listing) (l : List k.Item) : Prop :=
  ∀ x ∈ l, ∀ t ∈ k.types x, V.Has t

theorem HasItems.later {k : Listing} {l : List k.Item} (hl : V.HasItems k l) (h : V.Later V') :
    V'.HasItems k l := fun x hx t ht => h.has t (hl x hx t ht)

theorem Later.items (h : V.Later V') {k : Listing} {l : List k.Item} (hl : V.HasItems k l) :
    V'.items k l = V.items k l :=
  List.map_congr_left fun x hx => k.nameBy_congr fun t ht => h.name t (hl x hx t ht)

end NamedTable

/-! ## The contents of a type

The name of an alias or interface leads to its declaration, that of an object without a name
has its texts in it.  A name has at most one kind of contents; the proof goes through the
pairs of rules, and most pairs exclude each other by the form of the name. -/

/-- The name of a string literal. -/
def TypeName.literalKey? : TypeName → Option String
  | .literal (.str name) => some name
  | _ => none

/-- What a record with these branches of its key lists. -/
def recordNames (branches : List TypeName) (key value : TypeName) :
    (k : Listing) → List k.NamedItem
  | .members =>
    ((branches.mapM TypeName.literalKey?).getD []).map fun name => ⟨name, false, some value⟩
  | .indexes =>
    match branches.mapM TypeName.literalKey? with
    | some _ => []
    | none => [⟨key, value⟩]

namespace Universe

/-- The branches of a type that is called so, or itself if it is no union. -/
inductive HasBranches (u : Universe) (S : DeclarationId → List TypeName → Prop) :
    TypeName → List TypeName → Prop
  | union {xs} : HasBranches u S (.union xs) xs
  | named {N xs} (h : u.HasParts S N .union xs) : HasBranches u S N xs
  | single {N} (hunion : ∀ xs, N ≠ .union xs) (hnamed : ∀ scope es, ¬ u.HasBody N scope (.union es)) :
    HasBranches u S N [N]

/-- The names of types that list nothing. -/
inductive IsPlain (u : Universe) : TypeName → Prop
  | intrinsic {i} : IsPlain u (.intrinsic i)
  | literal {value} : IsPlain u (.literal value)
  | unresolved {n} : IsPlain u (.unresolved n)
  | param {symbol} : IsPlain u (.param symbol)
  | array {x} : IsPlain u (.array x)
  | reference {symbol args} (h : ∀ id d bases members indexes, symbol = .declared id →
    u.declaration? id = some d → d.body ≠ .interface bases members indexes) :
    IsPlain u (.reference symbol args)
  | union {xs} : IsPlain u (.union xs)
  | named {N scope es} (h : u.HasBody N scope (.union es)) : IsPlain u N

/-- What the lists of a type that is called so are made from. -/
inductive HasContents (u : Universe) (S : DeclarationId → List TypeName → Prop) :
    TypeName → Contents TypeName → Prop
  | interface {id d args bases members indexes} (hd : u.declaration? id = some d)
    (hbody : d.body = .interface bases members indexes) :
    HasContents u S (.reference (.declared id) args)
      (.text id.unit (d.typeParams.zip args) bases members indexes)
  | nominal {N scope members indexes} (h : u.HasBody N scope (.object members indexes)) :
    HasContents u S N (.text scope.unit scope.params [] members indexes)
  | object {listing owner path members indexes unit params} :
    HasContents u S (.object listing owner path members indexes unit params)
      (.text unit params [] members indexes)
  | parts {N xs} (h : u.HasParts S N .intersection xs) : HasContents u S N (.parts xs)
  | intersection {listing owner path xs} :
    HasContents u S (.intersection listing owner path xs) (.parts xs)
  | record {key value} :
    HasContents u S (.named (.builtin .record) [key, value]) (.record key value)
  | nothing {N} (h : u.IsPlain N) : HasContents u S N .nothing

variable {u : Universe} {S S' : DeclarationId → List TypeName → Prop} {N : TypeName}

/-! A name has one kind of contents.  The kinds are told apart by the form of the name, except
for names of instances; these may be of any kind, and there the text of the alias decides
(`HasBody.unique`). -/

theorem HasBranches.mono {xs : List TypeName} (h : u.HasBranches S N xs)
    (hS : ∀ id args, S id args → S' id args) : u.HasBranches S' N xs := by
  cases h with
  | union => exact .union
  | named h => exact .named (h.mono hS)
  | single hunion hnamed => exact .single hunion hnamed

theorem HasBranches.unique {xs xs' : List TypeName} (h : u.HasBranches S N xs)
    (h' : u.HasBranches S' N xs') : xs = xs' := by
  have hbranches : ∀ {S xs}, u.HasParts S N .union xs → ∃ scope es, u.HasBody N scope (.union es) :=
    fun ⟨scope, es, h, _⟩ => ⟨scope, es, h⟩
  cases h with
  | union =>
    cases h' with
    | union => rfl
    | named h' =>
      obtain ⟨_, _, h'⟩ := hbranches h'
      cases h'
    | single hunion => exact absurd rfl (hunion _)
  | named h =>
    obtain ⟨scope, es, hbody⟩ := hbranches h
    cases h' with
    | union => cases hbody
    | named h' => exact h.unique (fun _ _ h => TypeExpr.union.inj h) h'
    | single _ hnamed => exact absurd hbody (hnamed scope es)
  | single hunion hnamed =>
    cases h' with
    | union => exact absurd rfl (hunion _)
    | named h' =>
      obtain ⟨scope, es, hbody⟩ := hbranches h'
      exact absurd hbody (hnamed scope es)
    | single => rfl

theorem HasContents.mono {c : Contents TypeName} (h : u.HasContents S N c)
    (hS : ∀ id args, S id args → S' id args) : u.HasContents S' N c := by
  cases h with
  | interface hd hbody => exact .interface hd hbody
  | nominal h => exact .nominal h
  | object => exact .object
  | parts h => exact .parts (h.mono hS)
  | intersection => exact .intersection
  | record => exact .record
  | nothing h => exact .nothing h

theorem HasContents.eq_nothing {c : Contents TypeName} (h : u.HasContents S N c) (hN : u.IsPlain N) :
    c = .nothing := by
  cases h with
  | interface hd hbody =>
    cases hN with
    | reference h => exact absurd hbody (h _ _ _ _ _ rfl hd)
    | named h => cases h
  | nominal h =>
    cases hN with
    | named h' => cases (h.unique h').2
    | _ => cases h
  | parts h =>
    obtain ⟨scope, es, h, -⟩ := h
    cases hN with
    | named h' => cases (h.unique h').2
    | _ => cases h
  | object => cases hN with | named h => cases h
  | intersection => cases hN with | named h => cases h
  | record => cases hN with | named h => cases h
  | nothing => rfl

theorem HasContents.unique {c c' : Contents TypeName} (h : u.HasContents S N c)
    (h' : u.HasContents S' N c') : c = c' := by
  cases h with
  | interface hd hbody =>
    cases h' with
    | interface hd' hbody' =>
      cases hd.symm.trans hd'
      cases hbody.symm.trans hbody'
      rfl
    | nominal h' => cases h'
    | parts h' =>
      obtain ⟨_, _, h', -⟩ := h'
      cases h'
    | nothing hN => exact (HasContents.interface (S := S) hd hbody).eq_nothing hN
  -- the same alias, so the same text
  | nominal h =>
    cases h' with
    | nominal h' =>
      obtain ⟨rfl, heq⟩ := h.unique h'
      cases heq
      rfl
    | parts h' =>
      obtain ⟨_, _, h', -⟩ := h'
      cases (h.unique h').2
    | nothing hN => exact (HasContents.nominal (S := S) h).eq_nothing hN
    | interface => cases h
    | object => cases h
    | intersection => cases h
    | record => cases h
  | object =>
    cases h' with
    | object => rfl
    | nominal h' => cases h'
    | parts h' =>
      obtain ⟨_, _, h', -⟩ := h'
      cases h'
    | nothing hN => exact (HasContents.object (S := S)).eq_nothing hN
  | parts h =>
    obtain ⟨_, _, hbody, -⟩ := id h
    cases h' with
    | parts h' => rw [h.unique (fun _ _ h => TypeExpr.intersection.inj h) h']
    | nominal h' => cases (hbody.unique h').2
    | nothing hN => exact (HasContents.parts (S := S) h).eq_nothing hN
    | interface => cases hbody
    | object => cases hbody
    | intersection => cases hbody
    | record => cases hbody
  | intersection =>
    cases h' with
    | intersection => rfl
    | nominal h' => cases h'
    | parts h' =>
      obtain ⟨_, _, h', -⟩ := h'
      cases h'
    | nothing hN => exact (HasContents.intersection (S := S)).eq_nothing hN
  | record =>
    cases h' with
    | record => rfl
    | nominal h' => cases h'
    | parts h' =>
      obtain ⟨_, _, h', -⟩ := h'
      cases h'
    | nothing hN => exact (HasContents.record (S := S)).eq_nothing hN
  | nothing hN => exact (h'.eq_nothing hN).symm

/-! ## Lists

Own items are called after the texts at the site of the list, bases after the second part of
that site.  Uniqueness is by induction on the derivation and comes down to that of `Names`. -/

/-- The member is that of the text at the site. -/
structure MemberNames (u : Universe) (S : DeclarationId → List TypeName → Prop) (p : Site)
    (scope : NameScope) (m : Member) (x : NamedMember) : Prop where
  name : x.name = m.name
  optional : x.optional = m.optional
  type : match m.method, m.type with
    | false, some e => ∃ N, x.type = some N ∧ u.Names S (.expr p scope e) N
    | _, _ => x.type = none

structure IndexNames (u : Universe) (S : DeclarationId → List TypeName → Prop) (p : Site)
    (scope : NameScope) (m : Index) (x : NamedIndex) : Prop where
  key : u.Names S (.expr (p.child 0) scope m.key) x.key
  value : u.Names S (.expr (p.child 1) scope m.value) x.value

def TextNames (u : Universe) (S : DeclarationId → List TypeName → Prop) (p : Site)
    (scope : NameScope) (members : List Member) (indexes : List Index) :
    (k : Listing) → List k.NamedItem → Prop
  | .members => Pointwise (fun i m x => u.MemberNames S (p.child i) scope m x) members
  | .indexes => Pointwise (fun i m x => u.IndexNames S (p.child i) scope m x) indexes

/-- The site of the lists of a type: its own texts are the first part of it, its bases the
second. -/
def listSite (k : Listing) (N : TypeName) : Site := ⟨some k, N, []⟩

/-- The items of the type itself. -/
def OwnNames (u : Universe) (S : DeclarationId → List TypeName → Prop) (k : Listing) (N : TypeName)
    (c : Contents TypeName) (own : List k.NamedItem) : Prop :=
  match c with
  | .text unit params _ members indexes =>
    u.TextNames S ((listSite k N).child 0) ⟨unit, params⟩ members indexes k own
  | .record key value => ∃ xs, u.HasBranches S key xs ∧ own = recordNames xs key value k
  | .parts _ | .nothing => own = []

/-- The types that it takes over from. -/
def BaseNames (u : Universe) (S : DeclarationId → List TypeName → Prop) (k : Listing) (N : TypeName)
    (c : Contents TypeName) (bases : List TypeName) : Prop :=
  match c with
  | .text unit params es _ _ => u.NamesAll S ((listSite k N).child 1) ⟨unit, params⟩ es bases
  | .parts xs => bases = xs
  | .record _ _ | .nothing => bases = []

/-- What a type that is called so lists. -/
inductive Enumerates (u : Universe) (S : DeclarationId → List TypeName → Prop) (k : Listing) :
    TypeName → List k.NamedItem → Prop
  | intro {N : TypeName} {c : Contents TypeName} {own : List k.NamedItem} {bases : List TypeName}
      {lists : List (List k.NamedItem)} (hc : u.HasContents S N c) (hown : u.OwnNames S k N c own)
      (hbases : u.BaseNames S k N c bases) (hlen : bases.length = lists.length)
      (h : ∀ (i : Nat) (b : TypeName) (l : List k.NamedItem), bases[i]? = some b →
        lists[i]? = some l → Enumerates u S k b l) :
      Enumerates u S k N (k.joinNames lists own)

section Enumerates

variable {p : Site} {scope : NameScope} {k : Listing} {c : Contents TypeName}

/-! Every relation here grows with what is known of instances, and determines what it relates
whatever is known on either side. -/

theorem MemberNames.mono {m : Member} {x : NamedMember} (h : u.MemberNames S p scope m x)
    (hS : ∀ id args, S id args → S' id args) : u.MemberNames S' p scope m x := by
  refine ⟨h.name, h.optional, ?_⟩
  have htype := h.type
  split at htype
  · exact htype.imp fun N hN => hN.imp_right fun hN => hN.mono hS
  · exact htype

theorem MemberNames.unique {m : Member} {x x' : NamedMember} (h : u.MemberNames S p scope m x)
    (h' : u.MemberNames S' p scope m x') : x = x' := by
  obtain ⟨name, optional, type⟩ := x
  obtain ⟨name', optional', type'⟩ := x'
  obtain ⟨hname, hoptional, htype⟩ := h
  obtain ⟨hname', hoptional', htype'⟩ := h'
  obtain rfl : name = name' := hname.trans hname'.symm
  obtain rfl : optional = optional' := hoptional.trans hoptional'.symm
  obtain rfl : type = type' := by
    split at htype
    · rename_i hmethod hm
      rw [hmethod, hm] at htype'
      obtain ⟨N, heq, hN⟩ := htype
      obtain ⟨N', heq', hN'⟩ := htype'
      exact heq.trans ((congrArg some (hN.unique hN')).trans heq'.symm)
    · rename_i hnone
      split at htype'
      · rename_i hmethod hm
        exact absurd hm (hnone _ hmethod)
      · exact htype.trans htype'.symm
  rfl

theorem IndexNames.mono {m : Index} {x : NamedIndex} (h : u.IndexNames S p scope m x)
    (hS : ∀ id args, S id args → S' id args) : u.IndexNames S' p scope m x :=
  ⟨h.key.mono hS, h.value.mono hS⟩

theorem IndexNames.unique {m : Index} {x x' : NamedIndex} (h : u.IndexNames S p scope m x)
    (h' : u.IndexNames S' p scope m x') : x = x' := by
  obtain ⟨key, value⟩ := x
  obtain ⟨key', value'⟩ := x'
  obtain rfl : key = key' := h.key.unique h'.key
  obtain rfl : value = value' := h.value.unique h'.value
  rfl

theorem TextNames.mono {members : List Member} {indexes : List Index} {own : List k.NamedItem}
    (h : u.TextNames S p scope members indexes k own) (hS : ∀ id args, S id args → S' id args) :
    u.TextNames S' p scope members indexes k own := by
  cases k with
  | members => exact Pointwise.imp h fun _ _ _ _ hx => hx.mono hS
  | indexes => exact Pointwise.imp h fun _ _ _ _ hx => hx.mono hS

theorem TextNames.unique {members : List Member} {indexes : List Index} {own own' : List k.NamedItem}
    (h : u.TextNames S p scope members indexes k own)
    (h' : u.TextNames S' p scope members indexes k own') : own = own' := by
  cases k with
  | members => exact Pointwise.unique h h' fun _ _ _ _ hx hx' => hx.unique hx'
  | indexes => exact Pointwise.unique h h' fun _ _ _ _ hx hx' => hx.unique hx'

theorem OwnNames.mono {own : List k.NamedItem} (h : u.OwnNames S k N c own)
    (hS : ∀ id args, S id args → S' id args) : u.OwnNames S' k N c own := by
  cases c with
  | text unit params bases members indexes => exact TextNames.mono h hS
  | record key value => exact h.imp fun xs hxs => hxs.imp_left fun hxs => hxs.mono hS
  | parts | nothing => exact h

theorem OwnNames.unique {own own' : List k.NamedItem} (h : u.OwnNames S k N c own)
    (h' : u.OwnNames S' k N c own') : own = own' := by
  cases c with
  | text unit params bases members indexes => exact TextNames.unique h h'
  | record key value =>
    obtain ⟨xs, hxs, rfl⟩ := h
    obtain ⟨xs', hxs', rfl⟩ := h'
    rw [hxs.unique hxs']
  | parts | nothing => exact Eq.trans h h'.symm

theorem BaseNames.mono {bases : List TypeName} (h : u.BaseNames S k N c bases)
    (hS : ∀ id args, S id args → S' id args) : u.BaseNames S' k N c bases := by
  cases c with
  | text unit params es members indexes => exact NamesAll.mono h hS
  | parts | record | nothing => exact h

theorem BaseNames.unique {bases bases' : List TypeName} (h : u.BaseNames S k N c bases)
    (h' : u.BaseNames S' k N c bases') : bases = bases' := by
  cases c with
  | text unit params es members indexes => exact NamesAll.unique h h'
  | parts | record | nothing => exact Eq.trans h h'.symm

theorem Enumerates.mono {l : List k.NamedItem} (h : u.Enumerates S k N l)
    (hS : ∀ id args, S id args → S' id args) : u.Enumerates S' k N l := by
  induction h with
  | intro hc hown hbases hlen _ ih =>
    exact .intro (hc.mono hS) (hown.mono hS) (hbases.mono hS) hlen ih

/-- **A type of that name lists one thing only.** -/
theorem Enumerates.unique {l l' : List k.NamedItem} (h : u.Enumerates S k N l) (h' : u.Enumerates S' k N l') :
    l = l' := by
  induction h generalizing l' with
  | intro hc hown hbases hlen _ ih =>
    cases h' with
    | intro hc' hown' hbases' hlen' h' =>
      obtain rfl := hc.unique hc'
      obtain rfl := hown.unique hown'
      obtain rfl := hbases.unique hbases'
      rw [Pointwise.unique (R := fun _ b l => ∀ {l'}, u.Enumerates S' k b l' → l = l') ⟨hlen, ih⟩ ⟨hlen', h'⟩
        fun _ _ _ _ hl hl' => hl hl']

end Enumerates

/-! ## The contents of the types of a table

In a table that keeps to its names the contents of a type are those of its name, up to
replacing handles by names. -/

theorem interface?_eq_none {d : TypeData} (h : ∀ id args, d ≠ .form (.reference ⟨.declared id, args⟩)) :
    u.interface? d = none := by
  unfold interface?
  split
  · exact absurd rfl (h _ _)
  · rfl

variable {V : NamedTable}

/-- **The name of a type decides what its lists are made from.** -/
theorem Stands.contents {d : TypeData} {name : TypeId → TypeName} (h : u.Stands S name d N)
    (hopen : d ≠ .reserved) : u.HasContents S N ((u.contents d).map name) := by
  cases d with
  | reserved => exact absurd rfl hopen
  | namedUnion origin branches =>
    obtain ⟨-, _, _, hbody, -⟩ := h
    exact .nothing (.named hbody)
  | form f =>
    obtain rfl : N = f.nameBy name := h
    cases f with
    | intrinsic => exact .nothing .intrinsic
    | literal => exact .nothing .literal
    | unresolved => exact .nothing .unresolved
    | param => exact .nothing .param
    | array => exact .nothing .array
    | union => exact .nothing .union
    -- a reference is to an interface, which has contents, or to an enum or builtin, which
    -- has none
    | reference inst =>
      obtain ⟨symbol, args⟩ := inst
      unfold Universe.contents
      cases hinterface : u.interface? (.form (.reference ⟨symbol, args⟩)) with
      | some found =>
        obtain ⟨scope, bases, members, indexes⟩ := found
        obtain ⟨id, d, args, heq, hd, hbody, rfl⟩ := exists_interface hinterface
        cases heq
        have hparams : (d.typeParams.zip args).map (fun p => (p.1, name p.2)) =
            d.typeParams.zip (args.map name) := by
          rw [List.zip_map_right]
          rfl
        show u.HasContents S _ (.text _ (List.map _ _) _ _ _)
        rw [hparams]
        exact .interface hd hbody
      | none =>
        refine .nothing (.reference fun id d bases members indexes hid hd hbody => ?_)
        obtain rfl : symbol = .declared id := hid
        obtain ⟨n, exported, line, typeParams, body⟩ := d
        obtain rfl : body = .interface bases members indexes := hbody
        simp only [interface?, hd] at hinterface
        cases hinterface
  | object origin shape =>
    have hnone : u.interface? (.object origin shape) = none :=
      interface?_eq_none fun _ _ h => by cases h
    unfold Universe.contents
    rw [hnone]
    cases origin with
    | none =>
      cases shape with
      | literal members indexes scope =>
        obtain ⟨p, rfl⟩ := h
        exact .object
      | intersection parts =>
        obtain ⟨p, rfl⟩ := h
        exact .intersection
      | record key value => cases h
    | some origin =>
      cases shape with
      | literal members indexes scope =>
        obtain ⟨-, hbody⟩ := h
        exact .nominal hbody
      | intersection parts => exact .parts h.2
      | record key value =>
        obtain ⟨rfl, rfl⟩ := h
        exact .record

theorem Stands.branches {d : TypeData} {name : TypeId → TypeName} (h : u.Stands S name d N)
    (hopen : d ≠ .reserved) :
    u.HasBranches S N ((d.union?.map (List.map name)).getD [N]) := by
  have hsingle : ∀ {symbol : Symbol} {args : List TypeName} {scope scope' : NameScope}
      {body : TypeExpr} {es : List TypeExpr}, u.HasBody (.named symbol args) scope' body →
      body ≠ .union es → ¬ u.HasBody (.named symbol args) scope (.union es) := fun hbody hne h =>
    hne (hbody.unique h).2.symm
  cases d with
  | reserved => exact absurd rfl hopen
  | namedUnion origin branches => exact .named h.2
  | form f =>
    obtain rfl : N = f.nameBy name := h
    cases f with
    | union => exact .union
    | _ => exact .single (fun _ h => by cases h) fun _ _ h => by cases h
  | object origin shape =>
    cases origin with
    | none =>
      cases shape with
      | literal =>
        obtain ⟨p, rfl⟩ := h
        exact .single (fun _ h => by cases h) fun _ _ h => by cases h
      | intersection =>
        obtain ⟨p, rfl⟩ := h
        exact .single (fun _ h => by cases h) fun _ _ h => by cases h
      | record => cases h
    | some origin =>
      cases shape with
      | literal =>
        obtain ⟨rfl, hbody⟩ := h
        exact .single (fun _ h => by cases h) fun _ _ => hsingle hbody fun h => by cases h
      | intersection =>
        obtain ⟨rfl, _, _, hbody, -⟩ := h
        exact .single (fun _ h => by cases h) fun _ _ => hsingle hbody fun h => by cases h
      | record =>
        obtain ⟨rfl, rfl⟩ := h
        exact .single (fun _ h => by cases h) fun _ _ h => by cases h

end Universe
end TypedJson
